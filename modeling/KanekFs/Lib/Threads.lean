import KanekFs.Lib.Run
import Mathlib.Logic.Function.Basic

/-!
# Threads over a shared memory

Threads of type `T` work on a shared memory of type `M`. Each has a stack of frames of type `F`:
a frame says where a running call is and what its locals are. In one step one thread executes
one statement of the call on top of its stack, or an idle thread starts a call; an input of type
`I` says what the environment contributes.

* `System` is a program of this kind, and `System.step` the step of the whole system for
  any scheduling.
* `Outline` is a proof outline: an invariant `G` of the memory, and an assertion `A` for each
  frame that holds whenever the frame is on top of a stack. A statement establishes the
  assertions of the frames it leaves, and does not disturb those of other threads.
* `Outline.throughout` is the rule: a valid outline holds in every state of every run, for
  every interleaving.
* `StackOutline` is the general form, with an assertion of the whole stack of a thread, so that
  what a call relies on can be handed down to the calls that wait for it. It has the same rule,
  `StackOutline.extend` puts one outline on top of another, and `System.observe` adds a history
  to the memory that no statement looks at, `System.widen` an input.
-/

namespace Threads

open Run

variable {T M F I : Type*}

/-- One statement of a call gives the new memory and the frames that replace the one on top;
there is no result where the thread has to wait. -/
structure System (T M F I : Type*) where
  exec : M → T → F → I → Option (M × List F)
  start : T → I → Option (List F)

structure State (T M F : Type*) where
  mem : M
  stack : T → List F

variable [DecidableEq T]

/-- Thread `a.1` takes a step with input `a.2`. -/
def System.step (S : System T M F I) (s : State T M F) (a : T × I) : Option (State T M F) :=
  match s.stack a.1 with
  | [] => (S.start a.1 a.2).map fun fs => ⟨s.mem, Function.update s.stack a.1 fs⟩
  | f :: k => (S.exec s.mem a.1 f a.2).map fun r => ⟨r.1, Function.update s.stack a.1 (r.2 ++ k)⟩

/-- The statement that the step executes meets the condition `C`. -/
def Meets (C : M → T → F → I → Prop) (s : State T M F) (a : T × I) : Prop :=
  ∀ f k, s.stack a.1 = f :: k → C s.mem a.1 f a.2

instance {C : M → T → F → I → Prop} [∀ m t f i, Decidable (C m t f i)] (s : State T M F)
    (a : T × I) : Decidable (Meets C s a) :=
  match h : s.stack a.1 with
  | [] => isTrue fun f k hs => by simp [h] at hs
  | g :: l => decidable_of_iff (C s.mem a.1 g a.2) ⟨fun hC f k hs => by
      rw [h, List.cons.injEq] at hs
      exact hs.1 ▸ hC, fun hall => hall g l h⟩

/-! ## Proof outlines -/

/-- The assertion of the top frame holds, and those of the waiting frames hold in any memory. -/
def StackOk (A : M → T → F → Prop) (m : M) (t : T) : List F → Prop
  | [] => True
  | f :: k => A m t f ∧ ∀ g ∈ k, ∀ m', A m' t g

/-- A proof outline for the steps that meet `C`. -/
structure Outline (S : System T M F I) (C : M → T → F → I → Prop) (G : M → Prop)
    (A : M → T → F → Prop) : Prop where
  start : ∀ {t i fs}, S.start t i = some fs → ∀ m, StackOk A m t fs
  own : ∀ {m t f i m' fs}, S.exec m t f i = some (m', fs) → C m t f i → G m → A m t f →
    G m' ∧ StackOk A m' t fs
  other : ∀ {m t f i m' fs}, S.exec m t f i = some (m', fs) → C m t f i → G m → A m t f →
    ∀ t' ≠ t, ∀ g, A m t' g → A m' t' g

/-- The outline holds in a state. -/
def Valid (G : M → Prop) (A : M → T → F → Prop) (s : State T M F) : Prop :=
  G s.mem ∧ ∀ t, StackOk A s.mem t (s.stack t)

variable {S : System T M F I} {C : M → T → F → I → Prop} {G : M → Prop} {A : M → T → F → Prop}
  {s s' : State T M F} {m m' : M} {t : T} {a : T × I}

omit [DecidableEq T] in
lemma StackOk.append {fs k : List F} (hfs : StackOk A m t fs) (hk : ∀ g ∈ k, ∀ m', A m' t g) :
    StackOk A m t (fs ++ k) := by
  cases fs with
  | nil =>
    cases k with
    | nil => trivial
    | cons g k => exact ⟨hk g (by simp) m, fun g' hg' => hk g' (by simp [hg'])⟩
  | cons f fs =>
    refine ⟨hfs.1, ?_⟩
    intro g hg
    rcases List.mem_append.mp hg with hg | hg
    · exact hfs.2 g hg
    · exact hk g hg

omit [DecidableEq T] in
/-- Only the assertion on top of a stack can be disturbed. -/
lemma StackOk.mono {k : List F} (hk : StackOk A m t k) (h : ∀ g, A m t g → A m' t g) :
    StackOk A m' t k := by
  cases k with
  | nil => trivial
  | cons g k => exact ⟨h g hk.1, hk.2⟩

/-! ## Outlines of whole stacks -/

/-- A proof outline that asserts something of the whole stack of a thread. -/
structure StackOutline (S : System T M F I) (C : M → T → F → I → Prop) (G : M → Prop)
    (B : M → T → List F → Prop) : Prop where
  start : ∀ {t i fs}, S.start t i = some fs → ∀ m, G m → B m t [] → B m t fs
  own : ∀ {m t f k i m' fs}, S.exec m t f i = some (m', fs) → C m t f i → G m → B m t (f :: k) →
    G m' ∧ B m' t (fs ++ k)
  other : ∀ {m t f k i m' fs}, S.exec m t f i = some (m', fs) → C m t f i → G m →
    B m t (f :: k) → ∀ t' ≠ t, ∀ k', B m t' k' → B m' t' k'

/-- The outline holds in a state. -/
def Holds (G : M → Prop) (B : M → T → List F → Prop) (s : State T M F) : Prop :=
  G s.mem ∧ ∀ t, B s.mem t (s.stack t)

variable {B : M → T → List F → Prop}

/-- What a step is: an idle thread starts a call, or the call on top executes a statement. -/
theorem System.step_cases (h : S.step s a = some s') :
    (∃ fs, s.stack a.1 = [] ∧ S.start a.1 a.2 = some fs ∧
        s' = ⟨s.mem, Function.update s.stack a.1 fs⟩) ∨
      ∃ f k m' fs, s.stack a.1 = f :: k ∧ S.exec s.mem a.1 f a.2 = some (m', fs) ∧
        s' = ⟨m', Function.update s.stack a.1 (fs ++ k)⟩ := by
  unfold System.step at h
  cases hstack : s.stack a.1 with
  | nil =>
    simp only [hstack, Option.map_eq_some_iff] at h
    rcases h with ⟨fs, hfs, rfl⟩
    exact .inl ⟨fs, rfl, hfs, rfl⟩
  | cons f k =>
    simp only [hstack, Option.map_eq_some_iff] at h
    rcases h with ⟨⟨m', fs⟩, hexec, rfl⟩
    exact .inr ⟨f, k, m', fs, rfl, hexec, rfl⟩

/-- A thread that takes no step of a run stays where it is. -/
theorem System.run_stack {as : List (T × I)} (hrun : run S.step s as = some s')
    (ht : ∀ a ∈ as, a.1 ≠ t) : s'.stack t = s.stack t := by
  induction as generalizing s with
  | nil =>
    rw [run_nil, Option.some.injEq] at hrun
    rw [hrun]
  | cons a as ih =>
    rcases run_cons_eq_some.mp hrun with ⟨s₁, hs, hrest⟩
    have ha : t ≠ a.1 := (ht a (by simp)).symm
    rw [ih hrest fun b hb => ht b (by simp [hb])]
    rcases System.step_cases hs with ⟨fs, -, -, rfl⟩ | ⟨f, k, m', fs, -, -, rfl⟩
    · exact Function.update_of_ne ha ..
    · exact Function.update_of_ne ha ..

/-- A step that meets the condition keeps the outline. -/
theorem StackOutline.step (hO : StackOutline S C G B) (hstep : S.step s a = some s')
    (hC : Meets C s a) (h : Holds G B s) : Holds G B s' := by
  rcases h with ⟨hG, hB⟩
  have hself := hB a.1
  rcases System.step_cases hstep with ⟨fs, hnil, hstart, rfl⟩ | ⟨f, k, m', fs, htop, hexec, rfl⟩
  · -- the thread was idle and starts a call
    rw [hnil] at hself
    refine ⟨hG, ?_⟩
    intro t
    by_cases ht : t = a.1
    · subst ht
      simpa using hO.start hstart s.mem hG hself
    · simpa [Function.update_of_ne ht] using hB t
  · -- the thread executes a statement of `f`
    rw [htop] at hself
    have hCf := hC f k htop
    rcases hO.own hexec hCf hG hself with ⟨hG', hown⟩
    refine ⟨hG', ?_⟩
    intro t
    by_cases ht : t = a.1
    · subst ht
      simpa using hown
    · simpa [Function.update_of_ne ht] using hO.other hexec hCf hG hself t ht _ (hB t)

/-- The rule of proof outlines: in a run whose steps meet the condition the outline holds in
every state. -/
theorem StackOutline.throughout (hO : StackOutline S C G B) (h : Holds G B s)
    {as : List (T × I)} (hC : Along S.step (Meets C) s as) :
    Throughout S.step (Holds G B) s as :=
  run_invariant (fun _ _ _ hs hc hv => hO.step hs hc hv) h hC

omit [DecidableEq T] in
/-- An outline that rests on another one. -/
theorem StackOutline.extend {C₀ : M → T → F → I → Prop} {G₀ : M → Prop}
    {B₀ : M → T → List F → Prop} (hO : StackOutline S C₀ G₀ B₀)
    (hC : ∀ {m t f i}, C m t f i → C₀ m t f i)
    (hstart : ∀ {t i fs}, S.start t i = some fs → ∀ m, G m → B m t [] → B m t fs)
    (hown : ∀ {m t f k i m' fs}, S.exec m t f i = some (m', fs) → C m t f i → G₀ m →
      B₀ m t (f :: k) → G₀ m' → B₀ m' t (fs ++ k) → G m → B m t (f :: k) →
      G m' ∧ B m' t (fs ++ k))
    (hother : ∀ {m t f k i m' fs}, S.exec m t f i = some (m', fs) → C m t f i → G₀ m →
      B₀ m t (f :: k) → G m → B m t (f :: k) → ∀ t' ≠ t, ∀ k', B₀ m t' k' → B m t' k' →
      B m' t' k') :
    StackOutline S C (fun m => G₀ m ∧ G m) (fun m t k => B₀ m t k ∧ B m t k) where
  start hs m hG hB := ⟨hO.start hs m hG.1 hB.1, hstart hs m hG.2 hB.2⟩
  own hexec hc hG hB :=
    have h₀ := hO.own hexec (hC hc) hG.1 hB.1
    have h₁ := hown hexec hc hG.1 hB.1 h₀.1 h₀.2 hG.2 hB.2
    ⟨⟨h₀.1, h₁.1⟩, h₀.2, h₁.2⟩
  other hexec hc hG hB t' ht k' hk' :=
    ⟨hO.other hexec (hC hc) hG.1 hB.1 t' ht k' hk'.1,
      hother hexec hc hG.1 hB.1 hG.2 hB.2 t' ht k' hk'.1 hk'.2⟩

omit [DecidableEq T] in
/-- An outline of the top frames is one of the stacks. -/
theorem Outline.stacks (hO : Outline S C G A) : StackOutline S C G (StackOk A) where
  start hs m _ _ := hO.start hs m
  own hexec hc hG hA :=
    have h := hO.own hexec hc hG hA.1
    ⟨h.1, h.2.append hA.2⟩
  other hexec hc hG hA t' ht _ hk' := hk'.mono (hO.other hexec hc hG hA.1 t' ht)

/-- The rule for outlines of the top frames. -/
theorem Outline.throughout (hO : Outline S C G A) (h : Valid G A s) {as : List (T × I)}
    (hC : Along S.step (Meets C) s as) : Throughout S.step (Valid G A) s as :=
  hO.stacks.throughout h hC

/-! ## Histories -/

variable {H : Type*}

/-- The system with a history beside its memory: `obs` sees each statement before it is
executed, and no statement sees the history. -/
def System.observe (S : System T M F I) (obs : M → T → F → I → H → H) : System T (M × H) F I where
  exec m t f i := (S.exec m.1 t f i).map fun r => ((r.1, obs m.1 t f i m.2), r.2)
  start := S.start

omit [DecidableEq T] in
lemma System.exec_observe {obs : M → T → F → I → H → H} {m m' : M × H} {f : F} {i : I}
    {fs : List F} : (S.observe obs).exec m t f i = some (m', fs) ↔
      S.exec m.1 t f i = some (m'.1, fs) ∧ m'.2 = obs m.1 t f i m.2 := by
  rcases m' with ⟨m₁, h₁⟩
  simp only [System.observe, Option.map_eq_some_iff, Prod.exists, Prod.mk.injEq]
  constructor
  · rintro ⟨m₂, fs₂, hexec, ⟨rfl, rfl⟩, rfl⟩
    exact ⟨hexec, rfl⟩
  · rintro ⟨hexec, rfl⟩
    exact ⟨m₁, fs, hexec, ⟨rfl, rfl⟩, rfl⟩

omit [DecidableEq T] in
/-- An outline stays one when a history is kept. -/
theorem StackOutline.observe (hO : StackOutline S C G B) (obs : M → T → F → I → H → H) :
    StackOutline (S.observe obs) (fun m => C m.1) (fun m => G m.1) (fun m => B m.1) where
  start hs m hG hB := hO.start hs m.1 hG hB
  own hexec hc hG hB := hO.own (System.exec_observe.mp hexec).1 hc hG hB
  other hexec hc hG hB := hO.other (System.exec_observe.mp hexec).1 hc hG hB

/-- The system with an input beside its own that no statement looks at; a history can. -/
def System.widen (S : System T M F I) (J : Type*) : System T M F (I × J) where
  exec m t f i := S.exec m t f i.1
  start t i := S.start t i.1

omit [DecidableEq T] in
lemma StackOutline.widen (hO : StackOutline S C G B) (J : Type*) :
    StackOutline (S.widen J) (fun m t f i => C m t f i.1) G B where
  start hs := hO.start hs
  own hexec hc := hO.own hexec hc
  other hexec hc := hO.other hexec hc

end Threads
