import Mathlib.Data.List.Basic
import Mathlib.Data.Option.Basic

/-!
# Runs of a partial step function

A system is a function `step : σ → ι → Option σ`: the state, what happens to it, and the next
state when this can happen. A run is a list of inputs.

* `run step s t` is the state the inputs `t` lead to, `Throughout step P s t` says that every
  state on the way satisfies `P`, and `Along step C s t` that every step meets the condition `C`.
* `run_invariant` is the invariant rule for runs under a step condition, and
  `throughout_iff_along` its exact form: when one step keeps `P` if and only if it meets `C`,
  a run stays in `P` if and only if all its steps meet `C`. `throughout_and_along_iff` is the same
  where something is also asked of the steps.
* `exists_run` leads a system to a state by steps that come closer to it.
* `replay` follows a run with a second, total system that sees the same inputs, and
  `run_simulates` is the simulation rule for the two. `run_lags` is for what the first system has
  taken over from the second at some point of the run.
* `answers` is a run of a system that answers every input, `Answered` one of a system that may
  answer in several ways, and `answers_refine` the rule by which the first refines the second.
  `Answered.unique`: where one way is left for each input, one is left for a run.
-/

namespace Run

variable {σ ι τ : Type*} (step : σ → ι → Option σ)

/-- The state after the inputs `t`, if every one of them can happen. -/
def run (s : σ) (t : List ι) : Option σ := t.foldlM step s

/-- Every step taken on the inputs `t` meets `C`. -/
def Along (C : σ → ι → Prop) : σ → List ι → Prop
  | _, [] => True
  | s, a :: t => ∀ s', step s a = some s' → C s a ∧ Along C s' t

instance Along.decidable (C : σ → ι → Prop) [∀ s a, Decidable (C s a)] :
    ∀ (s : σ) (t : List ι), Decidable (Along step C s t)
  | _, [] => isTrue trivial
  | s, a :: t => match h : step s a with
    | none => isTrue fun s' hs => by simp [h] at hs
    | some s' =>
      have := Along.decidable C s' t
      decidable_of_iff (C s a ∧ Along step C s' t)
        ⟨fun hC s₁ hs => Option.some.inj (h.symm.trans hs) ▸ hC, fun hall => hall s' h⟩

/-- Every state visited on the inputs `t` satisfies `P`. -/
def Throughout (P : σ → Prop) : σ → List ι → Prop
  | s, [] => P s
  | s, a :: t => P s ∧ ∀ s', step s a = some s' → Throughout P s' t

instance Throughout.decidable (P : σ → Prop) [DecidablePred P] :
    ∀ (s : σ) (t : List ι), Decidable (Throughout step P s t)
  | s, [] => inferInstanceAs (Decidable (P s))
  | s, a :: t => match h : step s a with
    | none =>
      decidable_of_iff (P s) ⟨fun hP => ⟨hP, fun s' hs => by simp [h] at hs⟩, fun hP => hP.1⟩
    | some s' =>
      have := Throughout.decidable P s' t
      decidable_of_iff (P s ∧ Throughout step P s' t)
        ⟨fun hP => ⟨hP.1, fun s₁ hs => Option.some.inj (h.symm.trans hs) ▸ hP.2⟩,
          fun hP => ⟨hP.1, hP.2 s' h⟩⟩

/-- What the same inputs make of `x` in a system that sees the state of the first one. -/
def replay (spec : σ → ι → τ → τ) : σ → List ι → τ → τ
  | _, [], x => x
  | s, a :: t, x => match step s a with
    | some s' => replay spec s' t (spec s a x)
    | none => x

variable {step} {s s' : σ} {a : ι} {t : List ι}

@[simp] theorem run_nil : run step s [] = some s := rfl

theorem run_cons_eq_some :
    run step s (a :: t) = some s' ↔ ∃ s₁, step s a = some s₁ ∧ run step s₁ t = some s' := by
  simp [run, List.foldlM_cons, Option.bind_eq_some_iff]

theorem run_append_eq_some {u : List ι} :
    run step s (t ++ u) = some s' ↔ ∃ s₁, run step s t = some s₁ ∧ run step s₁ u = some s' := by
  simp [run, List.foldlM_append, Option.bind_eq_some_iff]

/-- A condition on the inputs alone is met along every run of such inputs. -/
theorem along_of_forall {C : σ → ι → Prop} (h : ∀ a ∈ t, ∀ s, C s a) : Along step C s t := by
  induction t generalizing s with
  | nil => trivial
  | cons a t ih =>
    intro s' _
    exact ⟨h a (by simp) s, ih fun b hb => h b (by simp [hb])⟩

theorem Along.and {C D : σ → ι → Prop} (hC : Along step C s t) (hD : Along step D s t) :
    Along step (fun s a => C s a ∧ D s a) s t := by
  induction t generalizing s with
  | nil => trivial
  | cons a t ih =>
    intro s' hs
    exact ⟨⟨(hC s' hs).1, (hD s' hs).1⟩, ih (hC s' hs).2 (hD s' hs).2⟩

/-- What a condition says of the inputs alone holds of those of a run. -/
theorem Along.inputs {C : σ → ι → Prop} {Q : ι → Prop} (hC : Along step C s t)
    (h : ∀ s a, C s a → Q a) (hrun : run step s t = some s') : ∀ a ∈ t, Q a := by
  induction t generalizing s with
  | nil => simp
  | cons a t ih =>
    rcases run_cons_eq_some.mp hrun with ⟨s₁, hs, hrest⟩
    rcases hC s₁ hs with ⟨hc, hC'⟩
    simpa using ⟨h s a hc, ih hC' hrest⟩

theorem Throughout.mono {P Q : σ → Prop} (h : ∀ s, P s → Q s) (hP : Throughout step P s t) :
    Throughout step Q s t := by
  induction t generalizing s with
  | nil => exact h s hP
  | cons a t ih => exact ⟨h s hP.1, fun s' hs => ih (hP.2 s' hs)⟩

theorem Throughout.and {P Q : σ → Prop} (hP : Throughout step P s t)
    (hQ : Throughout step Q s t) : Throughout step (fun s => P s ∧ Q s) s t := by
  induction t generalizing s with
  | nil => exact ⟨hP, hQ⟩
  | cons a t ih => exact ⟨⟨hP.1, hQ.1⟩, fun s' hs => ih (hP.2 s' hs) (hQ.2 s' hs)⟩

theorem Throughout.head {P : σ → Prop} (hP : Throughout step P s t) : P s := by
  cases t with
  | nil => exact hP
  | cons a t => exact hP.1

/-- What holds in every state of a run holds before each of its steps. -/
theorem Throughout.along {P : σ → Prop} {C : σ → ι → Prop} (hP : Throughout step P s t)
    (h : ∀ s a, P s → C s a) : Along step C s t := by
  induction t generalizing s with
  | nil => trivial
  | cons a t ih =>
    intro s' hs
    exact ⟨h s a hP.1, ih (hP.2 s' hs)⟩

theorem Throughout.of_run {P : σ → Prop} (hP : Throughout step P s t)
    (hrun : run step s t = some s') : P s' := by
  induction t generalizing s with
  | nil =>
    rw [run_nil, Option.some.injEq] at hrun
    exact hrun ▸ hP
  | cons a t ih =>
    rcases run_cons_eq_some.mp hrun with ⟨s₁, hs, hrest⟩
    exact ih (hP.2 s₁ hs) hrest

/-- The invariant rule, for runs whose steps meet a condition. -/
theorem run_invariant {P : σ → Prop} {C : σ → ι → Prop}
    (hstep : ∀ s a s', step s a = some s' → C s a → P s → P s')
    (h₀ : P s) (hC : Along step C s t) : Throughout step P s t := by
  induction t generalizing s with
  | nil => exact h₀
  | cons a t ih =>
    refine ⟨h₀, ?_⟩
    intro s' hs
    rcases hC s' hs with ⟨hc, hrest⟩
    exact ih (hstep s a s' hs hc h₀) hrest

/-- When a step keeps `P` and meets `R` exactly when it meets `C`, a run stays in `P` with all its
steps meeting `R` exactly when all its steps meet `C`. The rule is relative to an invariant `I` that
every step keeps. -/
theorem throughout_and_along_iff {I P : σ → Prop} {R C : σ → ι → Prop}
    (hinv : ∀ s a s', step s a = some s' → I s → I s')
    (hiff : ∀ s a s', step s a = some s' → I s → P s → (P s' ∧ R s a ↔ C s a))
    (hI : I s) (hP : P s) :
    Throughout step P s t ∧ Along step R s t ↔ Along step C s t := by
  induction t generalizing s with
  | nil => exact ⟨fun _ => trivial, fun _ => ⟨hP, trivial⟩⟩
  | cons a t ih =>
    constructor
    · rintro ⟨⟨-, h⟩, hR⟩ s' hs
      -- the state after the step is itself visited, so it satisfies `P`
      have hP' : P s' := by
        have hrest := h s' hs
        cases t with
        | nil => exact hrest
        | cons b t => exact hrest.1
      rcases hR s' hs with ⟨hr, hR'⟩
      exact ⟨(hiff s a s' hs hI hP).mp ⟨hP', hr⟩,
        (ih (hinv s a s' hs hI) hP').mp ⟨h s' hs, hR'⟩⟩
    · intro h
      have hrest : ∀ s', step s a = some s' →
          R s a ∧ Throughout step P s' t ∧ Along step R s' t := by
        intro s' hs
        rcases h s' hs with ⟨hc, hC⟩
        rcases (hiff s a s' hs hI hP).mpr hc with ⟨hP', hr⟩
        exact ⟨hr, (ih (hinv s a s' hs hI) hP').mpr hC⟩
      exact ⟨⟨hP, fun s' hs => (hrest s' hs).2.1⟩,
        fun s' hs => ⟨(hrest s' hs).1, (hrest s' hs).2.2⟩⟩

/-- When a step keeps `P` exactly when it meets `C`, a run stays in `P` exactly when all its
steps meet `C`. -/
theorem throughout_iff_along {I P : σ → Prop} {C : σ → ι → Prop}
    (hinv : ∀ s a s', step s a = some s' → I s → I s')
    (hiff : ∀ s a s', step s a = some s' → I s → P s → (P s' ↔ C s a))
    (hI : I s) (hP : P s) : Throughout step P s t ↔ Along step C s t := by
  rw [← throughout_and_along_iff (R := fun _ _ => True) hinv ?_ hI hP]
  · simp [along_of_forall]
  · simpa using hiff

/-- While `P` does not hold some step comes closer to it: then a run leads to it. -/
theorem exists_run {I P : σ → Prop} {C : σ → ι → Prop} {v : σ → ℕ}
    (h : ∀ s, I s → ¬ P s → ∃ a s', step s a = some s' ∧ C s a ∧ I s' ∧ v s' < v s) (hs : I s) :
    ∃ t s', run step s t = some s' ∧ t.length ≤ v s ∧ Along step C s t ∧ I s' ∧ P s' := by
  induction hv : v s using Nat.strongRecOn generalizing s with
  | _ n ih =>
    by_cases hP : P s
    · exact ⟨[], s, rfl, Nat.zero_le _, trivial, hs, hP⟩
    · rcases h s hs hP with ⟨a, s₁, hstep, hc, hI, hlt⟩
      rcases ih (v s₁) (hv ▸ hlt) hI rfl with ⟨t, s', hrun, hlen, hC, hI', hP'⟩
      refine ⟨a :: t, s', run_cons_eq_some.mpr ⟨s₁, hstep, hrun⟩, ?_, ?_, hI', hP'⟩
      · rw [List.length_cons]
        omega
      · intro s₂ hs₂
        rw [hstep, Option.some.injEq] at hs₂
        exact ⟨hc, hs₂ ▸ hC⟩

/-- The simulation rule: a relation kept by every step that meets `C` holds between the end
of a run and the end of its replay. -/
theorem run_simulates {R : σ → τ → Prop} {C : σ → ι → Prop} {spec : σ → ι → τ → τ} {x : τ}
    (hstep : ∀ s a s' x, step s a = some s' → C s a → R s x → R s' (spec s a x))
    (h₀ : R s x) (hC : Along step C s t) (hrun : run step s t = some s') :
    R s' (replay step spec s t x) := by
  induction t generalizing s x with
  | nil =>
    rw [run_nil, Option.some.injEq] at hrun
    exact hrun ▸ h₀
  | cons a t ih =>
    rcases run_cons_eq_some.mp hrun with ⟨s₁, hs, hrest⟩
    rcases hC s₁ hs with ⟨hc, hC'⟩
    rw [replay, hs]
    exact ih (hstep s a s₁ x hs hc h₀) hC' hrest

/-- A replay goes on from where the run has come to. -/
theorem replay_append {spec : σ → ι → τ → τ} {u : List ι} {x : τ} (hrun : run step s t = some s') :
    replay step spec s (t ++ u) x = replay step spec s' u (replay step spec s t x) := by
  induction t generalizing s x with
  | nil =>
    rw [run_nil, Option.some.injEq] at hrun
    rw [hrun]
    rfl
  | cons a t ih =>
    rcases run_cons_eq_some.mp hrun with ⟨s₁, hs, hrest⟩
    simp only [List.cons_append, replay, hs]
    exact ih hrest

/-- Where a step leaves what is seen of the system as it is, or brings it up to date with the
replay, it is in the end as it was in the beginning or up to date with some point of the run. -/
theorem run_lags {β : Type*} {R : σ → τ → Prop} {C : σ → ι → Prop} {spec : σ → ι → τ → τ}
    {f : σ → β} {g : τ → β} {x : τ}
    (hstep : ∀ s a s' x, step s a = some s' → C s a → R s x →
      R s' (spec s a x) ∧ (f s' = f s ∨ f s' = g (spec s a x)))
    (h₀ : R s x) (hC : Along step C s t) (hrun : run step s t = some s') :
    f s' = f s ∨ ∃ u v, t = u ++ v ∧ f s' = g (replay step spec s u x) := by
  induction t generalizing s x with
  | nil =>
    rw [run_nil, Option.some.injEq] at hrun
    exact .inl (hrun ▸ rfl)
  | cons a t ih =>
    rcases run_cons_eq_some.mp hrun with ⟨s₁, hs, hrest⟩
    rcases hC s₁ hs with ⟨hc, hC'⟩
    rcases hstep s a s₁ x hs hc h₀ with ⟨h₁, hseen⟩
    have hreplay : ∀ u, replay step spec s (a :: u) x = replay step spec s₁ u (spec s a x) := by
      intro u
      rw [replay, hs]
    rcases ih h₁ hC' hrest with hold | ⟨u, v, rfl, hu⟩
    · -- nothing after this step was seen
      rcases hseen with hsame | hnew
      · exact .inl (hold.trans hsame)
      · exact .inr ⟨[a], t, rfl, by rw [hreplay, hold, hnew]; rfl⟩
    · exact .inr ⟨a :: u, v, rfl, by rw [hreplay, hu]⟩

/-- A run that is evaluated together with what is wanted of its last state. -/
theorem exists_run_to {P : σ → Prop} [DecidablePred P]
    (h : (run step s t).map (fun s' => decide (P s')) = some true) :
    ∃ s', run step s t = some s' ∧ P s' := by
  rcases Option.map_eq_some_iff.mp h with ⟨s', hs, hP⟩
  exact ⟨s', hs, of_decide_eq_true hP⟩

/-- The same for two runs, one after the other. -/
theorem exists_runs {P : σ → σ → Prop} [∀ s s', Decidable (P s s')] {u : List ι}
    (h : ((run step s t).bind fun s₁ => (run step s₁ u).map fun s₂ => decide (P s₁ s₂)) =
      some true) :
    ∃ s₁ s₂, run step s t = some s₁ ∧ run step s₁ u = some s₂ ∧ P s₁ s₂ := by
  rcases Option.bind_eq_some_iff.mp h with ⟨s₁, hs₁, hrest⟩
  rcases exists_run_to hrest with ⟨s₂, hs₂, hP⟩
  exact ⟨s₁, s₂, hs₁, hs₂, hP⟩

/-! ## Systems that answer -/

section Answers

variable {α : Type*} {f : σ → ι → Option (α × σ)} {R : τ → ι → α → τ → Prop}

/-- The answers to the inputs `t` and the state after them. -/
def answers (f : σ → ι → Option (α × σ)) : σ → List ι → Option (List α × σ)
  | s, [] => some ([], s)
  | s, a :: t => do
    let (o, s₁) ← f s a
    let (os, s') ← answers f s₁ t
    some (o :: os, s')

/-- The inputs are answered one after the other as `R` allows. -/
inductive Answered (R : τ → ι → α → τ → Prop) : τ → List ι → List α → τ → Prop
  | nil (x : τ) : Answered R x [] [] x
  | cons {x y z : τ} {a : ι} {o : α} {t : List ι} {os : List α} (head : R x a o y)
      (tail : Answered R y t os z) : Answered R x (a :: t) (o :: os) z

/-- A system that leaves nothing open about an input leaves nothing open about a run. -/
theorem Answered.unique {x z z' : τ} {os os' : List α}
    (hR : ∀ x a o y o' y', R x a o y → R x a o' y' → o = o' ∧ y = y') (h : Answered R x t os z)
    (h' : Answered R x t os' z') : os = os' ∧ z = z' := by
  induction h generalizing os' with
  | nil =>
    cases h'
    exact ⟨rfl, rfl⟩
  | cons head tail ih =>
    cases h' with
    | cons head' tail' =>
      rcases hR _ _ _ _ _ _ head head' with ⟨rfl, rfl⟩
      rcases ih tail' with ⟨rfl, hz⟩
      exact ⟨rfl, hz⟩

/-- **The refinement rule**: when every input of a kind is answered as `R` allows and an invariant
is kept, so are all runs of such inputs. -/
theorem answers_refine {I : σ → Prop} {C : ι → Prop} (abs : σ → τ)
    (hstep : ∀ s a, I s → C a → ∃ o s', f s a = some (o, s') ∧ I s' ∧ R (abs s) a o (abs s'))
    (hI : I s) (hC : ∀ a ∈ t, C a) :
    ∃ os s', answers f s t = some (os, s') ∧ I s' ∧ Answered R (abs s) t os (abs s') := by
  induction t generalizing s with
  | nil => exact ⟨[], s, rfl, hI, .nil _⟩
  | cons a t ih =>
    rcases hstep s a hI (hC a List.mem_cons_self) with ⟨o, s₁, hs, hI₁, hR⟩
    rcases ih hI₁ fun b hb => hC b (List.mem_cons_of_mem a hb) with ⟨os, s', hrun, hI', hall⟩
    refine ⟨o :: os, s', ?_, hI', .cons hR hall⟩
    simp [answers, hs, hrun]

end Answers

end Run
