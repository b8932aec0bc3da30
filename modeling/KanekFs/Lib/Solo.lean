import KanekFs.Lib.Threads

/-!
# A thread that runs alone

What the calls on the stack of one thread do when no other thread takes a step in between.

* `Solo` is the big-step relation: the calls run until the stack satisfies `stop` for the first
  time. `Returns` is the case of calls that run to their end.
* `Solo.call` is the rule for a call that others wait for: it returns, and then they go on.
* `solo_iff_run` says what it has to do with the runs of the whole system.
-/

namespace Threads

open Run

variable {T M F I : Type*}

/-- The thread `t` runs alone from the memory `m` and the stack `k` until its stack satisfies
`stop`; then the memory is the last one. Each statement gets an input that it can be `given`. -/
inductive Solo (S : System T M F I) (t : T) (given : F → I → Prop) (stop : List F → Prop) :
    M → List F → M → Prop
  | done {m k} (hk : stop k) : Solo S t given stop m k m
  | step {m f k i m₁ fs m'} (hk : ¬ stop (f :: k)) (hi : given f i)
    (hexec : S.exec m t f i = some (m₁, fs)) (hrest : Solo S t given stop m₁ (fs ++ k) m') :
    Solo S t given stop m (f :: k) m'

/-- The calls run to their end. -/
abbrev Returns (S : System T M F I) (t : T) (given : F → I → Prop) : M → List F → M → Prop :=
  Solo S t given (· = [])

variable {S : System T M F I} {t : T} {given : F → I → Prop} {stop : List F → Prop} {m m' : M}
  {f : F} {k l : List F}

/-- The first statement. -/
theorem Solo.cases_step (h : Solo S t given stop m (f :: k) m') (hk : ¬ stop (f :: k)) :
    ∃ i m₁ fs, given f i ∧ S.exec m t f i = some (m₁, fs) ∧
      Solo S t given stop m₁ (fs ++ k) m' := by
  cases h with
  | done hstop => exact absurd hstop hk
  | step _ hi hexec hrest => exact ⟨_, _, _, hi, hexec, hrest⟩

theorem Solo.eq_of_stop (h : Solo S t given stop m k m') (hk : stop k) : m' = m := by
  cases h with
  | done _ => rfl
  | step hnot => exact absurd hk hnot

/-- What the statements keep. -/
def Preserves (S : System T M F I) (t : T) (P : M → List F → Prop) : Prop :=
  ∀ {m f k i m' fs}, S.exec m t f i = some (m', fs) → P m (f :: k) → P m' (fs ++ k)

/-- The rule for calls: what is on top of `l` returns before anything of `l` is executed, and
leaves behind what the statements keep. -/
theorem Solo.call {P : M → List F → Prop} (hP : Preserves S t P)
    (h : Solo S t given stop m (k ++ l) m') (hstop : ∀ k', stop (k' ++ l) → k' = [])
    (hm : P m (k ++ l)) :
    ∃ m₁, Returns S t given m k m₁ ∧ P m₁ l ∧ Solo S t given stop m₁ l m' := by
  generalize hkl : k ++ l = kl at h hm
  induction h generalizing k with
  | done hk =>
    subst hkl
    obtain rfl := hstop k hk
    exact ⟨_, .done rfl, hm, .done hk⟩
  | @step m f k₀ i m₁ fs m' hk hi hexec hrest ih =>
    cases k with
    | nil =>
      obtain rfl : l = f :: k₀ := hkl
      exact ⟨m, .done rfl, hm, .step hk hi hexec hrest⟩
    | cons g k =>
      rcases List.cons.inj hkl with ⟨rfl, rfl⟩
      have hm₁ := hP hexec hm
      rcases ih (List.append_assoc ..) hm₁ with ⟨m₂, hcall, hl, hgo⟩
      exact ⟨m₂, .step (by simp) hi hexec hcall, hl, hgo⟩

/-- Where nothing waits, the statements of a call are those of its frames. -/
theorem Returns.cases_step (h : Returns S t given m (f :: k) m') :
    ∃ i m₁ fs, given f i ∧ S.exec m t f i = some (m₁, fs) ∧ Returns S t given m₁ (fs ++ k) m' :=
  Solo.cases_step h (by simp)

theorem Returns.eq_of_nil (h : Returns S t given m [] m') : m' = m := Solo.eq_of_stop h rfl

theorem Returns.call {P : M → List F → Prop} (hP : Preserves S t P)
    (h : Returns S t given m (k ++ l) m') (hm : P m (k ++ l)) :
    ∃ m₁, Returns S t given m k m₁ ∧ P m₁ l ∧ Returns S t given m₁ l m' :=
  Solo.call hP h (fun _ hk => (List.append_eq_nil_iff.mp hk).1) hm

/-! ## Runs -/

section Runs

variable [DecidableEq T] {s : State T M F}

/-- A run of `t` alone, as a run of the system. An idle thread would start a call, so it has to
stop there. -/
theorem solo_iff_run (hnil : stop []) :
    Solo S t given stop s.mem (s.stack t) m' ↔
      ∃ (is : List I) (s' : State T M F),
        run S.step s (is.map fun i => (t, i)) = some s' ∧ s'.mem = m' ∧ stop (s'.stack t) ∧
        Along S.step (fun s a => ¬ stop (s.stack t) ∧ ∀ f ∈ (s.stack t).head?, given f a.2) s
          (is.map fun i => (t, i)) := by
  constructor
  · intro h
    generalize hm : s.mem = m at h
    generalize hk : s.stack t = k at h
    induction h generalizing s with
    | done hstop => exact ⟨[], s, rfl, hm, hk ▸ hstop, trivial⟩
    | @step m f k i m₁ fs m' hnot hi hexec _ ih =>
      have hstep : S.step s (t, i) = some ⟨m₁, Function.update s.stack t (fs ++ k)⟩ := by
        simp [System.step, hk, hm, hexec]
      rcases ih (s := ⟨m₁, Function.update s.stack t (fs ++ k)⟩) rfl (by simp) with
        ⟨is, s', hrun, hmem, hstop, halong⟩
      refine ⟨i :: is, s', run_cons_eq_some.mpr ⟨_, hstep, hrun⟩, hmem, hstop, ?_⟩
      intro s₁ hs₁
      rw [hstep, Option.some.injEq] at hs₁
      refine ⟨?_, hs₁ ▸ halong⟩
      change ¬ stop (s.stack t) ∧ ∀ f ∈ (s.stack t).head?, given f i
      rw [hk]
      exact ⟨hnot, fun _ hf => Option.some.inj hf ▸ hi⟩
  · rintro ⟨is, s', hrun, rfl, hstop, halong⟩
    induction is generalizing s with
    | nil =>
      obtain rfl : s = s' := by simpa using hrun
      exact .done hstop
    | cons i is ih =>
      rcases run_cons_eq_some.mp hrun with ⟨s₁, hs, hrest⟩
      rcases halong s₁ hs with ⟨⟨hnot, hgiven⟩, halong'⟩
      have hsolo := ih hrest halong'
      rcases System.step_cases hs with ⟨fs, hidle, -, -⟩ | ⟨f, k, m', fs, htop, hexec, rfl⟩
      · exact absurd (hidle ▸ hnil) hnot
      · rw [htop] at hnot hgiven ⊢
        exact .step hnot (hgiven f rfl) hexec (by simpa using hsolo)

end Runs

end Threads
