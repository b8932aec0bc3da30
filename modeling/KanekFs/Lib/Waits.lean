import KanekFs.Lib.Threads
import Mathlib.Logic.Relation
import Mathlib.Order.Nat

/-!
# Threads that wait for one another

A thread of a system waits for what another thread has: a mutex, or the end of that thread.

* `Locks` says what the statement on top of a stack has to wait for, and which thread has it. The
  locks have levels.
* `Locks.Ordered` is the discipline of a state: whoever waits for a lock has only locks of a lower
  level, and a thread that is waited for can take a step or waits itself.
* `Locks.Ordered.released` is the rule: from every thread that waits, a chain of waits leads to
  one that can take a step. `Locks.Ordered.acyclic` says that the chain is no circle.
* `System.steps_le` bounds how often one thread steps while it is in a section of its code.
-/

namespace Threads

open Run Relation

variable {T M F I L : Type*} [DecidableEq T]

/-- Some input lets the thread take a step. -/
def System.CanStep (S : System T M F I) (s : State T M F) (t : T) : Prop :=
  ∃ i s', S.step s (t, i) = some s'

/-! ## Locks -/

/-- What the statements wait for. -/
structure Locks (T M F L : Type*) where
  wants : F → Option L
  holder : M → L → Option T
  level : L → ℕ

variable {S : System T M F I} {K : Locks T M F L} {s s' : State T M F} {t t' : T}

/-- The thread `t` has to wait for `t'`. -/
def Locks.Waits (K : Locks T M F L) (s : State T M F) (t t' : T) : Prop :=
  ∃ f k l, s.stack t = f :: k ∧ K.wants f = some l ∧ K.holder s.mem l = some t'

/-- The discipline of the locks. -/
structure Locks.Ordered (K : Locks T M F L) (S : System T M F I) (top : ℕ) (s : State T M F) :
    Prop where
  bounded : ∀ l, K.level l ≤ top
  ascending : ∀ {t f k l l'}, s.stack t = f :: k → K.wants f = some l' →
    K.holder s.mem l = some t → K.level l < K.level l'
  moves : ∀ {t t'}, K.Waits s t t' → S.CanStep s t' ∨ ∃ t'', K.Waits s t' t''

/-- By induction on the levels above the lock that is waited for: a chain of waits ends with a
thread that can take a step. -/
theorem Locks.Ordered.released {top : ℕ} (h : K.Ordered S top s) (hwait : K.Waits s t t') :
    ∃ t'', TransGen (K.Waits s) t t'' ∧ S.CanStep s t'' := by
  rcases hwait with ⟨f, k, l, hstack, hwants, hholder⟩
  induction hn : top - K.level l using Nat.strongRecOn generalizing t t' f k l with
  | _ n ih =>
    have hwait : K.Waits s t t' := ⟨f, k, l, hstack, hwants, hholder⟩
    rcases h.moves hwait with hstep | ⟨t'', f', k', l', hstack', hwants', hholder'⟩
    · exact ⟨t', .single hwait, hstep⟩
    · -- the lock that `t'` waits for is higher than the one it has
      have hlt := h.ascending hstack' hwants' hholder
      have hle := h.bounded l'
      rcases ih (top - K.level l') (by omega) f' k' l' hstack' hwants' hholder' rfl with
        ⟨u, hchain, hstep⟩
      exact ⟨u, .head hwait hchain, hstep⟩

/-- Along a chain the levels rise, so it does not come back. -/
theorem Locks.Ordered.acyclic {top : ℕ} (h : K.Ordered S top s) : ¬ TransGen (K.Waits s) t t := by
  -- the first lock of a chain is not above the last one
  have hrise : ∀ {t t'}, TransGen (K.Waits s) t t' → ∃ f k l l', s.stack t = f :: k ∧
      K.wants f = some l ∧ K.holder s.mem l' = some t' ∧ K.level l ≤ K.level l' := by
    intro t t' hchain
    induction hchain with
    | single hwait =>
      rcases hwait with ⟨f, k, l, hstack, hwants, hholder⟩
      exact ⟨f, k, l, l, hstack, hwants, hholder, le_rfl⟩
    | tail _ hwait ih =>
      rcases ih with ⟨f, k, l, l', hstack, hwants, hholder, hle⟩
      rcases hwait with ⟨f', k', l'', hstack', hwants', hholder'⟩
      exact ⟨f, k, l, l'', hstack, hwants, hholder',
        hle.trans (h.ascending hstack' hwants' hholder).le⟩
  intro hcircle
  rcases hrise hcircle with ⟨f, k, l, l', hstack, hwants, hholder, hle⟩
  exact absurd (h.ascending hstack hwants hholder) (not_lt.mpr hle)

/-! ## Sections -/

/-- While each of its steps makes `v` smaller and no step of another thread makes it larger, a
thread takes at most `v` steps. -/
theorem System.steps_le {G : State T M F → Prop} {v : State T M F → ℕ} {as : List (T × I)}
    (hown : ∀ {s a s'}, S.step s a = some s' → G s → G s' → a.1 = t → v s' < v s)
    (hother : ∀ {s a s'}, S.step s a = some s' → G s → G s' → a.1 ≠ t → v s' ≤ v s)
    (hG : Throughout S.step G s as) (hrun : run S.step s as = some s') :
    (as.filter fun a => a.1 = t).length + v s' ≤ v s := by
  induction as generalizing s with
  | nil =>
    rw [run_nil, Option.some.injEq] at hrun
    simp [hrun]
  | cons a as ih =>
    rcases run_cons_eq_some.mp hrun with ⟨s₁, hs, hrest⟩
    have hG₁ := hG.2 s₁ hs
    have hle := ih hG₁ hrest
    by_cases ha : a.1 = t
    · have hlt := hown hs hG.1 hG₁.head ha
      simp only [List.filter_cons, ha, decide_true, if_true, List.length_cons]
      omega
    · have hle' := hother hs hG.1 hG₁.head ha
      simp only [List.filter_cons, ha, decide_false, Bool.false_eq_true, if_false]
      omega

end Threads
