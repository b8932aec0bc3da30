import Mathlib.Data.Nat.Bitwise
import Mathlib.Tactic.Lemma

/-!
# Chains of checks

A program that checks its input is a chain of steps in `Except`: the first one that fails decides.
The lemmas here say what follows when all of them pass, so that the order of the checks drops out,
and `Errs` which errors are possible when one does not.

What was asked for is often kept as flags, one bit each, or-ed together as the input is read.
`and_ne_zero` lemmas turn a test of such a number into a statement about the input.
-/

namespace Checks

universe u

variable {ε ι : Type*} {α β : Type u}

@[simp] theorem ok_bind (a : α) (f : α → Except ε β) : (.ok a >>= f) = f a := rfl

@[simp] theorem error_bind (e : ε) (f : α → Except ε β) : (.error e >>= f) = .error e := rfl

/-- A chain succeeds exactly when each step does. -/
@[simp] theorem bind_eq_ok {x : Except ε α} {f : α → Except ε β} {b : β} :
    (x >>= f) = .ok b ↔ ∃ a, x = .ok a ∧ f a = .ok b := by
  cases x <;> simp [bind, Except.bind]

@[simp] theorem pure_eq_ok {a b : α} : (pure a : Except ε α) = .ok b ↔ a = b := by
  simp [pure, Except.pure]

/-- A check that fails when `p` holds. -/
@[simp] theorem ite_error_eq_ok {p : Prop} [Decidable p] {e : ε} {x : Except ε α} {a : α} :
    (if p then .error e else x) = .ok a ↔ ¬ p ∧ x = .ok a := by
  by_cases hp : p <;> simp [hp]

/-- A fold whose step checks the next item and stores it. -/
theorem foldlM_eq_ok_iff {f : α → ι → Except ε α} {P : ι → Prop} {g : α → ι → α} {l : List ι}
    {s s' : α} (h : ∀ s i s', f s i = .ok s' ↔ P i ∧ s' = g s i) :
    l.foldlM f s = .ok s' ↔ (∀ i ∈ l, P i) ∧ s' = l.foldl g s := by
  induction l generalizing s with
  | nil =>
    rw [List.foldlM_nil, pure_eq_ok, eq_comm (a := s)]
    simp
  | cons i l ih =>
    rw [List.foldlM_cons, bind_eq_ok]
    constructor
    · rintro ⟨s₁, hs₁, hrest⟩
      rw [h] at hs₁
      rw [ih, hs₁.2] at hrest
      exact ⟨List.forall_mem_cons.mpr ⟨hs₁.1, hrest.1⟩, hrest.2⟩
    · rintro ⟨hall, hs'⟩
      rw [List.forall_mem_cons] at hall
      exact ⟨g s i, (h _ _ _).mpr ⟨hall.1, rfl⟩, ih.mpr ⟨hall.2, hs'⟩⟩

/-- A fold that fails stops at the first item that is refused. -/
theorem foldlM_eq_error {f : α → ι → Except ε α} {l : List ι} {s : α} {e : ε}
    (h : l.foldlM f s = .error e) :
    ∃ front i rest s', l = front ++ i :: rest ∧ front.foldlM f s = .ok s' ∧ f s' i = .error e := by
  induction l generalizing s with
  | nil => cases h
  | cons i l ih =>
    rw [List.foldlM_cons] at h
    cases hi : f s i with
    | error e' =>
      rw [hi, error_bind, Except.error.injEq] at h
      exact ⟨[], i, l, s, rfl, rfl, by rw [hi, h]⟩
    | ok s₁ =>
      rw [hi, ok_bind] at h
      rcases ih h with ⟨front, j, rest, s', rfl, hfront, hj⟩
      exact ⟨i :: front, j, rest, s', rfl, by rw [List.foldlM_cons, hi, ok_bind, hfront], hj⟩

/-- Every error of `x` is one of `Q`. -/
def Errs (Q : ε → Prop) (x : Except ε α) : Prop := ∀ e, x = .error e → Q e

section Errs

variable {Q : ε → Prop}

theorem errs_ok (a : α) : Errs Q (.ok a : Except ε α) := by
  intro e h
  cases h

theorem errs_error {e : ε} (h : Q e) : Errs Q (.error e : Except ε α) := by
  intro e' h'
  cases h'
  exact h

theorem Errs.bind {x : Except ε α} {f : α → Except ε β} (hx : Errs Q x)
    (hf : ∀ a, x = .ok a → Errs Q (f a)) : Errs Q (x >>= f) := by
  cases x with
  | error e => exact errs_error (hx e rfl)
  | ok a => exact hf a rfl

end Errs

/-! ## Flags -/

theorem or_and_ne_zero {x y mask : ℕ} :
    (x ||| y) &&& mask ≠ 0 ↔ x &&& mask ≠ 0 ∨ y &&& mask ≠ 0 := by
  rw [Nat.and_or_distrib_right, ne_eq, Nat.or_eq_zero_iff]
  tauto

/-- Flags that are collected from a list. -/
theorem foldl_or_and_ne_zero {f : ι → ℕ} {l : List ι} {x mask : ℕ} :
    l.foldl (fun x i => x ||| f i) x &&& mask ≠ 0 ↔
      x &&& mask ≠ 0 ∨ ∃ i ∈ l, f i &&& mask ≠ 0 := by
  induction l generalizing x with
  | nil => simp
  | cons i l ih =>
    rw [List.foldl_cons, ih, or_and_ne_zero, or_assoc]
    simp only [List.mem_cons, exists_eq_or_imp]

/-- A flag is one bit. -/
theorem and_two_pow_ne_zero {x i : ℕ} : x &&& 2 ^ i ≠ 0 ↔ x.testBit i = true := by
  rw [Nat.and_two_pow]
  cases x.testBit i <;> simp

/-- Both of two flags are there. -/
theorem and_or_two_pow {x i j : ℕ} :
    x &&& (2 ^ i ||| 2 ^ j) = 2 ^ i ||| 2 ^ j ↔ x &&& 2 ^ i ≠ 0 ∧ x &&& 2 ^ j ≠ 0 := by
  rw [and_two_pow_ne_zero, and_two_pow_ne_zero]
  constructor
  · intro h
    have hbit : ∀ k, k = i ∨ k = j → x.testBit k = true := by
      intro k hk
      have hk' := congrArg (fun n => n.testBit k) h
      simp only [Nat.testBit_and, Nat.testBit_or, Nat.testBit_two_pow] at hk'
      rcases hk with rfl | rfl <;> simpa using hk'
    exact ⟨hbit i (.inl rfl), hbit j (.inr rfl)⟩
  · rintro ⟨hi, hj⟩
    apply Nat.eq_of_testBit_eq
    intro k
    simp only [Nat.testBit_and, Nat.testBit_or, Nat.testBit_two_pow]
    by_cases hki : i = k
    · subst hki
      simp [hi]
    · by_cases hkj : j = k
      · subst hkj
        simp [hj]
      · simp [hki, hkj]

end Checks
