import Mathlib.Data.BitVec
import Mathlib.Data.Fintype.EquivFin
import Mathlib.Data.List.Range
import Mathlib.Tactic.Lemma

/-!
# Mixing

What a hash function is put together from: operations on words that lose nothing, and loops that
take their input a few bytes at a time.

* `rotateLeft_injective` and `xorShift_injective` are operations that lose nothing; a product with
  an odd word is another one.
* A step `Mixes` when neither its state nor its input can change alone without the result changing.
  `foldl_ne`: then a loop does not miss a change of one input.
* `eat` is the loop of a program that moves a pointer through a buffer, and `eat_eq` the fold it is.
-/

namespace Mixing

open Function

/-! ## Words -/

section Words

variable {w r s : ℕ}

theorem rotateLeft_injective (hr : r < w) : Injective fun x : BitVec w => x.rotateLeft r := by
  intro x y h
  have hbit : ∀ i, (x.rotateLeft r).getLsbD i = (y.rotateLeft r).getLsbD i :=
    fun i => congrArg (fun z => z.getLsbD i) h
  simp only [BitVec.getLsbD_rotateLeft, Nat.mod_eq_of_lt hr] at hbit
  refine BitVec.eq_of_getLsbD_eq fun i hi => ?_
  -- bit `i` is the bit `i + r` of the result, or comes in again at the bottom
  by_cases hlt : i + r < w
  · have hhigh : ¬ i + r < r := by omega
    simpa [hlt, hhigh] using hbit (i + r)
  · have hlow : i + r - w < r := by omega
    have hback : w - r + (i + r - w) = i := by omega
    simpa [hlow, hback] using hbit (i + r - w)

theorem xorShift_injective (hs : 0 < s) : Injective fun x : BitVec w => x ^^^ (x >>> s) := by
  intro x y h
  have hbit : ∀ i, (x.getLsbD i ^^ x.getLsbD (s + i)) = (y.getLsbD i ^^ y.getLsbD (s + i)) := by
    intro i
    have hi := congrArg (fun z => z.getLsbD i) h
    simpa only [BitVec.getLsbD_xor, BitVec.getLsbD_ushiftRight] using hi
  refine BitVec.eq_of_getLsbD_eq fun i _ => ?_
  -- from the top bit down: the bit `s + i` is known before the bit `i`
  generalize hn : w - i = n
  induction n using Nat.strong_induction_on generalizing i with
  | _ n ih =>
    have hnext : x.getLsbD (s + i) = y.getLsbD (s + i) := by
      by_cases hlt : s + i < w
      · exact ih (w - (s + i)) (by omega) (s + i) hlt rfl
      · rw [BitVec.getLsbD_of_ge _ _ (by omega), BitVec.getLsbD_of_ge _ _ (by omega)]
    have hi := hbit i
    rw [hnext] at hi
    exact Bool.xor_left_inj.mp hi

/-- There are finitely many words. -/
theorem bijective_of_injective {f : BitVec w → BitVec w} (hf : Injective f) : Bijective f := by
  have : Finite (BitVec w) := Finite.of_injective BitVec.toFin BitVec.toFin_injective
  exact Finite.injective_iff_bijective.mp hf

end Words

/-! ## Steps -/

variable {σ ι α : Type*}

/-- The result of a step tells the state when the input is known, and the input when the state
is. -/
structure Mixes (f : σ → ι → σ) : Prop where
  state : ∀ a, Injective fun s => f s a
  input : ∀ s, Injective (f s)

section Steps

variable {f : σ → ι → σ} {w : ℕ}

theorem mixes_add : Mixes fun s x : BitVec w => s + x where
  state := add_left_injective
  input := add_right_injective

theorem mixes_xor : Mixes fun s x : BitVec w => s ^^^ x where
  state x := fun _ _ h => (BitVec.xor_left_inj x).mp h
  input s := fun _ _ h => (BitVec.xor_right_inj s).mp h

/-- Another way to write the input. -/
theorem Mixes.of_input {κ : Type*} {φ : κ → ι} (hf : Mixes f) (hφ : Injective φ) :
    Mixes fun s a => f s (φ a) where
  state a := hf.state (φ a)
  input s := (hf.input s).comp hφ

/-- What is done after a step. -/
theorem Mixes.andThen {g : σ → σ} (hf : Mixes f) (hg : Injective g) :
    Mixes fun s a => g (f s a) where
  state a := hg.comp (hf.state a)
  input s := hg.comp (hf.input s)

end Steps

section Folds

variable {f : σ → ι → σ} {g g' : ℕ → ι} {s s' : σ} {k m : ℕ}

/-- A fold over inputs that are the same is the same. -/
theorem foldl_range_congr (h : ∀ j < m, g j = g' j) :
    (List.range m).foldl (fun s j => f s (g j)) s =
      (List.range m).foldl (fun s j => f s (g' j)) s := by
  induction m with
  | zero => rfl
  | succ m ih =>
    simp only [List.range_succ, List.foldl_append, List.foldl_cons, List.foldl_nil]
    rw [ih fun j hj => h j (by omega), h m (by omega)]

theorem Mixes.foldl_injective (hf : Mixes f) (m : ℕ) :
    Injective fun s => (List.range m).foldl (fun s j => f s (g j)) s := by
  induction m with
  | zero => exact injective_id
  | succ m ih =>
    simp only [List.range_succ, List.foldl_append, List.foldl_cons, List.foldl_nil]
    exact (hf.state (g m)).comp ih

/-- A change of one input changes the result. -/
theorem Mixes.foldl_ne (hf : Mixes f) (hk : k < m) (hne : g k ≠ g' k)
    (h : ∀ j < m, j ≠ k → g j = g' j) :
    (List.range m).foldl (fun s j => f s (g j)) s ≠
      (List.range m).foldl (fun s j => f s (g' j)) s := by
  induction m with
  | zero => exact absurd hk (by omega)
  | succ m ih =>
    simp only [List.range_succ, List.foldl_append, List.foldl_cons, List.foldl_nil]
    rcases Nat.lt_succ_iff_lt_or_eq.mp hk with hlt | rfl
    · -- the input changed before the last one
      rw [h m (by omega) (by omega)]
      exact (hf.state (g' m)).ne (ih hlt fun j hj => h j (by omega))
    · rw [foldl_range_congr fun j hj => h j (by omega) (by omega)]
      exact (hf.input _).ne hne

/-- Loops that run side by side. -/
theorem foldl_pi {κ : Type*} {f : κ → σ → ℕ → σ} {v : κ → σ} (m : ℕ) (i : κ) :
    (List.range m).foldl (fun v j => fun i => f i (v i) j) v i =
      (List.range m).foldl (f i) (v i) := by
  induction m with
  | zero => rfl
  | succ m ih => simp only [List.range_succ, List.foldl_append, List.foldl_cons, List.foldl_nil, ih]

end Folds

/-! ## Loops over a buffer -/

/-- `while (p + n <= end)`: a step at `p`, and `p` moves by `n`. Returns what is left. -/
def eat (n : ℕ) (f : σ → List α → σ) (s : σ) (p : List α) : σ × List α :=
  if 0 < n ∧ n ≤ p.length then eat n f (f s p) (p.drop n) else (s, p)
termination_by p.length
decreasing_by
  rw [List.length_drop]
  omega

/-- `if (p + n <= end)`: the same, at most once. -/
def bite (n : ℕ) (f : σ → List α → σ) (s : σ) (p : List α) : σ × List α :=
  if n ≤ p.length then (f s p, p.drop n) else (s, p)

/-- The loop is left after one step when less than two times `n` are there. -/
theorem bite_eq_eat {n : ℕ} {f : σ → List α → σ} {s : σ} {p : List α} (hn : 0 < n)
    (hlen : p.length < n + n) : bite n f s p = eat n f s p := by
  rw [bite, eat]
  by_cases h : n ≤ p.length
  · have hstop : ¬ (0 < n ∧ n ≤ (p.drop n).length) := by
      rw [List.length_drop]
      omega
    rw [if_pos h, if_pos ⟨hn, h⟩, eat, if_neg hstop]
  · rw [if_neg h, if_neg fun hboth => h hboth.2]

/-- The loop that begins with a step. -/
theorem eat_do {n : ℕ} {f : σ → List α → σ} {s : σ} {p : List α} (hn : 0 < n)
    (h : n ≤ p.length) : eat n f (f s p) (p.drop n) = eat n f s p := by
  rw [eat.eq_1 n f s p, if_pos ⟨hn, h⟩]

theorem eat_eq {n : ℕ} {f : σ → List α → σ} {s : σ} {p : List α} (hn : 0 < n) :
    eat n f s p = ((List.range (p.length / n)).foldl (fun s k => f s (p.drop (n * k))) s,
      p.drop (n * (p.length / n))) := by
  fun_induction eat n f s p with
  | case1 s p h ih =>
    have hdiv : p.length / n = (p.length - n) / n + 1 := by
      rw [← Nat.add_div_right _ hn, Nat.sub_add_cancel h.2]
    rw [ih, List.length_drop, hdiv, List.range_succ_eq_map, List.foldl_cons, List.foldl_map,
      List.drop_drop]
    simp only [Nat.mul_zero, List.drop_zero, List.drop_drop, Nat.mul_succ, Nat.add_comm n]
  | case2 s p h =>
    have hlt : p.length / n = 0 := Nat.div_eq_of_lt (by omega)
    simp [hlt]

end Mixing
