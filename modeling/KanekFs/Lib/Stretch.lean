import Mathlib.Order.Basic
import Mathlib.Tactic.Lemma

/-!
# Stretches

A sequence is searched from a position on for the first place where a property fails. `All P lo hi`
says that `P` holds on `[lo, hi)`, and `Longest P p n r` that `r` is the length of the longest
stretch that starts at `p` and is at most `n` long.

`Longest.append` puts a stretch behind one that is complete, and `Longest.extend` raises the
bound of one that has ended: together they are the steps of a search in pieces.
-/

namespace Stretch

variable {P : ℕ → Prop} {lo mid hi p m n r r' : ℕ}

/-- `P` holds everywhere in `[lo, hi)`. -/
def All (P : ℕ → Prop) (lo hi : ℕ) : Prop := ∀ i, lo ≤ i → i < hi → P i

/-- The longest stretch from `p` on, among those of at most `n` places. -/
structure Longest (P : ℕ → Prop) (p n r : ℕ) : Prop where
  le : r ≤ n
  all : All P p (p + r)
  stop : r < n → ¬ P (p + r)

lemma All.mono {lo' hi' : ℕ} (h : All P lo hi) (hlo : lo ≤ lo') (hhi : hi' ≤ hi) :
    All P lo' hi' :=
  fun i h₁ h₂ => h i (by omega) (by omega)

lemma All.append (h : All P lo mid) (h' : All P mid hi) : All P lo hi := by
  intro i h₁ h₂
  by_cases hi : i < mid
  · exact h i h₁ hi
  · exact h' i (by omega) h₂

lemma all_self : All P lo lo := fun i h₁ h₂ => absurd h₂ (by omega)

namespace Longest

lemma unique (h : Longest P p n r) (h' : Longest P p n r') : r = r' := by
  have hle := h.le
  have hle' := h'.le
  -- the shorter one would end inside the longer one
  rcases Nat.lt_trichotomy r r' with hlt | heq | hlt
  · exact absurd (h'.all (p + r) (by omega) (by omega)) (h.stop (by omega))
  · exact heq
  · exact absurd (h.all (p + r') (by omega) (by omega)) (h'.stop (by omega))

/-- A stretch as long as allowed. -/
lemma full (h : All P p (p + n)) : Longest P p n n where
  le := Nat.le_refl n
  all := h
  stop hlt := absurd hlt (by omega)

lemma append (h : All P p (p + m)) (h' : Longest P (p + m) n r) : Longest P p (m + n) (m + r) where
  le := by
    have := h'.le
    omega
  all := h.append (by rw [← Nat.add_assoc]; exact h'.all)
  stop hlt := by
    rw [← Nat.add_assoc]
    exact h'.stop (by omega)

/-- A stretch that has ended is the longest under every higher bound. -/
lemma extend (h : Longest P p m r) (hstop : r < m) (hle : m ≤ n) : Longest P p n r where
  le := by omega
  all := h.all
  stop _ := h.stop hstop

/-- A stretch of `k` places is no longer than the longest one. -/
lemma le_of_all {k : ℕ} (h : Longest P p n r) (hk : k ≤ n) (hall : All P p (p + k)) : k ≤ r := by
  by_contra hlt
  exact h.stop (by omega) (hall (p + r) (by omega) (by omega))

end Longest

end Stretch
