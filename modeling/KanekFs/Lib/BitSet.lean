import KanekFs.Lib.Bytes
import Mathlib.Data.Finset.Card

/-!
# The set of bits of a bitmap

A bitmap that marks the used members of a collection stands for the finite set `onesBelow bm n`
of its set bits below the size `n` of the collection. Setting one bit inserts it into the set,
clearing one bit erases it, so a counter kept beside a bitmap is compared with a cardinality.
-/

namespace Bytes

/-- The set bits of a buffer below `n`. -/
def onesBelow (bm : List Byte) (n : ℕ) : Finset ℕ :=
  (Finset.range n).filter fun k => bitAt bm k = true

variable {bm bm' : List Byte} {k n : ℕ}

@[simp] lemma mem_onesBelow : k ∈ onesBelow bm n ↔ k < n ∧ bitAt bm k = true := by
  simp [onesBelow]

lemma onesBelow_eq_empty (h : ∀ k < n, bitAt bm k = false) : onesBelow bm n = ∅ := by
  ext k
  rw [mem_onesBelow]
  constructor
  · rintro ⟨hk, hset⟩
    rw [h k hk] at hset
    simp at hset
  · intro hk
    simp at hk

lemma onesBelow_eq_range (h : ∀ k < n, bitAt bm k = true) : onesBelow bm n = Finset.range n :=
  Finset.filter_true_of_mem fun k hk => h k (Finset.mem_range.mp hk)

lemma card_onesBelow_le (bm : List Byte) (n : ℕ) : (onesBelow bm n).card ≤ n := by
  have h := Finset.card_filter_le (Finset.range n) fun k => bitAt bm k = true
  rwa [Finset.card_range] at h

/-- There is room as long as one bit is clear. -/
lemma card_onesBelow_lt (hk : k < n) (hclear : bitAt bm k = false) : (onesBelow bm n).card < n := by
  have hsub : onesBelow bm n ⊂ Finset.range n := by
    refine Finset.filter_ssubset.mpr ⟨k, Finset.mem_range.mpr hk, ?_⟩
    simp [hclear]
  simpa using Finset.card_lt_card hsub

/-- A bit outside the buffer is clear, so the set is no larger than the buffer. -/
lemma card_onesBelow_le_length (bm : List Byte) (n : ℕ) :
    (onesBelow bm n).card ≤ 8 * bm.length := by
  have hsub : onesBelow bm n ⊆ Finset.range (8 * bm.length) := by
    intro k hk
    rw [Finset.mem_range]
    by_contra hout
    have hset := (mem_onesBelow.mp hk).2
    rw [bitAt_eq_false_of_le (by omega)] at hset
    simp at hset
  simpa using Finset.card_le_card hsub

lemma SetRange.onesBelow_insert (h : SetRange bm bm' k (k + 1) true) (hk : k < n) :
    onesBelow bm' n = insert k (onesBelow bm n) := by
  ext j
  rw [Finset.mem_insert, mem_onesBelow, mem_onesBelow, h.bit]
  by_cases hj : j = k
  · subst hj
    simp [hk]
  · rw [if_neg (by omega)]
    simp [hj]

lemma SetRange.onesBelow_erase (h : SetRange bm bm' k (k + 1) false) (n : ℕ) :
    onesBelow bm' n = (onesBelow bm n).erase k := by
  ext j
  rw [Finset.mem_erase, mem_onesBelow, mem_onesBelow, h.bit]
  by_cases hj : j = k
  · subst hj
    simp
  · rw [if_neg (by omega)]
    simp [hj]

end Bytes
