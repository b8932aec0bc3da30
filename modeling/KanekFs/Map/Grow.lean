import KanekFs.Map.Count
import KanekFs.Map.SetExtent

/-!
# Extents that can grow

`bm_extent_can_grow` of `map.c` asks whether an extent of set bits is followed by enough clear
ones, with up to three calls of `bm_count`.

* `growable_iff`: once the set bits at the beginning are counted, the rest has to be clear.
* `extentCanGrow_spec` is the answer of the function on every extent inside the map; the codes
  that stand for an error of `bm_count` are not among the ones returned.
* `refused_iff` is about extents outside the map: `bm_set_extent`, `bm_count` and
  `bm_extent_can_grow` refuse them unless their end wraps around in 64 bits.
-/

namespace KanekFs.Map

open Bytes Word Stretch

/-- `bm_extent_can_grow`. -/
def bmExtentCanGrow (bm : List Byte) (total_bits bit_address count : ℕ) : Option ℤ :=
  if bit_address ≥ total_bits ∨ u64 (bit_address + count) > total_bits ∨ count = 0 then some (-1)
  else do
    let (rc, count_result) ← bmCount bm total_bits bit_address count 0
    if rc ≠ 0 then some (-100)
    -- clear bits at the beginning: then there must be no others
    else if count_result > 0 then
      if count_result = count then some 0 else some (-2)
    else do
      let (rc, count_result) ← bmCount bm total_bits bit_address count 1
      if rc ≠ 0 then some (-101)
      else if count_result = count then some (-3)
      else if count_result = 0 then some (-4)
      else do
        let ones := count_result
        let expected_zeroes := sub64 count ones
        let (rc, count_result) ←
          bmCount bm total_bits (u64 (bit_address + ones)) expected_zeroes 0
        if rc ≠ 0 then some (-102)
        else if expected_zeroes = count_result then some 0 else some (-5)

/-! ## Inside the map -/

/-- The `count` bits from `bit_address` on are some set ones, fewer than `count`, followed by clear
ones only. -/
def Growable (bm : List Byte) (bit_address count : ℕ) : Prop :=
  ∃ k < count, (∀ i, bit_address ≤ i → i < bit_address + k → bitAt bm i = true) ∧
    ∀ i, bit_address + k ≤ i → i < bit_address + count → bitAt bm i = false

section Inside

variable {bm : List Byte} {total_bits bit_address count ones : ℕ}

lemma counted_one {k : ℕ} : Counted bm 1 k ↔ bitAt bm k = true := Iff.rfl

lemma counted_zero {k : ℕ} : Counted bm 0 k ↔ bitAt bm k = false := Iff.rfl

/-- A bit is set or clear. -/
lemma not_counted_zero {k : ℕ} (h : Counted bm 1 k) : ¬ Counted bm 0 k := by
  rw [counted_zero, counted_one.mp h]
  simp

/-- Where `ones` set bits come first and are not all, the others must be clear. -/
lemma growable_iff (hones : Longest (Counted bm 1) bit_address count ones) (hlt : ones < count) :
    Growable bm bit_address count ↔
      All (Counted bm 0) (bit_address + ones) (bit_address + count) := by
  have hstop : bitAt bm (bit_address + ones) ≠ true := hones.stop hlt
  constructor
  · rintro ⟨k, hk, hset, hclear⟩
    -- the set bits end where the first clear one is
    rcases Nat.lt_trichotomy k ones with hlt' | rfl | hlt'
    · have hbit := hones.all (bit_address + k) (by omega) (by omega)
      exact absurd (hclear (bit_address + k) le_rfl (by omega)) (not_counted_zero hbit)
    · exact hclear
    · exact absurd (hset (bit_address + ones) (by omega) (by omega)) hstop
  · intro hclear
    exact ⟨ones, hlt, hones.all, hclear⟩

/-- An extent of set bits only cannot grow. -/
lemma not_growable_of_ones (h : All (Counted bm 1) bit_address (bit_address + count)) :
    ¬ Growable bm bit_address count := by
  rintro ⟨k, hk, -, hclear⟩
  have hbit := h (bit_address + k) (by omega) (by omega)
  exact not_counted_zero hbit (hclear (bit_address + k) le_rfl (by omega))

/-- A stretch fills its bound exactly when all its places count. -/
lemma longest_eq_iff {P : ℕ → Prop} {p n r : ℕ} (h : Longest P p n r) :
    r = n ↔ All P p (p + n) := by
  constructor
  · rintro rfl
    exact h.all
  · intro hall
    exact h.unique (Longest.full hall)

/-- An extent that starts with `zeroes` clear bits, at least one. -/
lemma growable_iff_zeroes {zeroes : ℕ} (hzeroes : Longest (Counted bm 0) bit_address count zeroes)
    (hpos : 0 < zeroes) : Growable bm bit_address count ↔ zeroes = count := by
  have hle := hzeroes.le
  -- the first bit is clear, so no set bits come first
  have hnone : Longest (Counted bm 1) bit_address count 0 := by
    refine ⟨Nat.zero_le _, all_self, ?_⟩
    intro _ hset
    exact not_counted_zero hset (hzeroes.all (bit_address + 0) (by omega) (by omega))
  rw [growable_iff hnone (by omega), longest_eq_iff hzeroes, Nat.add_zero]

/-- An extent that starts with `ones` set bits, not all, and goes on with `rest` clear ones. -/
lemma growable_iff_rest {rest : ℕ} (hones : Longest (Counted bm 1) bit_address count ones)
    (hlt : ones < count)
    (hrest : Longest (Counted bm 0) (bit_address + ones) (count - ones) rest) :
    Growable bm bit_address count ↔ rest = count - ones := by
  rw [growable_iff hones hlt, longest_eq_iff hrest,
    show bit_address + ones + (count - ones) = bit_address + count by omega]

/-- Where no clear bits come first, a set bit does. -/
lemma ones_ne_zero (hzeroes : Longest (Counted bm 0) bit_address count 0)
    (hones : Longest (Counted bm 1) bit_address count ones) (hpos : 0 < count) : ones ≠ 0 := by
  rintro rfl
  have hclear := hones.stop hpos
  rw [counted_one, Bool.not_eq_true] at hclear
  exact hzeroes.stop hpos hclear

/-- **What `bm_extent_can_grow` returns** on an extent inside the map: 0 exactly when the extent
is set bits followed by clear ones, else a negative code, and never one of those that report an
error of `bm_count`. -/
theorem extentCanGrow_spec (bm : List Byte) (total_bits bit_address count : ℕ)
    (hcov : total_bits ≤ 8 * bm.length) (h64 : total_bits < 2 ^ 64) (hpos : 1 ≤ count)
    (h31 : count < 2 ^ 31) (hin : bit_address + count ≤ total_bits) :
    ∃ rc, bmExtentCanGrow bm total_bits bit_address count = some rc ∧
      (rc = 0 ↔ Growable bm bit_address count) ∧ (¬ Growable bm bit_address count → rc < 0) ∧
      rc ≠ -100 ∧ rc ≠ -101 ∧ rc ≠ -102 ∧ rc ≠ -4 := by
  have hargs : ¬ (bit_address ≥ total_bits ∨ u64 (bit_address + count) > total_bits ∨
      count = 0) := by
    rw [u64_of_lt (by omega)]
    omega
  obtain ⟨zeroes, hret₀, hzeroes⟩ : CountExact bm total_bits bit_address count 0 :=
    countExact_of_lt hcov h64 h31 hpos hin (.inl rfl)
  obtain ⟨ones, hret₁, hones⟩ : CountExact bm total_bits bit_address count 1 :=
    countExact_of_lt hcov h64 h31 hpos hin (.inr rfl)
  have hle := hones.le
  rw [bmExtentCanGrow, if_neg hargs, hret₀]
  simp only [Option.bind_eq_bind, Option.bind_some, ne_eq, not_true_eq_false, if_false]
  rcases Nat.eq_zero_or_pos zeroes with rfl | hstart
  · have hsome : ones ≠ 0 := ones_ne_zero hzeroes hones hpos
    rw [if_neg (Nat.lt_irrefl 0), hret₁]
    simp only [Option.bind_some, not_true_eq_false, if_false]
    by_cases hfull : ones = count
    · rw [if_pos hfull]
      have hno := not_growable_of_ones ((longest_eq_iff hones).mp hfull)
      exact ⟨-3, rfl, by simp [hno], fun _ => by decide, by decide⟩
    · -- the clear bits behind the set ones are counted
      have hsub : sub64 count ones = count - ones := sub64_of_le hle (by omega)
      obtain ⟨rest, hret₂, hrest⟩ :
          CountExact bm total_bits (bit_address + ones) (count - ones) 0 :=
        countExact_of_lt hcov h64 (by omega) (by omega) (by omega) (.inl rfl)
      rw [if_neg hfull, if_neg hsome, hsub, u64_of_lt (by omega), hret₂,
        growable_iff_rest hones (by omega) hrest]
      simp only [Option.bind_some, not_true_eq_false, if_false]
      split_ifs with hall
      · exact ⟨0, rfl, by simp [hall], by simp [hall], by decide⟩
      · exact ⟨-5, rfl, by simp [Ne.symm hall], fun _ => by decide, by decide⟩
  · rw [if_pos hstart, growable_iff_zeroes hzeroes hstart]
    split_ifs with hall
    · exact ⟨0, rfl, by simp [hall], by simp [hall], by decide⟩
    · exact ⟨-2, rfl, by simp [hall], fun _ => by decide, by decide⟩

/-- Three set bits in a byte. -/
theorem extentCanGrow_byte : ∃ rc, bmExtentCanGrow [0x07#8] 8 0 8 = some rc ∧
    (rc = 0 ↔ Growable [0x07#8] 0 8) ∧ (¬ Growable [0x07#8] 0 8 → rc < 0) ∧
    rc ≠ -100 ∧ rc ≠ -101 ∧ rc ≠ -102 ∧ rc ≠ -4 :=
  extentCanGrow_spec [0x07#8] 8 0 8 (by decide) (by decide) (by decide) (by decide) (by decide)

end Inside

/-! ## Outside the map -/

/-- The three functions return a negative code, and the same one whatever the buffer is, also an
empty one: no byte of it is read or written. -/
structure Refused (total_bits bit_address n : ℕ) : Prop where
  set : ∀ clear_or_set, ∃ rc < 0, ∀ bm,
    bmSetExtent bm total_bits bit_address n clear_or_set = some (rc, bm)
  count : ∀ clear_or_set, ∃ rc < 0, ∀ bm, ∃ count_result,
    bmCount bm total_bits bit_address n clear_or_set = some (rc, count_result)
  grow : ∃ rc < 0, ∀ bm, bmExtentCanGrow bm total_bits bit_address n = some rc

section Outside

variable {total_bits bit_address n : ℕ}

/-- The test of the bounds, where it works. -/
lemma refused_of_test
    (h : bit_address > total_bits ∨ u64 (bit_address + n) > total_bits) :
    Refused total_bits bit_address n where
  set clear_or_set := ⟨-1, by decide, fun bm => by rw [bmSetExtent, if_pos h]⟩
  count clear_or_set := ⟨-1, by decide, fun bm => ⟨0, by rw [bmCount, if_pos (by omega)]⟩⟩
  grow := ⟨-1, by decide, fun bm => by rw [bmExtentCanGrow, if_pos (by omega)]⟩

/-- A single bit is tested again by `bm_set_bit`. -/
lemma refused_one (h : bit_address ≥ total_bits) : Refused total_bits bit_address 1 := by
  by_cases htest : bit_address > total_bits ∨ u64 (bit_address + 1) > total_bits
  · exact refused_of_test htest
  · refine ⟨fun clear_or_set => ⟨-1, by decide, fun bm => ?_⟩,
      fun clear_or_set => ⟨-1, by decide, fun bm => ⟨0, ?_⟩⟩, -1, by decide, fun bm => ?_⟩
    · rw [bmSetExtent, if_neg htest, if_pos rfl, bmSetBit, if_pos h]
    · rw [bmCount, if_pos (.inl h)]
    · rw [bmExtentCanGrow, if_pos (.inl h)]

/-- Where the end of the extent wraps around, the first byte is touched. -/
lemma bmSetExtent_nil_of_wrap (clear_or_set : ℤ) (hb : bit_address < 2 ^ 64) (hn : n < 2 ^ 64)
    (hle : bit_address ≤ total_bits) (hwrap : 2 ^ 64 ≤ bit_address + n) (hone : n ≠ 1) :
    bmSetExtent [] total_bits bit_address n clear_or_set = none := by
  have htest : ¬ (bit_address > total_bits ∨ u64 (bit_address + n) > total_bits) := by
    unfold u64
    omega
  rw [bmSetExtent, if_neg htest, if_neg hone]
  by_cases haligned : bit_address % 8 = 0
  · -- an aligned start leaves at least 8 bits up to the wrap
    have hbytes : n / 8 ≥ 1 := by omega
    have hfit : ¬ bit_address / 8 + n / 8 ≤ ([] : List Byte).length := by
      rw [List.length_nil]
      omega
    simp only [haligned, ne_eq, not_true_eq_false, if_false, setExtentBytes, if_pos hbytes,
      memsetBytes, if_neg hfit]
    rfl
  · simp [haligned]

end Outside

/-- **Extents outside the map are refused** exactly when they start outside, do not wrap around
`2 ^ 64`, or are one bit long. -/
theorem refused_iff (total_bits bit_address n : ℕ) (hb : bit_address < 2 ^ 64)
    (hn : n < 2 ^ 64) (hout : bit_address + n > total_bits) :
    Refused total_bits bit_address n ↔
      bit_address > total_bits ∨ bit_address + n < 2 ^ 64 ∨ n = 1 := by
  constructor
  · intro h
    by_contra hwrap
    rcases h.set 1 with ⟨rc, -, hall⟩
    have hnone : bmSetExtent [] total_bits bit_address n 1 = none :=
      bmSetExtent_nil_of_wrap 1 hb hn (by omega) (by omega) (by omega)
    rw [hall []] at hnone
    simp at hnone
  · rintro (hstart | hnowrap | rfl)
    · exact refused_of_test (.inl hstart)
    · exact refused_of_test (.inr (by rwa [u64_of_lt hnowrap]))
    · exact refused_one (by omega)

/-- Nine bits from bit 8 on, in a map of sixteen. -/
theorem refused_nine : Refused 16 8 9 :=
  (refused_iff 16 8 9 (by decide) (by decide) (by decide)).mpr (by decide)

/-- From bit 8 on, so many bits that the end is 0 in 64 bits: `bm_set_extent` goes to work. -/
theorem wrapped_extent_not_refused : ¬ Refused 16 8 (2 ^ 64 - 8) := by
  intro h
  rcases h.set 1 with ⟨rc, -, hall⟩
  have hnone : bmSetExtent [] 16 8 (2 ^ 64 - 8) 1 = none := by decide
  rw [hall []] at hnone
  simp at hnone

end KanekFs.Map
