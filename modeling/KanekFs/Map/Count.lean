import KanekFs.Lib.Stretch
import KanekFs.Map.Find

/-!
# Counting equal bits

`byte_count_bits` and `bm_count` of `map.c`. `bm_count` counts how many of the `n` bits from
`bit_address` on are equal to the wanted one before the first that is not: an unaligned head, whole
bytes of `0x00` or `0xff`, and the mixed byte in which the count ends.

* `byteCountBits_spec` is the count in one byte, over the rounds that the do-while loop makes.
* `countLoop_spec` is the loop over the bytes, with the bits before the current byte counted.
* `bmCount_spec` says that the count always returns 0, and that it is the length of the longest
  stretch exactly when `CountFits` holds: the bits still pending at the mixed byte are passed in an
  `int`.
-/

namespace KanekFs.Map

open Bytes Word Stretch

/-! ## Definitions -/

/-- `n` rounds of the loop of `byte_count_bits`. -/
def countBitsLoop (byte : Byte) (clear_or_set : ℤ) : ℕ → ℕ → ℕ → ℕ
  | 0, _, count => count
  | n + 1, start, count =>
    if (1#8 <<< start) &&& byte ≠ 0#8 then
      if clear_or_set = 1 then countBitsLoop byte clear_or_set n (start + 1) (count + 1) else count
    else
      if clear_or_set ≠ 1 then countBitsLoop byte clear_or_set n (start + 1) (count + 1) else count

/-- The rounds of the do-while loop: one at least, and none behind the end of the byte. -/
def countRounds (start : ℕ) (numbits : ℤ) : ℕ :=
  let stop := if start + numbits > 8 then 8 else start + numbits
  (stop - (start + 1)).toNat + 1

/-- Count the equal bits of a byte from bit `start` on, at most `numbits`. -/
def byteCountBits (start : ℕ) (numbits : ℤ) (byte : Byte) (clear_or_set : ℤ) : ℕ :=
  countBitsLoop byte clear_or_set (countRounds start numbits) start 0

/-- The while loop of `bm_count` over the bytes from `location_in_map` on, with the code and
`*count_result`. Reading past the last byte has no result. -/
def countLoop (num_bits_to_count : ℕ) (clear_or_set : ℤ) : List Byte → ℕ → ℤ → Option (ℤ × ℕ)
  | [], bits_count, _ => if bits_count < num_bits_to_count then none else some (-2, 0)
  | byte :: rest, bits_count, pending_bits =>
    if bits_count < num_bits_to_count then
      if byte ≠ 0xff#8 ∧ byte ≠ 0x00#8 then
        -- a mixed byte ends the count; `pending_bits` is converted to `int`
        some (0, u64 (bits_count +
          byteCountBits 0 (toInt32 (ofInt64 pending_bits)) byte clear_or_set))
      else if (clear_or_set = 1 ∧ byte = 0xff#8) ∨ (clear_or_set = 0 ∧ byte = 0x00#8) then
        if pending_bits ≤ 8 then some (0, num_bits_to_count)
        else countLoop num_bits_to_count clear_or_set rest (u64 (bits_count + 8)) (pending_bits - 8)
      else some (0, bits_count)
    else some (-2, 0)

/-- `bm_count`, with the code and `*count_result`. -/
def bmCount (bm : List Byte) (total_bits bit_address num_bits_to_count : ℕ) (clear_or_set : ℤ) :
    Option (ℤ × ℕ) :=
  if bit_address ≥ total_bits ∨ u64 (bit_address + num_bits_to_count) > total_bits then
    some (-1, 0)
  else
    let location_in_map := bit_address / 8
    let aligned_to_byte := bit_address % 8
    if aligned_to_byte ≠ 0 then do
      let byte ← bm[location_in_map]?
      let expected_bits : ℤ :=
        if u64 (aligned_to_byte + num_bits_to_count) ≥ 8 then 8 - aligned_to_byte
        else toInt32 num_bits_to_count
      let bits_count := byteCountBits aligned_to_byte expected_bits byte clear_or_set
      let pending_bits := toInt64 num_bits_to_count - expected_bits
      if pending_bits ≤ 0 ∨ bits_count < ofInt64 expected_bits then some (0, bits_count)
      else
        countLoop num_bits_to_count clear_or_set (bm.drop (location_in_map + 1)) bits_count
          pending_bits
    else countLoop num_bits_to_count clear_or_set (bm.drop location_in_map) 0
      (toInt64 num_bits_to_count)

/-- Bit `k` is one of those that are counted. -/
def Counted (bm : List Byte) (clear_or_set : ℤ) (k : ℕ) : Prop :=
  bitAt bm k = decide (clear_or_set = 1)

/-! ## One byte -/

lemma countBitsLoop_spec (byte : Byte) (clear_or_set : ℤ) (n start count : ℕ)
    (hfit : start + n ≤ 8) :
    ∃ r, countBitsLoop byte clear_or_set n start count = count + r ∧
      Longest (fun i => byte.getLsbD i = decide (clear_or_set = 1)) start n r := by
  induction n generalizing start count with
  | zero => exact ⟨0, rfl, Longest.full all_self⟩
  | succ n ih =>
    have hbit := mask_ne_zero_iff byte (show start < 8 by omega)
    rw [countBitsLoop]
    by_cases heq : byte.getLsbD start = decide (clear_or_set = 1)
    · -- an equal bit is counted, and the loop goes on
      obtain ⟨r, hr, hlong⟩ := ih (start + 1) (count + 1) (by omega)
      have hone : All (fun i => byte.getLsbD i = decide (clear_or_set = 1)) start (start + 1) := by
        intro i h₁ h₂
        obtain rfl : i = start := by omega
        exact heq
      refine ⟨1 + r, ?_, Nat.add_comm 1 n ▸ Longest.append hone hlong⟩
      by_cases hset : clear_or_set = 1
      · rw [if_pos (hbit.mpr (by simp [heq, hset])), if_pos hset, hr]
        omega
      · rw [if_neg (fun h => by simp [hbit.mp h, hset] at heq), if_pos hset, hr]
        omega
    · -- the first bit that differs ends it
      refine ⟨0, ?_, Nat.zero_le _, all_self, fun _ => heq⟩
      by_cases hset : clear_or_set = 1
      · rw [if_neg (fun h => heq (by simp [hbit.mp h, hset])), if_neg (not_not_intro hset)]
        rfl
      · rw [if_pos (hbit.mpr (by simpa [hset] using heq)), if_neg hset]
        rfl

/-- The count in byte `j`, by the bits of the map. -/
lemma byteCountBits_spec {bm : List Byte} {j start : ℕ} {numbits : ℤ} (clear_or_set : ℤ)
    (hj : j < bm.length) (hstart : start < 8) :
    Longest (Counted bm clear_or_set) (8 * j + start) (countRounds start numbits)
      (byteCountBits start numbits bm[j] clear_or_set) := by
  have hfit : start + countRounds start numbits ≤ 8 := by
    simp only [countRounds]
    split <;> omega
  obtain ⟨r, hr, hlong⟩ :=
    countBitsLoop_spec bm[j] clear_or_set (countRounds start numbits) start 0 hfit
  have hle := hlong.le
  rw [byteCountBits, hr, Nat.zero_add]
  refine ⟨hle, ?_, ?_⟩
  · intro k h₁ h₂
    have hk := hlong.all (k - 8 * j) (by omega) (by omega)
    rwa [← bitAt_getElem hj (by omega), Nat.add_sub_cancel' (by omega)] at hk
  · intro hlt
    rw [Counted, Nat.add_assoc, bitAt_getElem hj (by omega)]
    exact hlong.stop hlt

section Bytes

variable {bm : List Byte} {j : ℕ} {clear_or_set : ℤ}

/-- The bytes that `bm_count` counts without looking at their bits. -/
lemma counted_byte_iff (hj : j < bm.length) (hcs : clear_or_set = 0 ∨ clear_or_set = 1) :
    (clear_or_set = 1 ∧ bm[j] = 0xff#8) ∨ (clear_or_set = 0 ∧ bm[j] = 0x00#8) ↔
      All (Counted bm clear_or_set) (8 * j) (8 * j + 8) := by
  have hbits : All (Counted bm clear_or_set) (8 * j) (8 * j + 8) ↔
      ∀ i < 8, bm[j].getLsbD i = decide (clear_or_set = 1) := by
    constructor
    · intro h i hi
      rw [← bitAt_getElem hj hi]
      exact h (8 * j + i) (by omega) (by omega)
    · intro h k h₁ h₂
      have hk := h (k - 8 * j) (by omega)
      rwa [← bitAt_getElem hj (by omega), Nat.add_sub_cancel' h₁] at hk
  have hones : ∀ i < 8, (0xff#8).getLsbD i = true := by decide
  rw [hbits]
  rcases hcs with rfl | rfl
  · constructor
    · rintro (⟨h, -⟩ | ⟨-, h⟩)
      · simp at h
      · simp [h]
    · intro h
      exact .inr ⟨rfl, BitVec.eq_of_getLsbD_eq fun i hi => by simp [h i hi]⟩
  · constructor
    · rintro (⟨-, h⟩ | ⟨h, -⟩)
      · simpa [h] using hones
      · simp at h
    · intro h
      exact .inl ⟨rfl, BitVec.eq_of_getLsbD_eq fun i hi => by simp [h i hi, hones i hi]⟩

/-- A byte of the other kind ends the count at its first bit. -/
lemma not_counted_of_other (hj : j < bm.length) (hcs : clear_or_set = 0 ∨ clear_or_set = 1)
    (hpure : ¬ (bm[j] ≠ 0xff#8 ∧ bm[j] ≠ 0x00#8))
    (hother : ¬ ((clear_or_set = 1 ∧ bm[j] = 0xff#8) ∨ (clear_or_set = 0 ∧ bm[j] = 0x00#8))) :
    ¬ Counted bm clear_or_set (8 * j) := by
  have hbit : bitAt bm (8 * j + 0) = bm[j].getLsbD 0 := bitAt_getElem hj (by decide)
  rw [Nat.add_zero] at hbit
  have hbyte : bm[j] = 0xff#8 ∨ bm[j] = 0x00#8 := by
    by_contra h
    exact hpure (not_or.mp h)
  rw [Counted, hbit]
  rcases hcs with rfl | rfl <;> rcases hbyte with h | h <;> simp_all

end Bytes

/-! ## The run of the loop -/

section Loop

variable {bm : List Byte} {bit_address n : ℕ} {clear_or_set : ℤ}

/-- The rounds in a mixed byte when `m` bits are pending: the low 32 bits of `m` as an `int`, but
one round at least. -/
def mixedRounds (m : ℕ) : ℕ := (max 1 (toInt32 m)).toNat

variable (bm bit_address n clear_or_set) in
/-- Where the bits counted reach a byte boundary `q` with at least `2 ^ 31` bits pending, and the
byte at `q` is not counted whole, it does not begin with more bits to count than rounds are made. -/
def CountFits : Prop :=
  ∀ q, q % 8 = 0 → bit_address ≤ q → 2 ^ 31 ≤ bit_address + n - q →
    All (Counted bm clear_or_set) bit_address q →
    ¬ All (Counted bm clear_or_set) q (q + 8) →
    ¬ All (Counted bm clear_or_set) q (q + (mixedRounds (bit_address + n - q) + 1))

/-- An extent of fewer than `2 ^ 31` bits is counted right. -/
lemma countFits_of_lt (h : n < 2 ^ 31) : CountFits bm bit_address n clear_or_set :=
  fun q _ hq hm => absurd hm (by omega)

/-- So is one whose bits are all counted. -/
lemma countFits_of_all
    (h : All (Counted bm clear_or_set) bit_address (bit_address + n)) :
    CountFits bm bit_address n clear_or_set :=
  fun q _ hq hm _ hbyte => absurd (h.mono hq (by omega)) hbyte

/-- So is one whose count ends in an unaligned first byte. -/
lemma countFits_of_head {k : ℕ} (hunaligned : bit_address % 8 ≠ 0) (hk : bit_address ≤ k)
    (hbyte : k < 8 * (bit_address / 8 + 1)) (hstop : ¬ Counted bm clear_or_set k) :
    CountFits bm bit_address n clear_or_set :=
  fun q hq hle _ hall => absurd (hall k hk (by omega)) hstop

/-- Where the count reaches a byte that is not counted whole, this byte decides. -/
lemma countFits_at {j : ℕ} (hj : bit_address ≤ 8 * j)
    (hall : All (Counted bm clear_or_set) bit_address (8 * j))
    (hbyte : ¬ All (Counted bm clear_or_set) (8 * j) (8 * j + 8)) :
    CountFits bm bit_address n clear_or_set ↔
      (2 ^ 31 ≤ bit_address + n - 8 * j → ¬ All (Counted bm clear_or_set) (8 * j)
        (8 * j + (mixedRounds (bit_address + n - 8 * j) + 1))) := by
  constructor
  · intro h hm
    exact h (8 * j) (by omega) hj hm hall hbyte
  · intro h q hq hle hm hallq hbyteq
    -- the boundaries before and behind byte `j` are not reached, or not left
    rcases Nat.lt_trichotomy q (8 * j) with hlt | rfl | hlt
    · exact absurd (hall.mono hle (by omega)) hbyteq
    · exact h hm
    · exact absurd (hallq.mono hj (by omega)) hbyte

/-- The rounds in a byte that is looked at from its first bit on. -/
lemma countRounds_zero (m : ℤ) : countRounds 0 m = min 8 (max 1 m).toNat := by
  simp only [countRounds]
  split <;> omega

/-- The count in a mixed byte with `m` bits pending is right exactly when enough rounds are
made. -/
lemma longest_mixed_iff {j m r : ℕ} (hm : 1 ≤ m)
    (hcount : Longest (Counted bm clear_or_set) (8 * j) (countRounds 0 (toInt32 m)) r)
    (hbyte : ¬ All (Counted bm clear_or_set) (8 * j) (8 * j + 8)) :
    Longest (Counted bm clear_or_set) (8 * j) m r ↔
      (2 ^ 31 ≤ m → ¬ All (Counted bm clear_or_set) (8 * j) (8 * j + (mixedRounds m + 1))) := by
  have hle := hcount.le
  rw [countRounds_zero] at hcount hle
  have hr8 : r < 8 := by
    by_contra h
    exact hbyte (hcount.all.mono le_rfl (by omega))
  by_cases hsmall : m < 2 ^ 31
  · -- the `int` holds the number of pending bits
    rw [toInt32_of_lt hsmall] at hcount hle
    refine ⟨fun _ h => absurd h (by omega), ?_⟩
    intro _
    by_cases hm8 : m ≤ 8
    · rwa [show (min 8 (max 1 (m : ℤ)).toNat) = m by omega] at hcount
    · exact hcount.extend (by omega) (by omega)
  · have hrounds : mixedRounds m = (max 1 (toInt32 m)).toNat := rfl
    constructor
    · intro hlong _ hall
      -- the stretch would be longer than the rounds made
      by_cases h8 : 8 ≤ mixedRounds m
      · exact hbyte (hall.mono le_rfl (by omega))
      · have := hlong.le_of_all (by omega) hall
        omega
    · intro h
      refine ⟨by omega, hcount.all, ?_⟩
      intro _ hnext
      by_cases hlast : r < min 8 (max 1 (toInt32 m)).toNat
      · exact hcount.stop hlast hnext
      · -- all rounds were made, and the next bit would count
        apply h (by omega)
        intro i h₁ h₂
        by_cases hi : i = 8 * j + r
        · rwa [hi]
        · exact hcount.all i h₁ (by omega)

/-- **The run of the loop** from byte `j` on, with the bits before it counted. -/
lemma countLoop_spec (hcs : clear_or_set = 0 ∨ clear_or_set = 1) (hn : n < 2 ^ 63)
    (hlen : bit_address + n ≤ 8 * bm.length) (rest : List Byte) (j bits_count : ℕ)
    (hrest : rest = bm.drop j) (hj : 8 * j = bit_address + bits_count) (hlt : bits_count < n)
    (hall : All (Counted bm clear_or_set) bit_address (8 * j)) :
    ∃ v, countLoop n clear_or_set rest bits_count ((n - bits_count : ℕ) : ℤ) = some (0, v) ∧
      (Longest (Counted bm clear_or_set) bit_address n v ↔
        CountFits bm bit_address n clear_or_set) := by
  induction rest generalizing j bits_count with
  | nil =>
    have hend : bm.length ≤ j := List.drop_eq_nil_iff.mp hrest.symm
    omega
  | cons byte rest ih =>
    obtain ⟨hjlen, hbyte, hrest'⟩ := cons_eq_drop hrest
    have hpending : bit_address + n - 8 * j = n - bits_count := by omega
    have hprefix : All (Counted bm clear_or_set) bit_address (bit_address + bits_count) := hj ▸ hall
    have hwhole := counted_byte_iff hjlen hcs
    rw [countLoop, if_pos hlt, hbyte]
    by_cases hmixed : bm[j] ≠ 0xff#8 ∧ bm[j] ≠ 0x00#8
    · -- a mixed byte ends the count
      have hnot : ¬ All (Counted bm clear_or_set) (8 * j) (8 * j + 8) := by
        rw [← hwhole]
        rintro (⟨-, h⟩ | ⟨-, h⟩)
        · exact hmixed.1 h
        · exact hmixed.2 h
      have hcount : Longest (Counted bm clear_or_set) (8 * j + 0)
          (countRounds 0 (toInt32 (n - bits_count)))
          (byteCountBits 0 (toInt32 (n - bits_count)) bm[j] clear_or_set) :=
        byteCountBits_spec clear_or_set hjlen (by decide)
      rw [Nat.add_zero] at hcount
      have hle := hcount.le
      rw [countRounds_zero] at hle
      rw [if_pos hmixed, ofInt64_natCast (by omega)]
      generalize byteCountBits 0 (toInt32 (n - bits_count)) bm[j] clear_or_set = r at hcount hle ⊢
      refine ⟨_, rfl, ?_⟩
      rw [u64_of_lt (by omega), countFits_at (by omega) hall hnot, hpending,
        ← longest_mixed_iff (by omega) hcount hnot, hj]
      constructor
      · intro hlong
        have hbound := hlong.le
        exact ⟨by omega, fun i h₁ h₂ => hlong.all i (by omega) (by omega),
          fun h => by simpa [Nat.add_assoc] using hlong.stop (by omega)⟩
      · intro hlong
        have happ := Longest.append hprefix hlong
        rwa [Nat.add_sub_cancel' hlt.le] at happ
    · rw [if_neg hmixed]
      by_cases hfull : All (Counted bm clear_or_set) (8 * j) (8 * j + 8)
      · rw [if_pos (hwhole.mpr hfull)]
        by_cases hlast : n - bits_count ≤ 8
        · -- the last byte is counted whole
          have hdone : All (Counted bm clear_or_set) bit_address (bit_address + n) :=
            hall.append (hfull.mono le_rfl (by omega))
          rw [if_pos (by omega)]
          exact ⟨n, rfl, fun _ => countFits_of_all hdone, fun _ => Longest.full hdone⟩
        · rw [if_neg (by omega), u64_of_lt (by omega),
            show ((n - bits_count : ℕ) : ℤ) - 8 = ((n - (bits_count + 8) : ℕ) : ℤ) by omega]
          exact ih (j + 1) (bits_count + 8) hrest' (by omega) (by omega)
            (hall.append (hfull.mono le_rfl (by omega)))
      · -- a byte of the other kind: nothing more is counted
        have hstop := not_counted_of_other hjlen hcs hmixed (fun h => hfull (hwhole.mp h))
        rw [if_neg (fun h => hfull (hwhole.mp h))]
        refine ⟨bits_count, rfl, ?_, fun _ => ⟨hlt.le, hprefix, fun _ => hj ▸ hstop⟩⟩
        intro _
        rw [countFits_at (by omega) hall hfull]
        intro _ h
        exact hstop (h (8 * j) le_rfl (by omega))

end Loop

/-! ## The count -/

/-- What `bm_count` does inside the map: it returns 0, and the count is the length of the longest
stretch exactly when the pending bits fit where they have to. -/
theorem bmCount_spec {bm : List Byte} {total_bits bit_address n : ℕ} {clear_or_set : ℤ}
    (hcov : total_bits ≤ 8 * bm.length) (h64 : total_bits < 2 ^ 64) (hn : n < 2 ^ 63)
    (hpos : 1 ≤ n) (hin : bit_address + n ≤ total_bits)
    (hcs : clear_or_set = 0 ∨ clear_or_set = 1) :
    ∃ v, bmCount bm total_bits bit_address n clear_or_set = some (0, v) ∧
      (Longest (Counted bm clear_or_set) bit_address n v ↔
        CountFits bm bit_address n clear_or_set) := by
  have hargs : ¬ (bit_address ≥ total_bits ∨ u64 (bit_address + n) > total_bits) := by
    rw [u64_of_lt (by omega)]
    omega
  rw [bmCount, if_neg hargs]
  by_cases haligned : bit_address % 8 = 0
  · simp only [haligned, ne_eq, not_true_eq_false, if_false, toInt64_of_lt hn]
    have hnone : All (Counted bm clear_or_set) bit_address (8 * (bit_address / 8)) := by
      rw [show 8 * (bit_address / 8) = bit_address by omega]
      exact all_self
    have hloop := countLoop_spec hcs hn (by omega) (bm.drop (bit_address / 8)) (bit_address / 8) 0
      rfl (by omega) (by omega) hnone
    rwa [Nat.sub_zero] at hloop
  · -- an unaligned extent: the bits of the first byte come first
    have hi : bit_address / 8 < bm.length := by omega
    have hlo : 8 * (bit_address / 8) + bit_address % 8 = bit_address := by omega
    obtain ⟨e, he⟩ : ∃ e, e = if bit_address % 8 + n ≥ 8 then 8 - bit_address % 8 else n :=
      ⟨_, rfl⟩
    have hexpected : (if u64 (bit_address % 8 + n) ≥ 8 then 8 - ((bit_address % 8 : ℕ) : ℤ)
        else toInt32 n) = (e : ℤ) := by
      rw [u64_of_lt (by omega), he]
      split
      · omega
      · exact toInt32_of_lt (by omega)
    have hrounds : countRounds (bit_address % 8) e = e := by
      simp only [countRounds]
      split at he <;> split <;> omega
    have hhead : Longest (Counted bm clear_or_set) (8 * (bit_address / 8) + bit_address % 8)
        (countRounds (bit_address % 8) e)
        (byteCountBits (bit_address % 8) e bm[bit_address / 8] clear_or_set) :=
      byteCountBits_spec clear_or_set hi (show bit_address % 8 < 8 by omega)
    rw [hlo, hrounds] at hhead
    have hebound : 1 ≤ e ∧ e ≤ n ∧ e ≤ 8 - bit_address % 8 ∧ (e < n → e = 8 - bit_address % 8) := by
      split at he <;> omega
    simp only [ne_eq, haligned, not_false_eq_true, if_true, List.getElem?_eq_getElem hi,
      Option.bind_eq_bind, Option.bind_some, hexpected, toInt64_of_lt hn,
      ofInt64_natCast (show e < 2 ^ 64 by omega)]
    generalize byteCountBits (bit_address % 8) e bm[bit_address / 8] clear_or_set = r at hhead ⊢
    by_cases hend : r < e
    · -- the count ends in the first byte
      rw [if_pos (.inr hend)]
      have hstop := hhead.stop hend
      exact ⟨r, rfl, fun _ => countFits_of_head haligned (by omega) (by omega) hstop,
        fun _ => hhead.extend hend hebound.2.1⟩
    · obtain rfl : r = e := by
        have := hhead.le
        omega
      by_cases hdone : r = n
      · rw [if_pos (.inl (by omega))]
        exact ⟨r, rfl, fun _ => countFits_of_lt (by omega), fun _ => hdone ▸ Longest.full hhead.all⟩
      · rw [if_neg (by omega), show (n : ℤ) - r = ((n - r : ℕ) : ℤ) by omega]
        have hall : All (Counted bm clear_or_set) bit_address (8 * (bit_address / 8 + 1)) :=
          hhead.all.mono le_rfl (by omega)
        exact countLoop_spec hcs hn (by omega) (bm.drop (bit_address / 8 + 1)) (bit_address / 8 + 1)
          r rfl (by omega) (by omega) hall

/-- `bm_count` returns 0 and stores the length of the longest stretch of counted bits. -/
def CountExact (bm : List Byte) (total_bits bit_address n : ℕ) (clear_or_set : ℤ) : Prop :=
  ∃ r, bmCount bm total_bits bit_address n clear_or_set = some (0, r) ∧
    Longest (Counted bm clear_or_set) bit_address n r

/-- Below `2 ^ 31` bits the count is always exact. -/
theorem countExact_of_lt {bm : List Byte} {total_bits bit_address n : ℕ} {clear_or_set : ℤ}
    (hcov : total_bits ≤ 8 * bm.length) (h64 : total_bits < 2 ^ 64) (hn : n < 2 ^ 31)
    (hpos : 1 ≤ n) (hin : bit_address + n ≤ total_bits)
    (hcs : clear_or_set = 0 ∨ clear_or_set = 1) :
    CountExact bm total_bits bit_address n clear_or_set := by
  obtain ⟨v, hret, hiff⟩ := bmCount_spec hcov h64 (by omega) hpos hin hcs
  exact ⟨v, hret, hiff.mpr (countFits_of_lt hn)⟩

/-- **The count is exact** exactly when the bits pending at the mixed byte in which it ends, seen
as an `int`, are enough for the bits to count there. -/
theorem bmCount_exact_iff (bm : List Byte) (total_bits bit_address n : ℕ) (clear_or_set : ℤ)
    (hcov : total_bits ≤ 8 * bm.length) (h63 : total_bits < 2 ^ 63) (hpos : 1 ≤ n)
    (hin : bit_address + n ≤ total_bits) (hcs : clear_or_set = 0 ∨ clear_or_set = 1) :
    CountExact bm total_bits bit_address n clear_or_set ↔
      CountFits bm bit_address n clear_or_set := by
  obtain ⟨v, hret, hiff⟩ :=
    bmCount_spec hcov (by omega) (show n < 2 ^ 63 by omega) hpos hin hcs
  rw [← hiff]
  constructor
  · rintro ⟨r, hret', hlong⟩
    rw [hret, Option.some.injEq, Prod.mk.injEq] at hret'
    exact hret'.2 ▸ hlong
  · intro hlong
    exact ⟨v, hret, hlong⟩

/-- Thirteen bits from bit 3 on, of which nine are set before the first clear one. -/
theorem countExact_two_bytes : CountExact [0xff#8, 0x0f#8] 16 3 13 1 :=
  (bmCount_exact_iff [0xff#8, 0x0f#8] 16 3 13 1 (by decide) (by decide) (by decide) (by decide)
    (by decide)).mpr (countFits_of_lt (by decide))

/-- A map of `2 ^ 31 + 8` bits that begins with four set ones: of `2 ^ 31` bits one is counted. -/
theorem count_stops_early :
    2 ^ 31 + 8 ≤ 8 * (0x0f#8 :: List.replicate (2 ^ 28) 0x00#8).length ∧
      ¬ CountExact (0x0f#8 :: List.replicate (2 ^ 28) 0x00#8) (2 ^ 31 + 8) 0 (2 ^ 31) 1 := by
  constructor
  · rw [List.length_cons, List.length_replicate]
    decide
  · rintro ⟨r, hret, hlong⟩
    have hcode : bmCount (0x0f#8 :: List.replicate (2 ^ 28) 0x00#8) (2 ^ 31 + 8) 0 (2 ^ 31) 1 =
        some (0, 1) := by decide
    rw [hcode, Option.some.injEq, Prod.mk.injEq] at hret
    obtain rfl : 1 = r := hret.2
    -- bit 1 is set as well
    exact hlong.stop (by decide) rfl

end KanekFs.Map
