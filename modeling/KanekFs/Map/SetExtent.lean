import KanekFs.Lib.Bytes
import KanekFs.Lib.Word

/-!
# Setting bits and extents of a bitmap

`byte_set_bits`, `bm_set_bit` and `bm_set_extent` of `map.c`. A bitmap is the byte buffer
it lives in. A function that touches a byte outside the buffer has no result (`none`);
otherwise it returns its code and the buffer it leaves.

`bm_set_extent` splits an extent into an unaligned head, whole bytes and a tail of fewer
than 8 bits. Each part is a definition of its own here, with a lemma that says which range
of bits it sets; `bmSetExtent_spec` puts them together. The tail is only processed when it
has at least two bits, so an extent whose tail is one bit loses it (`markedBits`).
`setExtentFrame_iff` is about the bits outside the extent.
-/

namespace KanekFs.Map

open Bytes Word

/-! ## Definitions -/

/-- The do-while loop that builds the mask: `n` more rounds after the one for bit `start`. -/
def maskLoop : ℕ → ℕ → Byte → Byte
  | 0, start, mask => mask ||| (1#8 <<< start)
  | n + 1, start, mask => maskLoop n (start + 1) (mask ||| (1#8 <<< start))

/-- Set or clear `numbits` bits of a byte from bit `start` on; one is marked also where `numbits`
is 0 or negative. -/
def byteSetBits (start : ℕ) (numbits : ℤ) (byte : Byte) (clear_or_set : ℤ) : Byte :=
  let stop : ℤ := if start + numbits > 8 then 8 else start + numbits
  let mask := maskLoop (stop - (start + 1)).toNat start 0#8
  if clear_or_set = 1 then byte ||| mask else byte &&& ~~~mask

/-- Set or clear one bit of a bitmap of `total_bits` bits. -/
def bmSetBit (bm : List Byte) (total_bits bit_address : ℕ) (clear_or_set : ℤ) :
    Option (ℤ × List Byte) :=
  if bit_address ≥ total_bits then some (-1, bm)
  else do
    let byte ← bm[bit_address / 8]?
    some (0, bm.set (bit_address / 8) (byteSetBits (bit_address % 8) 1 byte clear_or_set))

/-- `memset` on part of a buffer. -/
def memsetBytes (bm : List Byte) (location : ℕ) (v : Byte) (n : ℕ) : Option (List Byte) :=
  if location + n ≤ bm.length then some (fill bm location n v) else none

/-- The last part of `bm_set_extent`: fewer than 8 bits are left. -/
def setExtentTail (bm : List Byte) (location_in_map pending_bits : ℕ) (clear_or_set : ℤ) :
    Option (ℤ × List Byte) :=
  let extra_bits_to_mark := pending_bits % 8
  if extra_bits_to_mark > 1 then do
    let byte ← bm[location_in_map]?
    let bm' := bm.set location_in_map
      (byteSetBits 0 (toInt32 extra_bits_to_mark) byte clear_or_set)
    -- always so here: fewer than 8 bits were pending
    if pending_bits - extra_bits_to_mark = 0 then some (0, bm') else some (-2, bm')
  -- the single pending bit is left as it was
  else some (-2, bm)

/-- The middle part of `bm_set_extent`: whole bytes. -/
def setExtentBytes (bm : List Byte) (location_in_map pending_bits : ℕ) (clear_or_set : ℤ) :
    Option (ℤ × List Byte) :=
  let bytes_to_mark := pending_bits / 8
  if bytes_to_mark ≥ 1 then do
    let bytes_in_map := if clear_or_set = 0 then 0x00#8 else 0xff#8
    let bm' ← memsetBytes bm location_in_map bytes_in_map bytes_to_mark
    let pending := pending_bits - bytes_to_mark * 8
    -- with a tail of one bit this is where the extent loses it
    if pending = 0 then some (0, bm')
    else setExtentTail bm' (location_in_map + bytes_to_mark) pending clear_or_set
  else setExtentTail bm location_in_map pending_bits clear_or_set

/-- Set or clear the `num_bits_to_set` bits from `bit_address` on. -/
def bmSetExtent (bm : List Byte) (total_bits bit_address num_bits_to_set : ℕ)
    (clear_or_set : ℤ) : Option (ℤ × List Byte) :=
  if bit_address > total_bits ∨ u64 (bit_address + num_bits_to_set) > total_bits then
    some (-1, bm)
  else if num_bits_to_set = 1 then bmSetBit bm total_bits bit_address clear_or_set
  else
    let location_in_map := bit_address / 8
    let aligned_to_byte := bit_address % 8
    if aligned_to_byte ≠ 0 then do
      let byte ← bm[location_in_map]?
      let bits_to_mark_at_start :=
        if u64 (aligned_to_byte + num_bits_to_set) < 8 then num_bits_to_set
        else 8 - aligned_to_byte
      -- the count is converted to `int` here
      let bm' := bm.set location_in_map
        (byteSetBits aligned_to_byte (toInt32 bits_to_mark_at_start) byte clear_or_set)
      let pending := sub64 num_bits_to_set bits_to_mark_at_start
      if pending = 0 then some (0, bm')
      else setExtentBytes bm' (location_in_map + 1) pending clear_or_set
    else setExtentBytes bm location_in_map num_bits_to_set clear_or_set

/-! ## One byte -/

lemma getLsbD_maskLoop (n start : ℕ) (mask : Byte) {k : ℕ} (hk : k < 8) :
    (maskLoop n start mask).getLsbD k =
      (mask.getLsbD k || decide (start ≤ k ∧ k ≤ start + n)) := by
  induction n generalizing start mask with
  | zero =>
    rw [maskLoop, BitVec.getLsbD_or, BitVec.getLsbD_shiftLeft, BitVec.getLsbD_one]
    -- the mask gains bit `start`; every other bit is that of the old mask
    by_cases hs : k = start
    · simp [hs]; omega
    · have hiff : ¬ (start ≤ k ∧ k ≤ start + 0) := by omega
      rw [decide_eq_false hiff]
      by_cases hlt : k < start
      · simp [hlt]
      · have hne : k - start ≠ 0 := by omega
        simp [hne]
  | succ n ih =>
    rw [maskLoop, ih, BitVec.getLsbD_or, BitVec.getLsbD_shiftLeft, BitVec.getLsbD_one,
      Bool.or_assoc]
    congr 1
    by_cases hs : k = start
    · simp [hs]; omega
    · have hiff : (start + 1 ≤ k ∧ k ≤ start + 1 + n) ↔ (start ≤ k ∧ k ≤ start + (n + 1)) := by
        omega
      simp only [hiff]
      by_cases hlt : k < start
      · simp [hlt]
      · have hne : k - start ≠ 0 := by omega
        simp [hne]

/-- `byte_set_bits` gives the bits of `[start, start + numbits)` the requested value and
leaves the others. -/
lemma getLsbD_byteSetBits {start numbits : ℕ} (byte : Byte) (clear_or_set : ℤ)
    (hpos : 1 ≤ numbits) (hfit : start + numbits ≤ 8) {k : ℕ} (hk : k < 8) :
    (byteSetBits start numbits byte clear_or_set).getLsbD k =
      if start ≤ k ∧ k < start + numbits then decide (clear_or_set = 1)
      else byte.getLsbD k := by
  have hstop : ¬ ((start : ℤ) + (numbits : ℤ) > 8) := by omega
  have hmask : ∀ j < 8,
      (maskLoop ((start : ℤ) + (numbits : ℤ) - (start + 1)).toNat start 0#8).getLsbD j =
      decide (start ≤ j ∧ j < start + numbits) := by
    -- on the bits of the byte, `stop` is the end of the range
    intro j hj
    have hiff : (start ≤ j ∧ j ≤ start + ((start : ℤ) + (numbits : ℤ) - (start + 1)).toNat) ↔
        (start ≤ j ∧ j < start + numbits) := by omega
    simp only [getLsbD_maskLoop _ _ _ hj, BitVec.getLsbD_zero, Bool.false_or,
      decide_eq_decide.mpr hiff]
  unfold byteSetBits
  simp only [if_neg hstop]
  by_cases hset : clear_or_set = 1
  · rw [if_pos hset, BitVec.getLsbD_or, hmask k hk]
    by_cases hin : start ≤ k ∧ k < start + numbits
    · simp [hin, hset]
    · simp [hin]
  · rw [if_neg hset, BitVec.getLsbD_and, BitVec.getLsbD_not, hmask k hk]
    by_cases hin : start ≤ k ∧ k < start + numbits
    · simp [hin, hset]
    · simp [hin, hk]

/-- Storing the updated byte sets one range of the bitmap. -/
lemma setRange_byteSetBits {bm : List Byte} {i : ℕ} (start numbits : ℕ) (clear_or_set : ℤ)
    (hi : i < bm.length) (hpos : 1 ≤ numbits) (hfit : start + numbits ≤ 8) :
    SetRange bm (bm.set i (byteSetBits start (toInt32 numbits) bm[i] clear_or_set))
      (8 * i + start) (8 * i + (start + numbits)) (decide (clear_or_set = 1)) := by
  -- so few bits are the same number as an `int`
  rw [toInt32_of_lt (by omega)]
  apply SetRange.set hi hfit
  intro j hj
  rw [getLsbD_byteSetBits _ _ hpos hfit hj]
  simp [hi]

/-! ## One bit -/

/-- `bm_set_bit` sets exactly its bit, when the byte of the bit is there. -/
theorem bmSetBit_of_lt {bm : List Byte} {total_bits bit_address : ℕ} (clear_or_set : ℤ)
    (hin : bit_address < total_bits) (hlen : bit_address < 8 * bm.length) :
    ∃ bm', bmSetBit bm total_bits bit_address clear_or_set = some (0, bm') ∧
      SetRange bm bm' bit_address (bit_address + 1) (decide (clear_or_set = 1)) := by
  have hi : bit_address / 8 < bm.length := by omega
  -- the byte of the bit, with one bit replaced
  refine ⟨bm.set (bit_address / 8)
    (byteSetBits (bit_address % 8) 1 bm[bit_address / 8] clear_or_set), ?_, ?_⟩
  · rw [bmSetBit, if_neg (by omega), List.getElem?_eq_getElem hi]
    rfl
  · have hset := setRange_byteSetBits (bit_address % 8) 1 clear_or_set hi le_rfl (by omega)
    have hlo : 8 * (bit_address / 8) + bit_address % 8 = bit_address := by omega
    have hhi : 8 * (bit_address / 8) + (bit_address % 8 + 1) = bit_address + 1 := by omega
    rwa [hlo, hhi] at hset

/-- `bm_set_bit` inside the map sets exactly its bit. -/
theorem bmSetBit_spec (bm : List Byte) (total_bits bit_address : ℕ) (clear_or_set : ℤ)
    (hcov : total_bits ≤ 8 * bm.length) (hin : bit_address < total_bits) :
    ∃ bm', bmSetBit bm total_bits bit_address clear_or_set = some (0, bm') ∧
      SetRange bm bm' bit_address (bit_address + 1) (decide (clear_or_set = 1)) :=
  bmSetBit_of_lt clear_or_set hin (by omega)

/-- All that `bm_set_bit` can do: refuse an address beyond the map, or set one bit. -/
lemma bmSetBit_cases {bm bm' : List Byte} {total_bits bit_address : ℕ} {clear_or_set rc : ℤ}
    (h : bmSetBit bm total_bits bit_address clear_or_set = some (rc, bm')) :
    (total_bits ≤ bit_address ∧ bm' = bm) ∨
      (bit_address < total_bits ∧
        SetRange bm bm' bit_address (bit_address + 1) (decide (clear_or_set = 1))) := by
  by_cases hin : bit_address < total_bits
  · right
    by_cases hlen : bit_address < 8 * bm.length
    · rcases bmSetBit_of_lt clear_or_set hin hlen with ⟨bm₁, hset, hrange⟩
      rw [hset, Option.some.injEq, Prod.mk.injEq] at h
      exact ⟨hin, h.2 ▸ hrange⟩
    · -- without the byte there is no result
      rw [bmSetBit, if_neg (by omega), List.getElem?_eq_none (by omega)] at h
      simp at h
  · left
    rw [bmSetBit, if_pos (by omega), Option.some.injEq, Prod.mk.injEq] at h
    exact ⟨by omega, h.2.symm⟩

/-- The `n` calls `bm_set_bit(bm, total_bits, bit_address + i, clear_or_set)`,
`i = 0 .. n - 1`, one after the other. -/
def bmSetBits (bm : List Byte) (total_bits bit_address : ℕ) (clear_or_set : ℤ) :
    ℕ → Option (List Byte)
  | 0 => some bm
  | n + 1 => do
    let bm' ← bmSetBits bm total_bits bit_address clear_or_set n
    let r ← bmSetBit bm' total_bits (bit_address + n) clear_or_set
    some r.2

/-- The one-bit path sets the whole range. -/
theorem bmSetBits_spec (bm : List Byte) (total_bits bit_address : ℕ) (clear_or_set : ℤ) (n : ℕ)
    (hcov : total_bits ≤ 8 * bm.length) (hin : bit_address + n ≤ total_bits) :
    ∃ bm', bmSetBits bm total_bits bit_address clear_or_set n = some bm' ∧
      SetRange bm bm' bit_address (bit_address + n) (decide (clear_or_set = 1)) := by
  induction n with
  | zero => exact ⟨bm, rfl, SetRange.refl bm bit_address _⟩
  | succ n ih =>
    -- the calls so far set the range up to the next bit
    rcases ih (by omega) with ⟨bm', hbm', hrange⟩
    have hcov' : total_bits ≤ 8 * bm'.length := by rw [hrange.length_eq]; exact hcov
    obtain ⟨bm'', hbm'', hbit⟩ :=
      bmSetBit_spec bm' total_bits (bit_address + n) clear_or_set hcov' (by omega)
    refine ⟨bm'', ?_, hrange.trans hbit (by omega) (by omega)⟩
    simp [bmSetBits, hbm', hbm'']

/-! ## Extents -/

/-- How many bits of an extent `bm_set_extent` really sets: all of them, unless the tail
after the last whole byte is a single bit. -/
def markedBits (bit_address n : ℕ) : ℕ :=
  if n ≠ 1 ∧ (bit_address + n) % 8 = 1 then n - 1 else n

/-- The code it returns. -/
def extentCode (bit_address n : ℕ) : ℤ :=
  if n ≠ 1 ∧ (bit_address + n) % 8 = 1 then -2 else 0

lemma setExtentTail_spec (bm : List Byte) (location pending : ℕ) (clear_or_set : ℤ)
    (hpos : 1 ≤ pending) (hlt : pending < 8) (hcov : 8 * location + pending ≤ 8 * bm.length) :
    ∃ bm', setExtentTail bm location pending clear_or_set =
        some (if pending = 1 then -2 else 0, bm') ∧
      SetRange bm bm' (8 * location)
        (8 * location + if pending = 1 then 0 else pending) (decide (clear_or_set = 1)) := by
  have hmod : pending % 8 = pending := Nat.mod_eq_of_lt hlt
  -- a tail of one bit is skipped
  by_cases hone : pending = 1
  · refine ⟨bm, ?_, ?_⟩
    · simp [setExtentTail, hone]
    · rw [if_pos hone]
      exact SetRange.refl bm _ _
  · have hi : location < bm.length := by omega
    refine ⟨bm.set location (byteSetBits 0 (toInt32 pending) bm[location] clear_or_set), ?_, ?_⟩
    · simp only [setExtentTail, hmod, if_pos (show pending > 1 by omega),
        List.getElem?_eq_getElem hi, if_neg hone]
      simp
    · have hset := setRange_byteSetBits 0 pending clear_or_set hi hpos (by omega)
      rw [if_neg hone]
      simpa using hset

lemma setExtentBytes_spec (bm : List Byte) (location pending : ℕ) {clear_or_set : ℤ}
    (hcs : clear_or_set = 0 ∨ clear_or_set = 1) (hpos : 1 ≤ pending)
    (hcov : 8 * location + pending ≤ 8 * bm.length) :
    ∃ bm', setExtentBytes bm location pending clear_or_set =
        some (if pending % 8 = 1 then -2 else 0, bm') ∧
      SetRange bm bm' (8 * location)
        (8 * location + if pending % 8 = 1 then pending - 1 else pending)
        (decide (clear_or_set = 1)) := by
  by_cases hbytes : pending / 8 ≥ 1
  · -- whole bytes first, then the tail if there is one
    have hfit : location + pending / 8 ≤ bm.length := by omega
    let v : Byte := if clear_or_set = 0 then 0x00#8 else 0xff#8
    have hv : ∀ j < 8, v.getLsbD j = decide (clear_or_set = 1) := by
      rcases hcs with rfl | rfl <;> decide
    have hfill := SetRange.fill hfit hv
    -- the whole bytes end the extent, or a tail is left
    by_cases hdone : pending % 8 = 0
    · refine ⟨fill bm location (pending / 8) v, ?_, ?_⟩
      · have hsub : pending - pending / 8 * 8 = 0 := by omega
        simp only [setExtentBytes, if_pos hbytes, memsetBytes, if_pos hfit]
        simp [hsub, hdone, v]
      · have hend : 8 * (location + pending / 8) = 8 * location + pending := by omega
        rw [if_neg (by omega), ← hend]
        exact hfill
    · have hsub : pending - pending / 8 * 8 = pending % 8 := by omega
      obtain ⟨bm', hbm', htail⟩ := setExtentTail_spec (fill bm location (pending / 8) v)
        (location + pending / 8) (pending % 8) clear_or_set (by omega) (by omega)
        (by rw [length_fill]; omega)
      refine ⟨bm', ?_, ?_⟩
      · simp only [setExtentBytes, if_pos hbytes, memsetBytes, if_pos hfit]
        simpa [hsub, hdone] using hbm'
      · have hrange := hfill.trans htail (by omega) (by omega)
        convert hrange using 1
        split <;> omega
  · -- no whole byte: all of it is the tail
    have hlt : pending < 8 := by omega
    have hmod : pending % 8 = pending := Nat.mod_eq_of_lt hlt
    obtain ⟨bm', hbm', htail⟩ :=
      setExtentTail_spec bm location pending clear_or_set hpos hlt hcov
    refine ⟨bm', ?_, ?_⟩
    · simpa only [setExtentBytes, if_neg hbytes, hmod] using hbm'
    · convert htail using 1
      split <;> split <;> omega

/-- Behind the first byte, the marked bits are those of the rest of the extent. -/
lemma add_markedBits_of_head {bit_address n : ℕ} (hlong : 8 ≤ bit_address % 8 + n) :
    bit_address + markedBits bit_address n = 8 * (bit_address / 8 + 1) +
      if (n - (8 - bit_address % 8)) % 8 = 1 then n - (8 - bit_address % 8) - 1
      else n - (8 - bit_address % 8) := by
  have hmod : (n - (8 - bit_address % 8)) % 8 = (bit_address + n) % 8 := by omega
  rw [markedBits, hmod]
  split_ifs <;> omega

/-- What `bm_set_extent` does to a nonempty extent inside the map, for every alignment and
length: the first `markedBits` bits of the extent are set, nothing else changes. -/
theorem bmSetExtent_spec {bm : List Byte} {total_bits bit_address n : ℕ} {clear_or_set : ℤ}
    (hcov : total_bits ≤ 8 * bm.length) (h64 : total_bits < 2 ^ 64) (hpos : 1 ≤ n)
    (hin : bit_address + n ≤ total_bits) (hcs : clear_or_set = 0 ∨ clear_or_set = 1) :
    ∃ bm', bmSetExtent bm total_bits bit_address n clear_or_set =
        some (extentCode bit_address n, bm') ∧
      SetRange bm bm' bit_address (bit_address + markedBits bit_address n)
        (decide (clear_or_set = 1)) := by
  have hwrap : u64 (bit_address + n) = bit_address + n := u64_of_lt (by omega)
  have hargs : ¬ (bit_address > total_bits ∨ u64 (bit_address + n) > total_bits) := by omega
  unfold bmSetExtent
  rw [if_neg hargs]
  by_cases hone : n = 1
  · subst hone
    obtain ⟨bm', hbm', hbit⟩ :=
      bmSetBit_spec bm total_bits bit_address clear_or_set hcov (by omega)
    exact ⟨bm', by simpa [extentCode] using hbm', by simpa [markedBits] using hbit⟩
  rw [if_neg hone]
  by_cases haligned : bit_address % 8 = 0
  · -- no head
    obtain ⟨bm', hbm', hrange⟩ :=
      setExtentBytes_spec bm (bit_address / 8) n hcs hpos (by omega)
    have hloc : 8 * (bit_address / 8) = bit_address := by omega
    have hmod : n % 8 = (bit_address + n) % 8 := by omega
    refine ⟨bm', ?_, ?_⟩
    · simp only [haligned, ne_eq, not_true_eq_false, if_false, hbm']
      simp only [extentCode, ne_eq, hone, not_false_eq_true, true_and, hmod]
    · rw [hloc, hmod] at hrange
      simpa [markedBits, hone] using hrange
  · -- an unaligned extent: the head is the rest of the first byte
    have hi : bit_address / 8 < bm.length := by omega
    have hlo : 8 * (bit_address / 8) + bit_address % 8 = bit_address := by omega
    have hhead64 : u64 (bit_address % 8 + n) = bit_address % 8 + n := u64_of_lt (by omega)
    simp only [ne_eq, haligned, not_false_eq_true, if_true, List.getElem?_eq_getElem hi, hhead64,
      Option.bind_eq_bind, Option.bind_some]
    by_cases hshort : bit_address % 8 + n < 8
    · -- the extent ends inside its first byte
      have hsub : sub64 n n = 0 := by rw [sub64_of_le le_rfl (by omega)]; omega
      have hset := setRange_byteSetBits (bit_address % 8) n clear_or_set hi hpos (by omega)
      refine ⟨bm.set (bit_address / 8)
        (byteSetBits (bit_address % 8) (toInt32 n) bm[bit_address / 8] clear_or_set), ?_, ?_⟩
      · simp only [if_pos hshort, hsub, if_true]
        rw [extentCode, if_neg (by omega)]
      · rw [markedBits, if_neg (by omega)]
        rwa [hlo, show 8 * (bit_address / 8) + (bit_address % 8 + n) = bit_address + n by omega]
          at hset
    · -- the head fills the first byte; whole bytes and a tail may follow
      have hset := setRange_byteSetBits (bit_address % 8) (8 - bit_address % 8) clear_or_set hi
        (by omega) (by omega)
      have hsub : sub64 n (8 - bit_address % 8) = n - (8 - bit_address % 8) :=
        sub64_of_le (by omega) (by omega)
      rw [hlo, show 8 * (bit_address / 8) + (bit_address % 8 + (8 - bit_address % 8)) =
        8 * (bit_address / 8 + 1) by omega] at hset
      -- the head may be the whole extent
      by_cases hdone : n = 8 - bit_address % 8
      · refine ⟨bm.set (bit_address / 8)
          (byteSetBits (bit_address % 8) (toInt32 (8 - bit_address % 8)) bm[bit_address / 8]
            clear_or_set), ?_, ?_⟩
        · simp only [if_neg hshort, hsub, show n - (8 - bit_address % 8) = 0 by omega, if_true]
          rw [extentCode, if_neg (by omega)]
        · rw [markedBits, if_neg (by omega),
            show bit_address + n = 8 * (bit_address / 8 + 1) by omega]
          exact hset
      · obtain ⟨bm', hbm', hrange⟩ := setExtentBytes_spec
          (bm.set (bit_address / 8)
            (byteSetBits (bit_address % 8) (toInt32 (8 - bit_address % 8)) bm[bit_address / 8]
              clear_or_set))
          (bit_address / 8 + 1) (n - (8 - bit_address % 8)) hcs (by omega)
          (by rw [List.length_set]; omega)
        have hmod : (n - (8 - bit_address % 8)) % 8 = (bit_address + n) % 8 := by omega
        refine ⟨bm', ?_, ?_⟩
        · simp only [if_neg hshort, hsub, if_neg (show ¬ n - (8 - bit_address % 8) = 0 by omega),
            hbm', hmod]
          simp [extentCode, hone]
        · have hall := hset.trans hrange (by omega) (by omega)
          rwa [← add_markedBits_of_head (Nat.not_lt.mp hshort)] at hall

/-! ## The extent path against the one-bit path -/

/-- `bm_set_extent` returns 0 and leaves the bitmap that the `n` one-bit calls leave. -/
def SetExtentAgrees (bm : List Byte) (total_bits bit_address n : ℕ) (clear_or_set : ℤ) : Prop :=
  ∃ bm', bmSetExtent bm total_bits bit_address n clear_or_set = some (0, bm') ∧
    bmSetBits bm total_bits bit_address clear_or_set n = some bm'

/-- **The two paths agree** on a nonempty extent inside the map exactly when the extent is
one bit long or does not end one bit into a byte. -/
theorem setExtentAgrees_iff (bm : List Byte) (total_bits bit_address n : ℕ) (clear_or_set : ℤ)
    (hcov : total_bits ≤ 8 * bm.length) (h64 : total_bits < 2 ^ 64) (hpos : 1 ≤ n)
    (hin : bit_address + n ≤ total_bits) (hcs : clear_or_set = 0 ∨ clear_or_set = 1) :
    SetExtentAgrees bm total_bits bit_address n clear_or_set ↔
      n = 1 ∨ (bit_address + n) % 8 ≠ 1 := by
  rcases bmSetExtent_spec hcov h64 hpos hin hcs with ⟨bm₁, hext, hrange₁⟩
  rcases bmSetBits_spec bm total_bits bit_address clear_or_set n hcov hin with ⟨bm₂, hbits, hrange₂⟩
  constructor
  · -- an extent that loses its last bit ends with -2
    rintro ⟨bm', hret, -⟩
    by_contra hlost
    have hcode : extentCode bit_address n = -2 := if_pos (by omega)
    rw [hext, hcode] at hret
    simp at hret
  · -- otherwise both paths set the same range, and a range determines the buffer
    intro hkept
    have hnot : ¬ (n ≠ 1 ∧ (bit_address + n) % 8 = 1) := by omega
    rw [markedBits, if_neg hnot] at hrange₁
    have heq : bm₁ = bm₂ := hrange₁.unique hrange₂
    refine ⟨bm₁, ?_, ?_⟩
    · rw [hext, extentCode, if_neg hnot]
    · rw [hbits, heq]

/-- Five bits from bit 3 on, in a one-byte map. -/
theorem setExtentAgrees_byte : SetExtentAgrees [0x00#8] 8 3 5 1 :=
  (setExtentAgrees_iff [0x00#8] 8 3 5 1 (by decide) (by decide) (by decide) (by decide)
    (by decide)).mpr (by decide)

/-- Nine bits from bit 0 on: the ninth stays clear and the code is -2. -/
theorem setExtent_loses_last_bit : ¬ SetExtentAgrees [0x00#8, 0x00#8] 16 0 9 1 := by
  rintro ⟨bm', hret, -⟩
  have hcode : bmSetExtent [0x00#8, 0x00#8] 16 0 9 1 = some (-2, [0xff#8, 0x00#8]) := by decide
  rw [hcode] at hret
  simp at hret

/-! ## The frame -/

/-- Whatever code `bm_set_extent` returns, only bits of the extent differ afterwards. -/
def SetExtentFrame (bm : List Byte) (total_bits bit_address n : ℕ) (clear_or_set : ℤ) : Prop :=
  ∃ rc bm', bmSetExtent bm total_bits bit_address n clear_or_set = some (rc, bm') ∧
    bm'.length = bm.length ∧
    ∀ k, ¬ (bit_address ≤ k ∧ k < bit_address + n) → bitAt bm' k = bitAt bm k

/-- The do-while loop marks a bit also where it is asked for none. -/
lemma byteSetBits_zero {start : ℕ} (hstart : start < 8) (byte : Byte) (clear_or_set : ℤ) :
    byteSetBits start (toInt32 0) byte clear_or_set =
      byteSetBits start 1 byte clear_or_set := by
  have hnone : toInt32 0 = 0 := toInt32_of_lt (by decide)
  have hzero : ¬ (start : ℤ) + 0 > 8 := by omega
  have hone : ¬ (start : ℤ) + 1 > 8 := by omega
  have hrounds : ((start : ℤ) + 0 - (start + 1)).toNat = ((start : ℤ) + 1 - (start + 1)).toNat := by
    omega
  simp only [byteSetBits, hnone, if_neg hzero, if_neg hone, hrounds]

/-- An extent of no bits that starts on a byte boundary is refused at the end. -/
lemma bmSetExtent_zero_aligned {bm : List Byte} {total_bits bit_address : ℕ} (clear_or_set : ℤ)
    (h64 : total_bits < 2 ^ 64) (hin : bit_address ≤ total_bits) (haligned : bit_address % 8 = 0) :
    bmSetExtent bm total_bits bit_address 0 clear_or_set = some (-2, bm) := by
  have hargs : ¬ (bit_address > total_bits ∨ u64 (bit_address + 0) > total_bits) := by
    rw [u64_of_lt (by omega)]
    omega
  rw [bmSetExtent, if_neg hargs, if_neg Nat.zero_ne_one]
  simp [haligned, setExtentBytes, setExtentTail]

/-- Any other extent of no bits is treated as one bit long. -/
lemma bmSetExtent_zero_unaligned {bm : List Byte} {total_bits bit_address : ℕ} (clear_or_set : ℤ)
    (hcov : total_bits ≤ 8 * bm.length) (h64 : total_bits < 2 ^ 64)
    (hin : bit_address ≤ total_bits) (haligned : bit_address % 8 ≠ 0) :
    ∃ bm', bmSetExtent bm total_bits bit_address 0 clear_or_set = some (0, bm') ∧
      SetRange bm bm' bit_address (bit_address + 1) (decide (clear_or_set = 1)) := by
  have hargs : ¬ (bit_address > total_bits ∨ u64 (bit_address + 0) > total_bits) := by
    rw [u64_of_lt (by omega)]
    omega
  have hi : bit_address / 8 < bm.length := by omega
  have hhead : u64 (bit_address % 8 + 0) < 8 := by
    rw [u64_of_lt (by omega)]
    omega
  have hpending : sub64 0 0 = 0 := rfl
  refine ⟨bm.set (bit_address / 8)
    (byteSetBits (bit_address % 8) 1 bm[bit_address / 8] clear_or_set), ?_, ?_⟩
  · rw [bmSetExtent, if_neg hargs, if_neg Nat.zero_ne_one]
    simp only [if_pos haligned, List.getElem?_eq_getElem hi, Option.bind_eq_bind, Option.bind_some,
      if_pos hhead, hpending, if_true, byteSetBits_zero (Nat.mod_lt _ (by decide))]
  · have hset := setRange_byteSetBits (bit_address % 8) 1 clear_or_set hi le_rfl (by omega)
    have hlo : 8 * (bit_address / 8) + bit_address % 8 = bit_address := by omega
    have hhi : 8 * (bit_address / 8) + (bit_address % 8 + 1) = bit_address + 1 := by omega
    rwa [hlo, hhi] at hset

/-- The one bit that is marked is not in the extent: it must have the value already. -/
lemma setExtentFrame_unaligned {bm : List Byte} {total_bits bit_address : ℕ} {clear_or_set : ℤ}
    (hcov : total_bits ≤ 8 * bm.length) (h64 : total_bits < 2 ^ 64)
    (hin : bit_address ≤ total_bits) (haligned : bit_address % 8 ≠ 0) :
    SetExtentFrame bm total_bits bit_address 0 clear_or_set ↔
      bitAt bm bit_address = decide (clear_or_set = 1) := by
  obtain ⟨bm', hret, hrange⟩ := bmSetExtent_zero_unaligned clear_or_set hcov h64 hin haligned
  constructor
  · rintro ⟨rc, bm₁, hret₁, -, hframe⟩
    obtain rfl : bm' = bm₁ := by
      rw [hret, Option.some.injEq, Prod.mk.injEq] at hret₁
      exact hret₁.2
    have hbit := hrange.bit bit_address
    rw [if_pos (by omega)] at hbit
    exact (hframe bit_address (by omega)).symm.trans hbit
  · intro hsame
    refine ⟨0, bm', hret, hrange.length_eq, ?_⟩
    intro k _
    rw [hrange.bit k]
    split_ifs with hk
    · obtain rfl : k = bit_address := by omega
      exact hsame.symm
    · rfl

/-- Of a nonempty extent at most its own bits are marked. -/
lemma setExtentFrame_pos {bm : List Byte} {total_bits bit_address n : ℕ} {clear_or_set : ℤ}
    (hcov : total_bits ≤ 8 * bm.length) (h64 : total_bits < 2 ^ 64) (hpos : 1 ≤ n)
    (hin : bit_address + n ≤ total_bits) (hcs : clear_or_set = 0 ∨ clear_or_set = 1) :
    SetExtentFrame bm total_bits bit_address n clear_or_set := by
  obtain ⟨bm', hret, hrange⟩ := bmSetExtent_spec hcov h64 hpos hin hcs
  have hmarked : markedBits bit_address n ≤ n := by
    unfold markedBits
    split <;> omega
  refine ⟨_, bm', hret, hrange.length_eq, ?_⟩
  intro k hk
  rw [hrange.bit k, if_neg (by omega)]

/-- **Nothing outside the extent changes**, exactly when the extent has a bit, starts on a byte
boundary, or would start with a bit that has the value already. -/
theorem setExtentFrame_iff (bm : List Byte) (total_bits bit_address n : ℕ) (clear_or_set : ℤ)
    (hcov : total_bits ≤ 8 * bm.length) (h64 : total_bits < 2 ^ 64)
    (hin : bit_address + n ≤ total_bits) (hcs : clear_or_set = 0 ∨ clear_or_set = 1) :
    SetExtentFrame bm total_bits bit_address n clear_or_set ↔
      n ≠ 0 ∨ bit_address % 8 = 0 ∨ bitAt bm bit_address = decide (clear_or_set = 1) := by
  rcases Nat.eq_zero_or_pos n with rfl | hpos
  · rw [Nat.add_zero] at hin
    by_cases haligned : bit_address % 8 = 0
    · have hret : bmSetExtent bm total_bits bit_address 0 clear_or_set = some (-2, bm) :=
        bmSetExtent_zero_aligned clear_or_set h64 hin haligned
      exact ⟨fun _ => .inr (.inl haligned), fun _ => ⟨-2, bm, hret, rfl, fun _ _ => rfl⟩⟩
    · rw [setExtentFrame_unaligned hcov h64 hin haligned]
      simp [haligned]
  · have hframe := setExtentFrame_pos hcov h64 hpos hin hcs
    exact ⟨fun _ => .inl (by omega), fun _ => hframe⟩

/-- Seven bits from bit 3 on, which end in the second byte. -/
theorem setExtentFrame_across : SetExtentFrame [0x00#8, 0x00#8] 16 3 7 1 :=
  (setExtentFrame_iff [0x00#8, 0x00#8] 16 3 7 1 (by decide) (by decide) (by decide)
    (by decide)).mpr (by decide)

/-- No bits from bit 3 on: bit 3 is set all the same. -/
theorem setExtent_marks_empty : ¬ SetExtentFrame [0x00#8] 8 3 0 1 := by
  rintro ⟨rc, bm', hret, -, hframe⟩
  have hcode : bmSetExtent [0x00#8] 8 3 0 1 = some (0, [0x08#8]) := by decide
  rw [hcode, Option.some.injEq, Prod.mk.injEq] at hret
  have hbit := hframe 3 (by omega)
  rw [← hret.2] at hbit
  revert hbit
  decide

end KanekFs.Map
