import KanekFs.Lib.Bytes
import KanekFs.Lib.Word
import Mathlib.Algebra.BigOperators.Intervals
import Mathlib.Data.Nat.Find

/-!
# Finding a gap in a bitmap

`byte_find_gap` and `bm_find` of `map.c`. `bm_find` looks for `gap_size` consecutive clear
bits, one byte at a time: a byte may hold the whole gap, or end in clear bits that the next
byte is expected to continue.

* `byteScan` says what one call of `byte_find_gap` reports about byte `j` of the map.
* `Carried s j n` is the state in which the scan enters byte `j`: a gap has been open since
  byte `s` and `n` bits are still missing. `carried_iff` describes it by the bits alone.
* `findLoop_eq_iff` is the run of the loop: the scan ends with 0 at the first byte that
  holds the missing number of clear bits *anywhere*.
* `findSound_iff` says exactly when the address it reports is a gap inside the window.
* `bmFind_one` is the search for a single clear bit, and `bmFind_one_all` that of a whole map, as
  the slot map is searched.
-/

namespace KanekFs.Map

open Bytes Word

/-! ## Definitions -/

/-- The loop of `byte_find_gap`, `n` bits before the end of the byte. The result is the
return code and `*count`. -/
def findGapLoop (numbits : ℤ) (byte : Byte) : ℕ → ℕ → Bool → ℕ → ℕ → ℤ × ℕ
  | 0, _, false, count, _ => (-1, count)
  | 0, _, true, count, _ => (-2, count)
  | n + 1, start, _, count, gap_index =>
    if (1#8 <<< start) &&& byte ≠ 0#8 then
      findGapLoop numbits byte n (start + 1) false 0 (start + 1)
    else if ((count + 1 : ℕ) : ℤ) = numbits then (gap_index, count + 1)
    else findGapLoop numbits byte n (start + 1) true (count + 1) gap_index

/-- Look for `numbits` clear bits in a byte, from bit `start` on. -/
def byteFindGap (start : ℕ) (numbits : ℤ) (byte : Byte) : ℤ × ℕ :=
  findGapLoop numbits byte (8 - start) start false 0 start

/-- The locals of `bm_find` that its loop updates, with `*found_address`. -/
structure FindSt where
  location_in_map : ℕ
  aligned_to_byte : ℕ
  count : ℕ
  updated_gap_size : ℕ
  may_have_a_large_gap : Bool
  found_address : ℕ

/-- The loop of `bm_find` over the bytes from `location_in_map` on. Reading past the last
byte has no result. -/
def findLoop (gap_size : ℕ) : List Byte → FindSt → Option (ℤ × ℕ)
  | [], _ => none
  | byte :: rest, s =>
    let r := byteFindGap s.aligned_to_byte (toInt32 s.updated_gap_size) byte
    let count := if 8 - s.aligned_to_byte > s.count then 0 else s.count - (8 - s.aligned_to_byte)
    let next := { s with count := count, aligned_to_byte := 0,
                         location_in_map := s.location_in_map + 1 }
    if 0 ≤ r.1 then
      -- the missing bits are in this byte, at any place
      if s.may_have_a_large_gap = false then
        some (0, u64 (s.location_in_map * 8 + r.1.toNat))
      else
        -- an open gap is taken to go on here, wherever the bits were found
        let updated := sub64 s.updated_gap_size r.2
        if updated = 0 then some (0, s.found_address)
        else findLoop gap_size rest { next with updated_gap_size := updated }
    else if r.1 = -1 then
      -- the byte ends in a set bit: what was open is given up
      if gap_size > count ∨ count = 0 then some (-1, 0)
      else findLoop gap_size rest
        { next with updated_gap_size := gap_size, may_have_a_large_gap := false }
    else
      -- the byte ends in clear bits: they open a gap, or are taken to continue one
      let found_address :=
        if s.may_have_a_large_gap = false then sub64 (u64 ((s.location_in_map + 1) * 8)) r.2
        else s.found_address
      findLoop gap_size rest
        { next with updated_gap_size := sub64 s.updated_gap_size r.2,
                    may_have_a_large_gap := true, found_address := found_address }

/-- `bm_find`; `found_address` is what `*found_address` holds at the call. -/
def bmFind (bm : List Byte) (total_bits bit_address count gap_size found_address : ℕ) :
    Option (ℤ × ℕ) :=
  if bit_address ≥ total_bits ∨ gap_size = 0 ∨ count = 0 ∨ gap_size > count then some (-1, 0)
  else
    let count := if u64 (bit_address + count) > total_bits then total_bits - bit_address else count
    findLoop gap_size (bm.drop (bit_address / 8))
      { location_in_map := bit_address / 8
        aligned_to_byte := bit_address % 8
        count := count
        updated_gap_size := gap_size
        may_have_a_large_gap := false
        found_address := found_address }

/-! ## One byte -/

/-- The `n` bits of a byte from `g` on are clear. -/
def ZeroRun (byte : Byte) (g n : ℕ) : Prop :=
  ∀ i, g ≤ i → i < g + n → byte.getLsbD i = false

/-- No `k` clear bits lie together inside `[lo, hi)`. -/
def NoRun (byte : Byte) (lo hi k : ℕ) : Prop :=
  ∀ g, lo ≤ g → g + k ≤ hi → ¬ ZeroRun byte g k

/-- What the three return codes of `byte_find_gap` mean. -/
inductive GapResult (byte : Byte) (start k : ℕ) : ℤ × ℕ → Prop
  | found (g : ℕ) (hlo : start ≤ g) (hhi : g + k ≤ 8) (hrun : ZeroRun byte g k)
      (hfirst : ∀ g', start ≤ g' → g' < g → ¬ ZeroRun byte g' k) :
      GapResult byte start k (g, k)
  | none (hno : NoRun byte start 8 k) (hlast : byte.getLsbD 7 = true) :
      GapResult byte start k (-1, 0)
  | tail (c : ℕ) (hno : NoRun byte start 8 k) (hpos : 0 < c) (hfit : start + c ≤ 8)
      (hrun : ZeroRun byte (8 - c) c)
      (hmax : start + c = 8 ∨ byte.getLsbD (8 - c - 1) = true) :
      GapResult byte start k (-2, c)

lemma mask_ne_zero_iff (byte : Byte) {start : ℕ} (h : start < 8) :
    (1#8 <<< start) &&& byte ≠ 0#8 ↔ byte.getLsbD start = true := by
  have hbit : ((1#8 <<< start) &&& byte).getLsbD start = byte.getLsbD start := by
    simp [h]
  constructor
  · intro hne
    -- only bit `start` of the mask is set
    by_contra hclear
    apply hne
    apply BitVec.eq_of_getLsbD_eq
    intro i hi
    rw [BitVec.getLsbD_and, BitVec.getLsbD_shiftLeft, BitVec.getLsbD_one, BitVec.getLsbD_zero]
    by_cases hi' : i = start
    · subst hi'
      simp [hclear]
    · by_cases hlt : i < start
      · simp [hlt]
      · have hsub : i - start ≠ 0 := by omega
        simp [hsub]
  · intro hset hzero
    rw [hzero, hset] at hbit
    simp at hbit

/-- The invariant of the loop: `c` clear bits stand right before bit `p`, they are all that
are there, and no run of `k` lies before `p`. -/
lemma findGapLoop_spec {byte : Byte} {start k : ℕ} (hstart : start < 8) (hk : 1 ≤ k) (n p c : ℕ)
    (hend : p + n = 8) (hfit : start + c ≤ p) (hlt : c < k) (hrun : ZeroRun byte (p - c) c)
    (hmax : start + c = p ∨ byte.getLsbD (p - c - 1) = true) (hno : NoRun byte start p k) :
    GapResult byte start k (findGapLoop k byte n p (decide (0 < c)) c (p - c)) := by
  induction n generalizing p c with
  | zero =>
    have hp : p = 8 := by omega
    subst hp
    -- the end of the byte: the bits counted last are its tail
    by_cases hc : c = 0
    · subst hc
      have hlast : byte.getLsbD 7 = true := by
        rcases hmax with h | h
        · omega
        · simpa using h
      exact GapResult.none hno hlast
    · have hpos : 0 < c := by omega
      simp only [findGapLoop, hpos, decide_true]
      exact GapResult.tail c hno hpos hfit hrun hmax
  | succ n ih =>
    have hp : p < 8 := by omega
    rw [findGapLoop]
    by_cases hset : byte.getLsbD p = true
    · -- a set bit: start over behind it
      rw [if_pos ((mask_ne_zero_iff byte hp).mpr hset)]
      refine ih (p + 1) 0 (by omega) (by omega) (by omega) ?_ ?_ ?_
      · intro i h₁ h₂
        omega
      · exact Or.inr (by simpa using hset)
      · intro g hg hgk hz
        by_cases hlast : g + k ≤ p
        · exact hno g hg hlast hz
        · have hclear := hz p (by omega) (by omega)
          rw [hset] at hclear
          simp at hclear
    · -- a clear bit: the run before it grows by one
      have hclear : byte.getLsbD p = false := by simpa using hset
      have hrun' : ZeroRun byte (p - c) (c + 1) := by
        intro i h₁ h₂
        by_cases hi : i = p
        · rw [hi, hclear]
        · exact hrun i h₁ (by omega)
      rw [if_neg (fun h => hset ((mask_ne_zero_iff byte hp).mp h))]
      by_cases hdone : c + 1 = k
      · -- the gap is complete
        rw [if_pos (by exact_mod_cast hdone), hdone]
        rw [hdone] at hrun'
        refine GapResult.found (p - c) (by omega) (by omega) hrun' ?_
        intro g' hg' hlt'
        exact hno g' hg' (by omega)
      · rw [if_neg (by exact_mod_cast hdone)]
        have hsub : p - c = (p + 1) - (c + 1) := by omega
        have hpos : decide (0 < c + 1) = true := by simp
        rw [hsub, ← hpos]
        refine ih (p + 1) (c + 1) (by omega) (by omega) (by omega) ?_ ?_ ?_
        · rwa [← hsub]
        · rcases hmax with h | h
          · exact Or.inl (by omega)
          · exact Or.inr (by rwa [← hsub])
        · intro g hg hgk hz
          by_cases hlast : g + k ≤ p
          · exact hno g hg hlast hz
          · -- a run of `k` bits that ends here would contain the set bit in front of the run
            rcases hmax with h | h
            · omega
            · have hcl := hz (p - c - 1) (by omega) (by omega)
              rw [h] at hcl
              simp at hcl

lemma byteFindGap_spec (byte : Byte) (start : ℕ) {k : ℕ} (hstart : start < 8) (hk : 1 ≤ k) :
    GapResult byte start k (byteFindGap start k byte) := by
  refine findGapLoop_spec hstart hk (8 - start) start 0 (by omega) (by omega) (by omega) ?_ ?_ ?_
  · intro i h₁ h₂
    omega
  · exact Or.inl rfl
  · intro g hg hgk
    omega

/-! ## One byte of the map -/

/-- The `n` bits of the map from `p` on are clear. -/
def ClearBits (bm : List Byte) (p n : ℕ) : Prop :=
  ∀ i, p ≤ i → i < p + n → bitAt bm i = false

instance (bm : List Byte) (p n : ℕ) : Decidable (ClearBits bm p n) :=
  inferInstanceAs (Decidable (∀ i, p ≤ i → i < p + n → bitAt bm i = false))

/-- Where the scan of byte `j` starts: bits before `bit_address` are not looked at. -/
def scanStart (bit_address j : ℕ) : ℕ := max (8 * j) bit_address

/-- Byte `j` holds `n` consecutive clear bits, at any place. -/
def HasRun (bm : List Byte) (bit_address j n : ℕ) : Prop :=
  ∃ g, scanStart bit_address j ≤ g ∧ g + n ≤ 8 * (j + 1) ∧ ClearBits bm g n

/-- The number of clear bits at the end of byte `j`. -/
def tailLen (bm : List Byte) (bit_address j : ℕ) : ℕ :=
  Nat.findGreatest (fun c => ClearBits bm (8 * (j + 1) - c) c)
    (8 * (j + 1) - scanStart bit_address j)

/-- The first place in byte `j` where `n` clear bits start. -/
structure FirstRun (bm : List Byte) (bit_address j n addr : ℕ) : Prop where
  lo : scanStart bit_address j ≤ addr
  hi : addr + n ≤ 8 * (j + 1)
  clear : ClearBits bm addr n
  first : ∀ g, scanStart bit_address j ≤ g → g < addr → ¬ ClearBits bm g n

section Byte

variable {bm : List Byte} {bit_address j n : ℕ}

lemma ClearBits.mono {p p' n' : ℕ} (h : ClearBits bm p n) (hp : p ≤ p')
    (hn : p' + n' ≤ p + n) : ClearBits bm p' n' :=
  fun i h₁ h₂ => h i (by omega) (by omega)

lemma le_scanStart (bit_address j : ℕ) : 8 * j ≤ scanStart bit_address j := le_max_left _ _

lemma scanStart_lt (h : bit_address / 8 ≤ j) : scanStart bit_address j < 8 * (j + 1) := by
  unfold scanStart
  omega

lemma scanStart_of_lt (h : bit_address / 8 < j) : scanStart bit_address j = 8 * j := by
  unfold scanStart
  omega

lemma scanStart_div : scanStart bit_address (bit_address / 8) = bit_address := by
  unfold scanStart
  omega

/-- Behind a byte, what is left to search is the distance to the end of the window. -/
lemma count_next (h : bit_address / 8 ≤ j) (stop : ℕ) :
    (if 8 - (scanStart bit_address j - 8 * j) > stop - scanStart bit_address j then 0
      else stop - scanStart bit_address j - (8 - (scanStart bit_address j - 8 * j))) =
      stop - scanStart bit_address (j + 1) := by
  have hlo := le_scanStart bit_address j
  have hhi := scanStart_lt h
  rw [scanStart_of_lt (Nat.lt_succ_of_le h)]
  split <;> omega

lemma tailLen_le (bm : List Byte) (bit_address j : ℕ) :
    tailLen bm bit_address j ≤ 8 * (j + 1) - scanStart bit_address j :=
  Nat.findGreatest_le _

/-- The tail is a run of clear bits. -/
lemma clearBits_tailLen (bm : List Byte) (bit_address j : ℕ) :
    ClearBits bm (8 * (j + 1) - tailLen bm bit_address j) (tailLen bm bit_address j) :=
  Nat.findGreatest_spec (P := fun c => ClearBits bm (8 * (j + 1) - c) c) (Nat.zero_le _)
    fun i h₁ h₂ => absurd h₂ (by omega)

lemma le_tailLen {c : ℕ} (hle : c ≤ 8 * (j + 1) - scanStart bit_address j)
    (hclear : ClearBits bm (8 * (j + 1) - c) c) : c ≤ tailLen bm bit_address j :=
  Nat.le_findGreatest hle hclear

/-- A run at the end of the byte that cannot be extended is the tail. -/
lemma tailLen_eq {c : ℕ} (hle : c ≤ 8 * (j + 1) - scanStart bit_address j)
    (hclear : ClearBits bm (8 * (j + 1) - c) c)
    (hmax : c = 8 * (j + 1) - scanStart bit_address j ∨ bitAt bm (8 * (j + 1) - c - 1) = true) :
    tailLen bm bit_address j = c := by
  have hge := le_tailLen hle hclear
  have hbound := tailLen_le bm bit_address j
  rcases hmax with h | h
  · omega
  · by_contra hne
    have hset := clearBits_tailLen bm bit_address j (8 * (j + 1) - c - 1) (by omega) (by omega)
    rw [h] at hset
    simp at hset

/-- A byte without a run of `n` clear bits has fewer than `n` at its end. -/
lemma tailLen_lt_of_not_hasRun (hj : bit_address / 8 ≤ j) (hno : ¬ HasRun bm bit_address j n) :
    tailLen bm bit_address j < n := by
  by_contra hge
  have hbound := tailLen_le bm bit_address j
  have hstart := scanStart_lt hj
  apply hno
  refine ⟨8 * (j + 1) - n, by omega, by omega, ?_⟩
  exact (clearBits_tailLen bm bit_address j).mono (by omega) (by omega)

/-- A byte all of whose bits are clear. -/
lemma tailLen_eq_eight (hj : scanStart bit_address j = 8 * j) (hclear : ClearBits bm (8 * j) 8) :
    tailLen bm bit_address j = 8 := by
  apply tailLen_eq
  · omega
  · rwa [show 8 * (j + 1) - 8 = 8 * j by omega]
  · omega

lemma zeroRun_iff {g : ℕ} (hj : j < bm.length) (hg : g + n ≤ 8) :
    ZeroRun bm[j] g n ↔ ClearBits bm (8 * j + g) n := by
  constructor
  · intro h i h₁ h₂
    have hi := h (i - 8 * j) (by omega) (by omega)
    rwa [← bitAt_getElem hj (by omega), show 8 * j + (i - 8 * j) = i by omega] at hi
  · intro h i h₁ h₂
    rw [← bitAt_getElem hj (show i < 8 by omega)]
    exact h (8 * j + i) (by omega) (by omega)

end Byte

/-- What `byte_find_gap` reports about byte `j` when `k` clear bits are wanted. -/
inductive ByteScan (bm : List Byte) (bit_address j k : ℕ) : ℤ × ℕ → Prop
  | hit (addr : ℕ) (hrun : FirstRun bm bit_address j k addr) :
      ByteScan bm bit_address j k ((addr - 8 * j : ℕ), k)
  | reset (hno : ¬ HasRun bm bit_address j k) (htail : tailLen bm bit_address j = 0) :
      ByteScan bm bit_address j k (-1, 0)
  | carry (hno : ¬ HasRun bm bit_address j k) (htail : 0 < tailLen bm bit_address j) :
      ByteScan bm bit_address j k (-2, tailLen bm bit_address j)

theorem byteScan {bm : List Byte} {bit_address j k : ℕ} (hj : j < bm.length)
    (hfirst : bit_address / 8 ≤ j) (hk : 1 ≤ k) :
    ByteScan bm bit_address j k
      (byteFindGap (scanStart bit_address j - 8 * j) k bm[j]) := by
  have hlo := le_scanStart bit_address j
  have hhi := scanStart_lt hfirst
  have hno_iff : NoRun bm[j] (scanStart bit_address j - 8 * j) 8 k →
      ¬ HasRun bm bit_address j k := by
    -- a run of the map inside byte `j` is a run of the byte
    rintro hno ⟨g, hg, hgk, hclear⟩
    apply hno (g - 8 * j) (by omega) (by omega)
    rw [zeroRun_iff hj (by omega)]
    rwa [show 8 * j + (g - 8 * j) = g by omega]
  generalize hr : byteFindGap (scanStart bit_address j - 8 * j) k bm[j] = r
  have hspec := byteFindGap_spec bm[j] (scanStart bit_address j - 8 * j) (by omega) hk
  rw [hr] at hspec
  cases hspec with
  | found g hg hgk hrun hmin =>
    have hscan : ByteScan bm bit_address j k ((8 * j + g - 8 * j : ℕ), k) := ByteScan.hit
      (8 * j + g)
      { lo := by omega
        hi := by omega
        clear := (zeroRun_iff hj hgk).mp hrun
        first := by
          intro g' hg' hlt hclear
          apply hmin (g' - 8 * j) (by omega) (by omega)
          rw [zeroRun_iff hj (by omega)]
          rwa [show 8 * j + (g' - 8 * j) = g' by omega] }
    rwa [show 8 * j + g - 8 * j = g by omega] at hscan
  | none hno hlast =>
    refine ByteScan.reset (hno_iff hno) ?_
    apply tailLen_eq (Nat.zero_le _)
    · intro i h₁ h₂
      omega
    · -- bit 7 is set, so nothing is open at the end of the byte
      right
      rw [show 8 * (j + 1) - 0 - 1 = 8 * j + 7 by omega, bitAt_getElem hj (by decide), hlast]
  | tail c hno hpos hfit hrun hmax =>
    have htail : tailLen bm bit_address j = c := by
      apply tailLen_eq (by omega)
      · have hclear := (zeroRun_iff hj (by omega)).mp hrun
        rwa [show 8 * j + (8 - c) = 8 * (j + 1) - c by omega] at hclear
      · -- the tail stops at the start of the scan, or at a set bit
        by_cases hall : scanStart bit_address j - 8 * j + c = 8
        · left
          omega
        · right
          have hset := hmax.resolve_left hall
          rw [← bitAt_getElem hj (show 8 - c - 1 < 8 by omega)] at hset
          rwa [show 8 * (j + 1) - c - 1 = 8 * j + (8 - c - 1) by omega]
    have hscan : ByteScan bm bit_address j k (-2, tailLen bm bit_address j) :=
      ByteScan.carry (hno_iff hno) (by omega)
    rwa [htail] at hscan

/-! ## The scan -/

section Scan

variable (bm : List Byte) (bit_address gap_size stop : ℕ)

/-- The scan enters byte `j` with a gap open since byte `s` (`s = j`: none is open) and `n`
bits still missing. `stop` is the end of the window. -/
inductive Carried : ℕ → ℕ → ℕ → Prop
  | start : Carried (bit_address / 8) (bit_address / 8) gap_size
  | reset {s j n : ℕ} (h : Carried s j n) (hno : ¬ HasRun bm bit_address j n)
      (htail : tailLen bm bit_address j = 0) (hroom : 8 * (j + 1) + gap_size ≤ stop) :
      Carried (j + 1) (j + 1) gap_size
  | carry {s j n : ℕ} (h : Carried s j n) (hno : ¬ HasRun bm bit_address j n)
      (htail : 0 < tailLen bm bit_address j) :
      Carried s (j + 1) (n - tailLen bm bit_address j)

/-- The address reported when byte `j` holds the missing bits. -/
def ScanAddr (s j n addr : ℕ) : Prop :=
  if s = j then FirstRun bm bit_address j n addr
  else addr = 8 * (s + 1) - tailLen bm bit_address s

variable {bm bit_address gap_size stop}

lemma Carried.le {s j n : ℕ} (h : Carried bm bit_address gap_size stop s j n) :
    bit_address / 8 ≤ s ∧ s ≤ j := by
  induction h with
  | start => exact ⟨le_rfl, le_rfl⟩
  | reset h hno htail hroom ih => exact ⟨by omega, le_rfl⟩
  | carry h hno htail ih => exact ⟨ih.1, by omega⟩

lemma Carried.missing_pos {s j n : ℕ} (hgap : 1 ≤ gap_size)
    (h : Carried bm bit_address gap_size stop s j n) : 1 ≤ n ∧ n ≤ gap_size := by
  induction h with
  | start => exact ⟨hgap, le_rfl⟩
  | reset h hno htail hroom ih => exact ⟨hgap, le_rfl⟩
  | carry h hno htail ih =>
    have hle := h.le
    have hlt := tailLen_lt_of_not_hasRun (by omega) hno
    omega

/-- Where no gap is open there is room for a whole one, and everything is still missing. -/
lemma Carried.fresh {s j n : ℕ} (h : Carried bm bit_address gap_size stop s j n) (hs : s = j) :
    n = gap_size ∧ (s = bit_address / 8 ∨ 8 * s + gap_size ≤ stop) := by
  induction h with
  | start => exact ⟨rfl, Or.inl rfl⟩
  | reset h hno htail hroom ih => exact ⟨rfl, Or.inr hroom⟩
  | carry h hno htail ih =>
    have hle := h.le
    omega

/-- The state in which the scan enters a byte is unique. -/
lemma Carried.unique {s j n s' n' : ℕ} (h : Carried bm bit_address gap_size stop s j n)
    (h' : Carried bm bit_address gap_size stop s' j n') : s = s' ∧ n = n' := by
  induction h generalizing s' n' with
  | start =>
    -- the scan never returns to the byte it started in
    generalize hj : bit_address / 8 = j at h'
    cases h' with
    | start => exact ⟨hj, rfl⟩
    | reset h hno htail hroom =>
      have hle := h.le
      omega
    | carry h hno htail =>
      have hle := h.le
      omega
  | @reset s₀ j n₀ h hno htail hroom ih =>
    -- the tail of byte `j` decides which of the two rules applied
    generalize hj : j + 1 = j' at h'
    cases h' with
    | start =>
      have hle := h.le
      omega
    | reset h' hno' htail' hroom' => exact ⟨by omega, rfl⟩
    | @carry s₁ j₁ n₁ h' hno' htail' =>
      obtain rfl : j = j₁ := by omega
      omega
  | @carry s₀ j n₀ h hno htail ih =>
    generalize hj : j + 1 = j' at h'
    cases h' with
    | start =>
      have hle := h.le
      omega
    | @reset s₁ j₁ n₁ h' hno' htail' hroom' =>
      obtain rfl : j = j₁ := by omega
      omega
    | @carry s₁ j₁ n₁ h' hno' htail' =>
      obtain rfl : j = j₁ := by omega
      rcases ih h' with ⟨rfl, rfl⟩
      exact ⟨rfl, rfl⟩

/-- A scan that enters byte `j` went through every earlier byte without stopping there. -/
lemma Carried.through {s j n i : ℕ} (h : Carried bm bit_address gap_size stop s j n)
    (hlo : bit_address / 8 ≤ i) (hi : i < j) :
    ∃ s' n', Carried bm bit_address gap_size stop s' i n' ∧ ¬ HasRun bm bit_address i n' ∧
      (tailLen bm bit_address i = 0 → 8 * (i + 1) + gap_size ≤ stop) := by
  induction h with
  | start => omega
  | @reset s₀ j n₀ h hno htail hroom ih =>
    by_cases hij : i = j
    · exact ⟨s₀, n₀, hij ▸ h, hij ▸ hno, fun _ => hij ▸ hroom⟩
    · exact ih (by omega)
  | @carry s₀ j n₀ h hno htail ih =>
    by_cases hij : i = j
    · exact ⟨s₀, n₀, hij ▸ h, hij ▸ hno, fun h0 => absurd h0 (by rw [hij]; omega)⟩
    · exact ih (by omega)

lemma FirstRun.unique {j n addr addr' : ℕ} (h : FirstRun bm bit_address j n addr)
    (h' : FirstRun bm bit_address j n addr') : addr = addr' := by
  rcases Nat.lt_trichotomy addr addr' with hlt | heq | hlt
  · exact absurd h.clear (h'.first addr h.lo hlt)
  · exact heq
  · exact absurd h'.clear (h.first addr' h'.lo hlt)

lemma FirstRun.hasRun {j n addr : ℕ} (h : FirstRun bm bit_address j n addr) :
    HasRun bm bit_address j n :=
  ⟨addr, h.lo, h.hi, h.clear⟩

/-- A byte that holds a run holds a first one. -/
lemma HasRun.exists_first {j n : ℕ} (h : HasRun bm bit_address j n) :
    ∃ addr, FirstRun bm bit_address j n addr := by
  classical
  have hex : ∃ g, scanStart bit_address j ≤ g ∧ ClearBits bm g n := by
    rcases h with ⟨g, hlo, -, hclear⟩
    exact ⟨g, hlo, hclear⟩
  rcases h with ⟨g, hlo, hhi, hclear⟩
  have hle : Nat.find hex ≤ g := Nat.find_min' hex ⟨hlo, hclear⟩
  rcases Nat.find_spec hex with ⟨hlo', hclear'⟩
  exact ⟨Nat.find hex, hlo', by omega, hclear', fun g' hg' hlt hc => Nat.find_min hex hlt ⟨hg', hc⟩⟩

lemma exists_scanAddr {s j n : ℕ} (hrun : HasRun bm bit_address j n) :
    ∃ addr, ScanAddr bm bit_address s j n addr := by
  unfold ScanAddr
  split
  · exact hrun.exists_first
  · exact ⟨_, rfl⟩

variable (bm bit_address gap_size stop) in
/-- From byte `j` on, the scan ends at a byte that holds the missing bits and reports
`addr`. -/
def ScanHits (j addr : ℕ) : Prop :=
  ∃ s' j' n', j ≤ j' ∧ j' < bm.length ∧ Carried bm bit_address gap_size stop s' j' n' ∧
    HasRun bm bit_address j' n' ∧ ScanAddr bm bit_address s' j' n' addr

/-- At a byte that holds the missing bits the scan ends, with one address. -/
lemma scanHits_of_hasRun {s j n addr : ℕ} (hj : j < bm.length)
    (h : Carried bm bit_address gap_size stop s j n) (hrun : HasRun bm bit_address j n) :
    ScanHits bm bit_address gap_size stop j addr ↔ ScanAddr bm bit_address s j n addr := by
  constructor
  · rintro ⟨s', j', n', hle, -, h', -, haddr⟩
    -- a later hit would have gone through byte `j`, which ends the scan
    by_cases hjj : j = j'
    · subst hjj
      rcases h.unique h' with ⟨rfl, rfl⟩
      exact haddr
    · rcases h'.through (by have := h.le; omega) (show j < j' by omega) with ⟨s₀, n₀, h₀, hno, -⟩
      rcases h.unique h₀ with ⟨rfl, rfl⟩
      exact absurd hrun hno
  · intro haddr
    exact ⟨s, j, n, le_rfl, hj, h, hrun, haddr⟩

/-- At any other byte the scan goes on to the next one, if it does not stop for lack of
room. -/
lemma scanHits_succ {s j n addr : ℕ} (h : Carried bm bit_address gap_size stop s j n)
    (hno : ¬ HasRun bm bit_address j n) :
    ScanHits bm bit_address gap_size stop j addr ↔
      ScanHits bm bit_address gap_size stop (j + 1) addr := by
  constructor
  · rintro ⟨s', j', n', hle, hlen, h', hrun, haddr⟩
    by_cases hjj : j = j'
    · subst hjj
      rcases h.unique h' with ⟨rfl, rfl⟩
      exact absurd hrun hno
    · exact ⟨s', j', n', by omega, hlen, h', hrun, haddr⟩
  · rintro ⟨s', j', n', hle, hrest⟩
    exact ⟨s', j', n', by omega, hrest⟩

lemma not_scanHits_of_no_room {s j n addr : ℕ}
    (h : Carried bm bit_address gap_size stop s j n) (hno : ¬ HasRun bm bit_address j n)
    (htail : tailLen bm bit_address j = 0) (hroom : ¬ 8 * (j + 1) + gap_size ≤ stop) :
    ¬ ScanHits bm bit_address gap_size stop j addr := by
  rw [scanHits_succ h hno]
  -- to get past byte `j` without a tail, a whole gap has to fit behind it
  rintro ⟨s', j', n', hle, -, h', -⟩
  rcases h'.through (by have := h.le; omega) (show j < j' by omega) with ⟨-, -, -, -, hgo⟩
  exact hroom (hgo htail)

variable (bm bit_address stop) in
/-- The locals of `bm_find` when the scan enters byte `j`. -/
structure FindSt.Matches (st : FindSt) (s j n : ℕ) : Prop where
  location : st.location_in_map = j
  aligned : st.aligned_to_byte = scanStart bit_address j - 8 * j
  count : st.count = stop - scanStart bit_address j
  missing : st.updated_gap_size = n
  may : st.may_have_a_large_gap = decide (s < j)
  found : s < j → st.found_address = 8 * (s + 1) - tailLen bm bit_address s

/-- The bytes that are left to look at. -/
lemma cons_eq_drop {bm rest : List Byte} {byte : Byte} {j : ℕ} (h : byte :: rest = bm.drop j) :
    ∃ hj : j < bm.length, byte = bm[j] ∧ rest = bm.drop (j + 1) := by
  have hj : j < bm.length := by
    by_contra hge
    rw [List.drop_eq_nil_of_le (by omega)] at h
    simp at h
  rw [List.drop_eq_getElem_cons hj] at h
  exact ⟨hj, List.cons.inj h⟩

/-- **The run of the loop**: it returns 0 and `addr` exactly when the scan hits `addr`. -/
theorem findLoop_eq_iff (hgap : 1 ≤ gap_size) (hgap31 : gap_size < 2 ^ 31)
    (hstart : bit_address < stop) (hstop : stop < 2 ^ 64) (rest : List Byte) (st : FindSt)
    (s j n addr : ℕ) (hrest : rest = bm.drop j)
    (h : Carried bm bit_address gap_size stop s j n) (hst : st.Matches bm bit_address stop s j n) :
    findLoop gap_size rest st = some (0, addr) ↔
      ScanHits bm bit_address gap_size stop j addr := by
  induction rest generalizing st s j n with
  | nil =>
    have hlen : bm.length ≤ j := List.drop_eq_nil_iff.mp hrest.symm
    constructor
    · intro hret
      simp [findLoop] at hret
    · rintro ⟨s', j', n', hle, hlt, -⟩
      omega
  | cons byte rest ih =>
    obtain ⟨hj, hbyte, hrest'⟩ := cons_eq_drop hrest
    have hle := h.le
    have hmiss := h.missing_pos hgap
    have hlo := le_scanStart bit_address j
    have hhi := scanStart_lt (show bit_address / 8 ≤ j by omega)
    -- with no gap open byte `j` starts inside the window, so its addresses do not wrap
    have hword : s = j → 8 * (j + 1) ≤ 2 ^ 64 := by
      intro hs
      rcases h.fresh hs with ⟨-, hroom⟩
      rcases hroom with hroom | hroom <;> omega
    have hfrom : bit_address / 8 ≤ j := by omega
    have hnext : scanStart bit_address (j + 1) = 8 * (j + 1) :=
      scanStart_of_lt (Nat.lt_succ_of_le hfrom)
    have hscan := byteScan hj hfrom hmiss.1
    rw [findLoop, hst.aligned, hst.count, count_next hfrom, hst.missing, toInt32_of_lt (by omega),
      hbyte]
    generalize hr : byteFindGap (scanStart bit_address j - 8 * j) n bm[j] = r at hscan
    cases hscan with
    | hit addr₀ hrun =>
      have haddr := hrun.lo
      have hfit := hrun.hi
      rw [scanHits_of_hasRun hj h hrun.hasRun, ScanAddr]
      simp only [if_pos (show (0 : ℤ) ≤ ((addr₀ - 8 * j : ℕ) : ℤ) by omega), Int.toNat_natCast]
      -- no gap is open: the address is the place of the hit
      by_cases hs : s = j
      · have hw := hword hs
        have hvalue : u64 (st.location_in_map * 8 + (addr₀ - 8 * j)) = addr₀ := by
          rw [hst.location, u64_of_lt (by omega)]
          omega
        rw [hst.may, decide_eq_false (by omega), if_pos rfl, hvalue, if_pos hs]
        constructor
        · intro hret
          have heq : addr₀ = addr := by simpa using hret
          exact heq ▸ hrun
        · intro hrun'
          rw [hrun.unique hrun']
      · -- a gap is open: its address was stored when it was opened
        have hself : sub64 n n = 0 := by rw [sub64_of_le le_rfl (by omega)]; omega
        rw [hst.may, decide_eq_true (by omega), if_neg (by simp), hself, if_pos rfl,
          hst.found (by omega), if_neg hs]
        constructor
        · intro hret
          have heq : 8 * (s + 1) - tailLen bm bit_address s = addr := by simpa using hret
          exact heq.symm
        · intro heq
          rw [heq]
    | reset hno htail =>
      simp only [if_neg (show ¬ (0 : ℤ) ≤ -1 by decide), if_true]
      -- the test for room decides whether the scan goes on
      by_cases hroom : 8 * (j + 1) + gap_size ≤ stop
      · rw [if_neg (by omega), scanHits_succ h hno]
        refine ih _ (j + 1) (j + 1) gap_size hrest' (Carried.reset h hno htail hroom) ?_
        exact
          { location := by simp [hst.location]
            aligned := by simp [hnext]
            count := rfl
            missing := rfl
            may := by simp
            found := fun hlt => absurd hlt (by omega) }
      · rw [if_pos (by omega)]
        simp [not_scanHits_of_no_room h hno htail hroom]
    | carry hno htail =>
      simp only [if_neg (show ¬ (0 : ℤ) ≤ -2 by decide), if_neg (show ¬ (-2 : ℤ) = -1 by decide)]
      rw [scanHits_succ h hno]
      have hlt := tailLen_lt_of_not_hasRun (show bit_address / 8 ≤ j by omega) hno
      have hbound := tailLen_le bm bit_address j
      refine ih _ s (j + 1) (n - tailLen bm bit_address j) hrest' (Carried.carry h hno htail) ?_
      exact
        { location := by simp [hst.location]
          aligned := by simp [hnext]
          count := rfl
          missing := sub64_of_le (by omega) (by omega)
          may := by simp; omega
          found := by
            intro _
            -- the first tail stores the address of the gap, the later ones keep it
            by_cases hs : s = j
            · have hw := hword hs
              simp only [hst.may, decide_eq_false (show ¬ s < j by omega), if_true, hst.location]
              rw [hs]
              unfold sub64 u64
              omega
            · simp only [hst.may, decide_eq_true (show s < j by omega), Bool.true_eq_false,
                if_false]
              exact hst.found (by omega) }

/-! ## The scan, described by the bits -/

variable (bm bit_address) in
/-- When byte `j` is reached, a gap is open since byte `s`: the scan starts in byte `s` or
the byte before it ends in a set bit, and the bytes `s .. j - 1` all end in a clear bit. -/
structure OpenSince (s j : ℕ) : Prop where
  first : bit_address / 8 ≤ s
  le : s ≤ j
  fresh : s = bit_address / 8 ∨ tailLen bm bit_address (s - 1) = 0
  ends : ∀ i, s ≤ i → i < j → 0 < tailLen bm bit_address i

variable (bm bit_address gap_size) in
/-- The bits still missing at byte `j`, after the clear bits at the ends of the bytes
`s .. j - 1`. -/
def missing (s j : ℕ) : ℕ := gap_size - ∑ i ∈ Finset.Ico s j, tailLen bm bit_address i

variable (bm bit_address gap_size) in
/-- Byte `j` is the first one that holds the missing bits, anywhere. -/
structure FirstHit (s j : ℕ) : Prop where
  opened : OpenSince bm bit_address s j
  run : HasRun bm bit_address j (missing bm bit_address gap_size s j)
  earlier : ∀ s' j', j' < j → OpenSince bm bit_address s' j' →
    ¬ HasRun bm bit_address j' (missing bm bit_address gap_size s' j')

lemma OpenSince.unique {s s' j : ℕ} (h : OpenSince bm bit_address s j)
    (h' : OpenSince bm bit_address s' j) : s = s' := by
  -- the byte before a later start ends in a set bit, which an earlier gap would have to contain
  have key : ∀ {a b : ℕ}, OpenSince bm bit_address a j → OpenSince bm bit_address b j →
      ¬ a < b := by
    intro a b ha hb hlt
    have h₁ := ha.first
    have h₂ := hb.le
    rcases hb.fresh with hfresh | hfresh
    · omega
    · have hpos := ha.ends (b - 1) (by omega) (by omega)
      omega
  have h₁ := key h h'
  have h₂ := key h' h
  omega

lemma exists_openSince (bm : List Byte) {j : ℕ} (hj : bit_address / 8 ≤ j) :
    ∃ s, OpenSince bm bit_address s j := by
  induction j, hj using Nat.le_induction with
  | base =>
    exact ⟨bit_address / 8, le_rfl, le_rfl, Or.inl rfl, fun i h₁ h₂ => absurd h₂ (by omega)⟩
  | succ j hj ih =>
    rcases ih with ⟨s, hs⟩
    -- a byte that ends in a set bit leaves no gap open
    by_cases htail : tailLen bm bit_address j = 0
    · exact ⟨j + 1, by omega, le_rfl, Or.inr (by simpa using htail),
        fun i h₁ h₂ => absurd h₂ (by omega)⟩
    · refine ⟨s, hs.first, by have := hs.le; omega, hs.fresh, ?_⟩
      intro i h₁ h₂
      by_cases hi : i = j
      · subst hi
        omega
      · exact hs.ends i h₁ (by omega)

lemma missing_self (s : ℕ) : missing bm bit_address gap_size s s = gap_size := by
  simp [missing]

lemma missing_succ {s j : ℕ} (h : s ≤ j) :
    missing bm bit_address gap_size s (j + 1) =
      missing bm bit_address gap_size s j - tailLen bm bit_address j := by
  rw [missing, missing, Finset.sum_Ico_succ_top h, Nat.sub_add_eq]

/-- The state of the scan at byte `j`, read off the bits. -/
theorem carried_iff {s j n : ℕ} :
    Carried bm bit_address gap_size stop s j n ↔
      OpenSince bm bit_address s j ∧ n = missing bm bit_address gap_size s j ∧
      (s = bit_address / 8 ∨ 8 * s + gap_size ≤ stop) ∧
      ∀ s' j', j' < j → OpenSince bm bit_address s' j' →
        ¬ HasRun bm bit_address j' (missing bm bit_address gap_size s' j') := by
  constructor
  · -- the rules of the scan give the description, one case for each rule
    intro h
    induction h with
    | start =>
      refine ⟨⟨le_rfl, le_rfl, Or.inl rfl, fun i h₁ h₂ => absurd h₂ (by omega)⟩,
        (missing_self _).symm, Or.inl rfl, ?_⟩
      intro s' j' hlt hopen
      have h₁ := hopen.first
      have h₂ := hopen.le
      omega
    | @reset s j n h hno htail hroom ih =>
      rcases ih with ⟨hopen, hmiss, -, hearlier⟩
      have hfirst := hopen.first
      have hle := hopen.le
      refine ⟨⟨by omega, le_rfl, Or.inr (by simpa using htail),
        fun i h₁ h₂ => absurd h₂ (by omega)⟩, (missing_self _).symm, Or.inr hroom, ?_⟩
      intro s' j' hlt hopen'
      by_cases hjj : j' = j
      · subst hjj
        rw [hopen'.unique hopen, ← hmiss]
        exact hno
      · exact hearlier s' j' (by omega) hopen'
    | @carry s j n h hno htail ih =>
      rcases ih with ⟨hopen, hmiss, hroom, hearlier⟩
      have hle := hopen.le
      refine ⟨⟨hopen.first, by omega, hopen.fresh, ?_⟩, ?_, hroom, ?_⟩
      · intro i h₁ h₂
        by_cases hi : i = j
        · rw [hi]
          exact htail
        · exact hopen.ends i h₁ (by omega)
      · rw [missing_succ hle, hmiss]
      · intro s' j' hlt hopen'
        by_cases hjj : j' = j
        · subst hjj
          rw [hopen'.unique hopen, ← hmiss]
          exact hno
        · exact hearlier s' j' (by omega) hopen'
  · rintro ⟨hopen, rfl, hroom, hearlier⟩
    -- the bits determine which rule takes the scan to byte `j + 1`
    induction j generalizing s with
    | zero =>
      have h₁ := hopen.first
      have h₂ := hopen.le
      obtain rfl : s = bit_address / 8 := by omega
      have hzero : bit_address / 8 = 0 := by omega
      have hstart : Carried bm bit_address gap_size stop (bit_address / 8) (bit_address / 8)
          gap_size := Carried.start
      rw [hzero] at hstart ⊢
      rwa [missing_self]
    | succ j ih =>
      have hfirst := hopen.first
      have hle := hopen.le
      by_cases hs : s = j + 1
      · subst hs
        rw [missing_self]
        by_cases hbase : j + 1 = bit_address / 8
        · rw [hbase]
          exact Carried.start
        · -- byte `j` ends in a set bit: the gap that was open there is given up
          rcases exists_openSince bm (show bit_address / 8 ≤ j by omega) with ⟨s₀, hs₀⟩
          have hle₀ := hs₀.le
          have htail : tailLen bm bit_address j = 0 := by
            simpa using hopen.fresh.resolve_left hbase
          have hroom' := hroom.resolve_left hbase
          have hcarried := ih hs₀ (Or.inr (by omega))
            fun s' j' hlt hopen' => hearlier s' j' (by omega) hopen'
          exact Carried.reset hcarried (hearlier s₀ j (by omega) hs₀) htail hroom'
      · -- the gap open at byte `j + 1` was open at byte `j`
        have hopen' : OpenSince bm bit_address s j :=
          ⟨hfirst, by omega, hopen.fresh, fun i h₁ h₂ => hopen.ends i h₁ (by omega)⟩
        have hcarried := ih hopen' hroom
          fun s' j' hlt hopen' => hearlier s' j' (by omega) hopen'
        rw [missing_succ (by omega)]
        exact Carried.carry hcarried (hearlier s j (by omega) hopen')
          (hopen.ends j (by omega) (by omega))

end Scan

/-! ## When the reported gap is one -/

section Sound

variable {bm : List Byte} {bit_address gap_size stop s j n : ℕ}

/-- If the reported gap is clear, the bytes between its first and its last one are clear and
the scan has counted them exactly. -/
lemma Carried.end_of_clear (h : Carried bm bit_address gap_size stop s j n) (hs : s < j)
    (hclear : ClearBits bm (8 * (s + 1) - tailLen bm bit_address s) gap_size) :
    8 * (s + 1) - tailLen bm bit_address s + gap_size = 8 * j + n ∧
      ∀ i, s < i → i < j → tailLen bm bit_address i = 8 := by
  induction h with
  | start => omega
  | reset h hno htail hroom ih => omega
  | @carry s j n h hno htail ih =>
    have hle := h.le
    have hlt := tailLen_lt_of_not_hasRun (show bit_address / 8 ≤ j by omega) hno
    by_cases hsj : s = j
    · -- byte `s` itself: its tail is what was counted
      subst hsj
      have hfresh := (h.fresh rfl).1
      have hbound := tailLen_le bm bit_address s
      exact ⟨by omega, fun i h₁ h₂ => absurd h₂ (by omega)⟩
    · rcases ih (by omega) hclear with ⟨hend, hbytes⟩
      have hstart : scanStart bit_address j = 8 * j := scanStart_of_lt (by omega)
      have hbound := tailLen_le bm bit_address s
      -- a byte that held all the missing bits at its start would have ended the scan
      have hmore : 8 < n := by
        by_contra hfew
        exact hno ⟨8 * j, by omega, by omega, hclear.mono (by omega) (by omega)⟩
      have hbyte : tailLen bm bit_address j = 8 :=
        tailLen_eq_eight hstart (hclear.mono (by omega) (by omega))
      refine ⟨by omega, ?_⟩
      intro i h₁ h₂
      by_cases hi : i = j
      · rw [hi, hbyte]
      · exact hbytes i h₁ (by omega)

/-- If the bytes between are clear, the clear bits from the tail of byte `s` up to byte `j`
are exactly the ones the scan has counted. -/
lemma Carried.clear_of_bytes (h : Carried bm bit_address gap_size stop s j n) (hs : s < j)
    (hbytes : ∀ i, s < i → i < j → tailLen bm bit_address i = 8) :
    8 * (s + 1) - tailLen bm bit_address s + gap_size = 8 * j + n ∧
      ClearBits bm (8 * (s + 1) - tailLen bm bit_address s)
        (8 * j - (8 * (s + 1) - tailLen bm bit_address s)) := by
  induction h with
  | start => omega
  | reset h hno htail hroom ih => omega
  | @carry s j n h hno htail ih =>
    have hle := h.le
    have hlt := tailLen_lt_of_not_hasRun (show bit_address / 8 ≤ j by omega) hno
    have htails := clearBits_tailLen bm bit_address s
    by_cases hsj : s = j
    · subst hsj
      have hfresh := (h.fresh rfl).1
      have hbound := tailLen_le bm bit_address s
      exact ⟨by omega, htails.mono le_rfl (by omega)⟩
    · rcases ih (by omega) fun i h₁ h₂ => hbytes i h₁ (by omega) with ⟨hend, hclear⟩
      have hbyte := hbytes j (by omega) (by omega)
      have hlast := clearBits_tailLen bm bit_address j
      have hbound := tailLen_le bm bit_address s
      rw [hbyte] at hlast hlt ⊢
      refine ⟨by omega, ?_⟩
      intro i h₁ h₂
      -- behind the start of byte `j` the bits belong to its tail
      by_cases hi : i < 8 * j
      · exact hclear i h₁ (by omega)
      · exact hlast i (by omega) (by omega)

variable (bm bit_address gap_size stop s j) in
/-- The missing bits at byte `j` belong to one clear run inside the window: either byte `j`
holds a whole gap, or every byte between `s` and `j` is clear and so are the missing bits at
the *beginning* of byte `j`. -/
def Continues : Prop :=
  if s = j then
    ∃ g, scanStart bit_address j ≤ g ∧ g + gap_size ≤ min (8 * (j + 1)) stop ∧
      ClearBits bm g gap_size
  else
    (∀ i, s < i → i < j → tailLen bm bit_address i = 8) ∧
      ClearBits bm (8 * j) (missing bm bit_address gap_size s j) ∧
      8 * j + missing bm bit_address gap_size s j ≤ stop

/-- At the byte where the scan ends, the reported address is a gap inside the window exactly
when the missing bits continue the open gap. -/
lemma sound_iff_continues {addr : ℕ} (h : Carried bm bit_address gap_size stop s j n)
    (haddr : ScanAddr bm bit_address s j n addr) :
    (ClearBits bm addr gap_size ∧ bit_address ≤ addr ∧ addr + gap_size ≤ stop) ↔
      Continues bm bit_address gap_size stop s j := by
  have hle := h.le
  have hmiss : n = missing bm bit_address gap_size s j := (carried_iff.mp h).2.1
  have hstart : bit_address ≤ scanStart bit_address s := le_max_right _ _
  rw [Continues]
  by_cases hs : s = j
  · -- no gap is open: the first run ends inside the window if any does
    rcases h.fresh hs with ⟨rfl, -⟩
    rw [if_pos hs]
    rw [ScanAddr, if_pos hs] at haddr
    have hlo := haddr.lo
    have hhi := haddr.hi
    constructor
    · rintro ⟨hclear, -, hend⟩
      exact ⟨addr, hlo, le_min hhi hend, hclear⟩
    · rintro ⟨g, hg, hend, hclear⟩
      have hfirst : addr ≤ g := by
        by_contra hlt
        exact haddr.first g hg (by omega) hclear
      rw [le_min_iff] at hend
      subst hs
      exact ⟨haddr.clear, by omega, by omega⟩
  · -- a gap is open: it is compared with the bits from its address to the end of byte `j`
    rw [if_neg hs, ← hmiss]
    rw [ScanAddr, if_neg hs] at haddr
    have hbound := tailLen_le bm bit_address s
    have hlt := scanStart_lt hle.1
    subst haddr
    constructor
    · rintro ⟨hclear, -, hend⟩
      rcases h.end_of_clear (by omega) hclear with ⟨heq, hbytes⟩
      exact ⟨hbytes, hclear.mono (by omega) (by omega), by omega⟩
    · rintro ⟨hbytes, hlast, hend⟩
      rcases h.clear_of_bytes (by omega) hbytes with ⟨heq, hclear⟩
      refine ⟨?_, by omega, by omega⟩
      intro i h₁ h₂
      -- before byte `j` the bits were counted, from there on they are the missing ones
      by_cases hi : i < 8 * j
      · exact hclear i h₁ (by omega)
      · exact hlast i (by omega) (by omega)

end Sound

/-- When `bm_find` returns 0, it reports `gap_size` clear bits inside the searched window
and inside the map. -/
def FindSound (bm : List Byte) (total_bits bit_address count gap_size found_address : ℕ) : Prop :=
  ∀ addr, bmFind bm total_bits bit_address count gap_size found_address = some (0, addr) →
    ClearBits bm addr gap_size ∧ bit_address ≤ addr ∧
      addr + gap_size ≤ min (bit_address + count) total_bits

/-- `bm_find` with arguments that pass its checks is the scan of the window. -/
lemma bmFind_eq_iff {bm : List Byte} {total_bits bit_address count gap_size : ℕ}
    (found_address addr : ℕ) (hin : bit_address < total_bits) (hgap : 1 ≤ gap_size)
    (hfit : gap_size ≤ count) (h64 : bit_address + count < 2 ^ 64) (hgap31 : gap_size < 2 ^ 31) :
    bmFind bm total_bits bit_address count gap_size found_address = some (0, addr) ↔
      ScanHits bm bit_address gap_size (min (bit_address + count) total_bits) (bit_address / 8)
        addr := by
  have hstart : scanStart bit_address (bit_address / 8) = bit_address := scanStart_div
  rw [bmFind, if_neg (by omega)]
  refine findLoop_eq_iff hgap hgap31 (by omega) (by omega) _ _ (bit_address / 8)
    (bit_address / 8) gap_size addr rfl Carried.start ?_
  exact
    { location := rfl
      aligned := by rw [hstart]; simp only; omega
      count := by
        rw [hstart, u64_of_lt h64]
        simp only
        split <;> omega
      missing := rfl
      may := by simp
      found := fun hlt => absurd hlt (by omega) }

/-- **Soundness of `bm_find`**: what it reports is a gap inside the window exactly when, at
the first byte that holds the missing number of clear bits anywhere, these bits continue the
gap that is open there and end inside the window.

`bm` may be longer than the map: nothing keeps the scan from reading the bytes behind it. -/
theorem findSound_iff (bm : List Byte) (total_bits bit_address count gap_size found_address : ℕ)
    (h64 : bit_address + count < 2 ^ 64) (hgap31 : gap_size < 2 ^ 31) :
    FindSound bm total_bits bit_address count gap_size found_address ↔
      (bit_address < total_bits → 1 ≤ gap_size → gap_size ≤ count →
        ∀ s j, j < bm.length → FirstHit bm bit_address gap_size s j →
          (s = bit_address / 8 ∨ 8 * s + gap_size ≤ min (bit_address + count) total_bits) →
          Continues bm bit_address gap_size (min (bit_address + count) total_bits) s j) := by
  constructor
  · -- the bits describe a run of the scan, and its result is sound
    intro hsound hin hgap hfit s j hj hhit hroom
    have hcarried := carried_iff.mpr ⟨hhit.opened, rfl, hroom, hhit.earlier⟩
    obtain ⟨addr, haddr⟩ : ∃ addr, ScanAddr bm bit_address s j _ addr :=
      exists_scanAddr hhit.run
    have hret := (bmFind_eq_iff found_address addr hin hgap hfit h64 hgap31).mpr
      ⟨s, j, _, by have := hcarried.le; omega, hj, hcarried, hhit.run, haddr⟩
    exact (sound_iff_continues hcarried haddr).mp (hsound addr hret)
  · intro hcont addr hret
    by_cases hargs : bit_address < total_bits ∧ 1 ≤ gap_size ∧ gap_size ≤ count
    · rcases hargs with ⟨hin, hgap, hfit⟩
      obtain ⟨s, j, n, -, hj, hcarried, hrun, haddr⟩ :=
        (bmFind_eq_iff found_address addr hin hgap hfit h64 hgap31).mp hret
      rcases carried_iff.mp hcarried with ⟨hopen, rfl, hroom, hearlier⟩
      exact (sound_iff_continues hcarried haddr).mpr
        (hcont hin hgap hfit s j hj ⟨hopen, hrun, hearlier⟩ hroom)
    · -- the arguments fail a check, and the result is -1
      rw [bmFind, if_pos (by omega)] at hret
      simp at hret

/-- A gap of four clear bits that starts with the last two of byte 0. -/
theorem findSound_carried : FindSound [0x3f#8, 0xf0#8] 16 0 16 4 0 := by
  refine (findSound_iff [0x3f#8, 0xf0#8] 16 0 16 4 0 (by decide) (by decide)).mpr ?_
  intro _ _ _ s j hj hhit _
  have htail : tailLen [0x3f#8, 0xf0#8] 0 0 = 2 := by decide
  have hle := hhit.opened.le
  simp only [List.length_cons, List.length_nil] at hj
  obtain rfl | rfl : j = 0 ∨ j = 1 := by omega
  · -- byte 0 has no four clear bits
    obtain rfl : s = 0 := by omega
    obtain ⟨g, -, hend, hclear⟩ := hhit.run
    rw [missing, Finset.Ico_self, Finset.sum_empty] at hend hclear
    have hset : ∀ g ≤ 4, ¬ ClearBits [0x3f#8, 0xf0#8] g 4 := by decide
    exact absurd hclear (hset g (by omega))
  · rcases hhit.opened.fresh with rfl | hfresh
    · -- two bits are missing at byte 1, and it starts with them
      have hmissing : missing [0x3f#8, 0xf0#8] 0 4 0 1 = 2 := by decide
      rw [Continues, if_neg (by decide)]
      simp only [Nat.zero_div, hmissing]
      exact ⟨fun i h₁ h₂ => absurd h₂ (by omega), by decide, by decide⟩
    · -- byte 0 does not end in a set bit, so no gap starts at byte 1
      have hs : s - 1 = 0 := by omega
      rw [hs, htail] at hfresh
      exact absurd hfresh (by decide)

/-- Byte 0 ends in one clear bit and byte 1 starts with a set one, but has two clear bits
further on: the address reported is bit 7, and bit 8 is set. -/
theorem find_reports_used_bit : ¬ FindSound [0x7f#8, 0x01#8] 16 0 16 3 0 := by
  intro hsound
  have hret : bmFind [0x7f#8, 0x01#8] 16 0 16 3 0 = some (0, 7) := by decide
  have hclear := (hsound 7 hret).1 8 (by decide) (by decide)
  revert hclear
  decide

/-! ## One clear bit

A search for a single clear bit never carries a gap from one byte into the next. It looks at
whole bytes, so it also sees the bits between the end of the window and the end of its byte. -/

/-- What `bm_find` returns when one clear bit is wanted, in the window from `bit_address` to
`stop`. -/
inductive FindOne (bm : List Byte) (bit_address stop : ℕ) : Option (ℤ × ℕ) → Prop
  | found (addr : ℕ) (hlo : bit_address ≤ addr) (hin : 8 * (addr / 8) < stop)
      (hlen : addr < 8 * bm.length) (hclear : bitAt bm addr = false)
      (hfirst : ∀ k, bit_address ≤ k → k < addr → bitAt bm k = true) :
      FindOne bm bit_address stop (some (0, u64 addr))
  | full (hall : ∀ k, bit_address ≤ k → 8 * (k / 8) < stop → bitAt bm k = true) :
      FindOne bm bit_address stop (some (-1, 0))
  | outside (hlen : 8 * bm.length < stop)
      (hall : ∀ k, bit_address ≤ k → k < 8 * bm.length → bitAt bm k = true) :
      FindOne bm bit_address stop none

lemma clearBits_one {bm : List Byte} {k : ℕ} : ClearBits bm k 1 ↔ bitAt bm k = false := by
  constructor
  · intro h
    exact h k le_rfl (by omega)
  · intro h i h₁ h₂
    obtain rfl : i = k := by omega
    exact h

/-- The run of the loop from byte `j` on, when the bytes before it have no clear bit. -/
lemma findLoop_one {bm : List Byte} {bit_address stop : ℕ} (rest : List Byte)
    (j found_address : ℕ) (hrest : rest = bm.drop j) (hj : bit_address / 8 ≤ j)
    (hstop : scanStart bit_address j < stop)
    (hall : ∀ k, bit_address ≤ k → k < scanStart bit_address j → bitAt bm k = true) :
    FindOne bm bit_address stop (findLoop 1 rest ⟨j, scanStart bit_address j - 8 * j,
      stop - scanStart bit_address j, 1, false, found_address⟩) := by
  induction rest generalizing j with
  | nil =>
    have hlen : bm.length ≤ j := List.drop_eq_nil_iff.mp hrest.symm
    have hlo := le_scanStart bit_address j
    exact FindOne.outside (by omega) fun k hk hlt => hall k hk (by omega)
  | cons byte rest ih =>
    obtain ⟨hlt, hbyte, hrest'⟩ := cons_eq_drop hrest
    have hlo := le_scanStart bit_address j
    have hhi := scanStart_lt hj
    have hnext : scanStart bit_address (j + 1) = 8 * (j + 1) :=
      scanStart_of_lt (Nat.lt_succ_of_le hj)
    have hscan := byteScan hlt hj le_rfl
    have hone : toInt32 1 = (1 : ℕ) := toInt32_of_lt (by decide)
    rw [findLoop, hone, hbyte]
    generalize byteFindGap (scanStart bit_address j - 8 * j) (1 : ℕ) bm[j] = r at hscan
    cases hscan with
    | hit addr hrun =>
      have hrunlo := hrun.lo
      have hrunhi := hrun.hi
      have hvalue : j * 8 + (addr - 8 * j) = addr := by omega
      simp only [if_pos (show (0 : ℤ) ≤ ((addr - 8 * j : ℕ) : ℤ) by omega), Int.toNat_natCast,
        if_true, hvalue]
      refine FindOne.found addr ?_ (by omega) (by omega) (clearBits_one.mp hrun.clear) ?_
      · exact (le_max_right (8 * j) bit_address).trans hrunlo
      intro k hk hlt
      -- in the byte of the hit no earlier bit is clear
      by_cases hkj : k < scanStart bit_address j
      · exact hall k hk hkj
      · have hset := hrun.first k (by omega) hlt
        rw [clearBits_one] at hset
        simpa using hset
    | reset hno htail =>
      have hbits : ∀ k, bit_address ≤ k → k < 8 * (j + 1) → bitAt bm k = true := by
        intro k hk hlt
        by_cases hkj : k < scanStart bit_address j
        · exact hall k hk hkj
        · by_contra hclear
          exact hno ⟨k, by omega, by omega, clearBits_one.mpr (by simpa using hclear)⟩
      simp only [if_neg (show ¬ (0 : ℤ) ≤ -1 by decide), if_true, count_next hj stop]
      -- the scan ends with the last byte of the window
      by_cases hmore : 8 * (j + 1) < stop
      · rw [if_neg (by omega)]
        have hstart : (0 : ℕ) = scanStart bit_address (j + 1) - 8 * (j + 1) := by omega
        rw [hstart]
        exact ih (j + 1) hrest' (by omega) (by omega) fun k hk hlt => hbits k hk (by omega)
      · rw [if_pos (by omega)]
        exact FindOne.full fun k hk hlt => hbits k hk (by omega)
    | carry hno htail =>
      have hlt := tailLen_lt_of_not_hasRun hj hno
      omega

/-- **The search for a clear bit**: it reports the lowest one of the window, if the bytes that it
looks at have one. -/
theorem bmFind_one (bm : List Byte) {total_bits bit_address count : ℕ} (found_address : ℕ)
    (hin : bit_address < total_bits) (hcount : 1 ≤ count)
    (hwrap : u64 (bit_address + count) = bit_address + count ∨ bit_address + count ≤ total_bits) :
    FindOne bm bit_address (min (bit_address + count) total_bits)
      (bmFind bm total_bits bit_address count 1 found_address) := by
  have hstart : scanStart bit_address (bit_address / 8) = bit_address := scanStart_div
  have hwindow : (if u64 (bit_address + count) > total_bits then total_bits - bit_address
      else count) = min (bit_address + count) total_bits - bit_address := by
    have hle : u64 (bit_address + count) ≤ bit_address + count := Nat.mod_le _ _
    split <;> omega
  have hloop : FindOne bm bit_address (min (bit_address + count) total_bits) _ :=
    findLoop_one (bm.drop (bit_address / 8)) (bit_address / 8) found_address rfl le_rfl
      (by omega) fun k hk hlt => by omega
  have haligned : bit_address - 8 * (bit_address / 8) = bit_address % 8 := by omega
  rw [hstart, haligned] at hloop
  rw [bmFind, if_neg (by omega), hwindow]
  exact hloop

/-- The search of the whole map, which may be empty. -/
theorem bmFind_one_all (bm : List Byte) (total_bits found_address : ℕ) :
    FindOne bm 0 total_bits (bmFind bm total_bits 0 total_bits 1 found_address) := by
  by_cases hzero : total_bits = 0
  · -- an empty map fails the check of the arguments
    rw [bmFind, if_pos (by omega)]
    exact FindOne.full fun k _ hk => by omega
  · have hone : FindOne bm 0 (min (0 + total_bits) total_bits) _ :=
      bmFind_one bm found_address (by omega) (by omega) (.inr (Nat.zero_add total_bits).le)
    rwa [Nat.zero_add, min_self] at hone

end KanekFs.Map
