import KanekFs.Lib.BitSet
import KanekFs.Lib.Run
import KanekFs.Map.Find
import KanekFs.Map.Grow

/-!
# A bitmap is a set of addresses

The functions of `map.c` together. A map of `total_bits` bits stands for the finite set of its set
bits. `Does` says what a call does to that set and what it answers: bits and extents are added and
taken away, a bit is asked for, a stretch is counted, an extent is asked whether it can grow, and
the lowest free address of a window is searched.

* `callMap_does` is one call of the code, for every argument whose end does not wrap around.
* `map_refines_set` is a run: every list of such calls is answered as `Does` says, which by
  `answered_unique` leaves no choice.
* `get_reads_last_mark` is what can be read after a run: each bit as the last call that covered it
  left it.
-/

namespace KanekFs.Map

open Bytes Word Stretch Run

/-! ## Definitions -/

/-- Bit status in a byte. -/
def byteGetBit (byte : Byte) (bit : ℕ) : ℤ := if byte &&& (1#8 <<< bit) = 0#8 then 0 else 1

/-- Bit status in a bitmap. -/
def bmGetBit (bm : List Byte) (total_bits bit_address : ℕ) : Option ℤ :=
  if bit_address ≥ total_bits then some (-1)
  else do
    let byte ← bm[bit_address / 8]?
    some (byteGetBit byte (bit_address % 8))

/-- A call of one of the functions of the map. -/
inductive Call
  | setBit (bit_address : ℕ) (set : Bool)
  | getBit (bit_address : ℕ)
  | setExtent (bit_address num_bits_to_set : ℕ) (set : Bool)
  | count (bit_address num_bits_to_count : ℕ) (set : Bool)
  | canGrow (bit_address count : ℕ)
  /-- `bm_find` for one bit -/
  | findOne (bit_address count : ℕ)
  deriving DecidableEq

/-- The argument `clear_or_set`. -/
def clearOrSet (set : Bool) : ℤ := if set then 1 else 0

/-- What a call answers, its code and the number it stores, and the buffer it leaves. -/
def callMap (total_bits : ℕ) (bm : List Byte) : Call → Option ((ℤ × ℕ) × List Byte)
  | .setBit bit_address set => do
    let (rc, bm') ← bmSetBit bm total_bits bit_address (clearOrSet set)
    some ((rc, 0), bm')
  | .getBit bit_address => do
    let rc ← bmGetBit bm total_bits bit_address
    some ((rc, 0), bm)
  | .setExtent bit_address num_bits_to_set set => do
    let (rc, bm') ← bmSetExtent bm total_bits bit_address num_bits_to_set (clearOrSet set)
    some ((rc, 0), bm')
  | .count bit_address num_bits_to_count set => do
    let answer ← bmCount bm total_bits bit_address num_bits_to_count (clearOrSet set)
    some (answer, bm)
  | .canGrow bit_address count => do
    let rc ← bmExtentCanGrow bm total_bits bit_address count
    some ((rc, 0), bm)
  | .findOne bit_address count => do
    let answer ← bmFind bm total_bits bit_address count 1 0
    some (answer, bm)

/-- The extent is not empty and its end does not wrap around; a count is below `2 ^ 31`. -/
def Call.Fits : Call → Prop
  | .setBit _ _ | .getBit _ => True
  | .findOne bit_address n => bit_address + n < 2 ^ 64
  | .setExtent bit_address n _ => 1 ≤ n ∧ bit_address + n < 2 ^ 64
  | .count bit_address n _ | .canGrow bit_address n =>
    1 ≤ n ∧ n < 2 ^ 31 ∧ bit_address + n < 2 ^ 64

instance (call : Call) : Decidable call.Fits := by
  cases call <;> unfold Call.Fits <;> infer_instance

/-- The call is about addresses of the map. -/
def Call.Inside (total_bits : ℕ) : Call → Prop
  | .setBit bit_address _ | .getBit bit_address => bit_address < total_bits
  | .setExtent bit_address n _ | .count bit_address n _ | .canGrow bit_address n =>
    bit_address + n ≤ total_bits
  -- the end of the window may be behind the map
  | .findOne bit_address n => bit_address < total_bits ∧ 1 ≤ n

instance (total_bits : ℕ) (call : Call) : Decidable (call.Inside total_bits) := by
  cases call <;> unfold Call.Inside <;> infer_instance

/-! ## The set -/

/-- A set of addresses with the `n` from `lo` on added or taken away. -/
def mark (used : Finset ℕ) (lo n : ℕ) (set : Bool) : Finset ℕ :=
  if set then used ∪ Finset.Ico lo (lo + n) else used \ Finset.Ico lo (lo + n)

/-- The `n` addresses from `lo` on are some used ones, fewer than `n`, and then free ones. -/
def CanGrow (used : Finset ℕ) (lo n : ℕ) : Prop :=
  ∃ k < n, Finset.Ico lo (lo + k) ⊆ used ∧ Disjoint (Finset.Ico (lo + k) (lo + n)) used

instance (used : Finset ℕ) (lo n : ℕ) : Decidable (CanGrow used lo n) := by
  unfold CanGrow
  infer_instance

/-- Whether the `n` addresses from `lo` on can grow, and if not, why: they begin with free ones,
they are all used, or a used one follows the free ones. -/
def growCode (used : Finset ℕ) (lo n : ℕ) : ℤ :=
  if CanGrow used lo n then 0
  else if lo ∉ used then -2
  else if Finset.Ico lo (lo + n) ⊆ used then -3
  else -5

/-- The end of what a search of `count` addresses from `addr` on looks at: it ends with the window
or with the map, but not before the byte ends. -/
def searchEnd (total_bits addr count : ℕ) : ℕ := (min (addr + count) total_bits + 7) / 8 * 8

/-- What the search takes for used: behind the map it sees whatever is there. -/
def Taken (total_bits : ℕ) (behind : ℕ → Bool) (used : Finset ℕ) (k : ℕ) : Prop :=
  if k < total_bits then k ∈ used else behind k = true

/-- What a call does to the set of used addresses below `total_bits`, and what it answers; `behind`
are the bits behind the map. -/
inductive Does (total_bits : ℕ) (behind : ℕ → Bool) (used : Finset ℕ) :
    Call → ℤ × ℕ → Finset ℕ → Prop
  | setBit {addr : ℕ} {set : Bool} (hin : addr < total_bits) :
      Does total_bits behind used (.setBit addr set) (0, 0) (mark used addr 1 set)
  | getBit {addr : ℕ} (hin : addr < total_bits) :
      Does total_bits behind used (.getBit addr) (if addr ∈ used then 1 else 0, 0) used
  | setExtent {addr n : ℕ} {set : Bool} (hin : addr + n ≤ total_bits) :
      Does total_bits behind used (.setExtent addr n set) (extentCode addr n, 0)
        (mark used addr (markedBits addr n) set)
  | count {addr n r : ℕ} {set : Bool} (hin : addr + n ≤ total_bits)
      (hr : Longest (fun k => k ∈ used ↔ set = true) addr n r) :
      Does total_bits behind used (.count addr n set) (0, r) used
  | canGrow {addr n : ℕ} (hin : addr + n ≤ total_bits) :
      Does total_bits behind used (.canGrow addr n) (growCode used addr n, 0) used
  | found {lo n addr : ℕ} (hin : (Call.findOne lo n).Inside total_bits) (hlo : lo ≤ addr)
      (hend : addr < searchEnd total_bits lo n) (hfree : ¬ Taken total_bits behind used addr)
      (hfirst : ∀ k, lo ≤ k → k < addr → Taken total_bits behind used k) :
      Does total_bits behind used (.findOne lo n) (0, addr) used
  | full {lo n : ℕ} (hin : (Call.findOne lo n).Inside total_bits)
      (hall : ∀ k, lo ≤ k → k < searchEnd total_bits lo n → Taken total_bits behind used k) :
      Does total_bits behind used (.findOne lo n) (-1, 0) used
  | refused {call : Call} (hout : ¬ call.Inside total_bits) :
      Does total_bits behind used call (-1, 0) used

/-! ## One call -/

/-- Nothing behind the map is touched. -/
structure KeepsRest (total_bits : ℕ) (bm bm' : List Byte) : Prop where
  length_eq : bm'.length = bm.length
  bit : ∀ k, total_bits ≤ k → bitAt bm' k = bitAt bm k

lemma KeepsRest.refl (total_bits : ℕ) (bm : List Byte) : KeepsRest total_bits bm bm :=
  ⟨rfl, fun _ _ => rfl⟩

lemma KeepsRest.trans {total_bits : ℕ} {bm bm' bm'' : List Byte} (h : KeepsRest total_bits bm bm')
    (h' : KeepsRest total_bits bm' bm'') : KeepsRest total_bits bm bm'' where
  length_eq := h'.length_eq.trans h.length_eq
  bit k hk := (h'.bit k hk).trans (h.bit k hk)

section Call

variable {bm bm' : List Byte} {total_bits addr n : ℕ} {set : Bool}

lemma clearOrSet_cases (set : Bool) : clearOrSet set = 0 ∨ clearOrSet set = 1 := by
  cases set
  · left
    rfl
  · right
    rfl

@[simp] lemma decide_clearOrSet (set : Bool) : decide (clearOrSet set = 1) = set := by
  cases set <;> rfl

/-- `bm_get_bit` inside the map. -/
theorem bmGetBit_spec (hcov : total_bits ≤ 8 * bm.length) (hin : addr < total_bits) :
    bmGetBit bm total_bits addr = some (if bitAt bm addr then 1 else 0) := by
  have hi : addr / 8 < bm.length := by omega
  have hbit : bitAt bm addr = bm[addr / 8].getLsbD (addr % 8) := by
    simp [bitAt, hi]
  have hmask := mask_ne_zero_iff bm[addr / 8] (show addr % 8 < 8 by omega)
  rw [bmGetBit, if_neg (by omega), List.getElem?_eq_getElem hi, hbit]
  simp only [Option.bind_eq_bind, Option.bind_some, byteGetBit, Option.some.injEq]
  rw [BitVec.and_comm]
  by_cases hset : bm[addr / 8].getLsbD (addr % 8) = true
  · rw [if_neg (hmask.mpr hset), if_pos hset]
  · rw [if_pos (by_contra fun h => hset (hmask.mp h)), if_neg hset]

/-- Setting a range of the map adds its addresses to the set or takes them away. -/
lemma onesBelow_mark (h : SetRange bm bm' addr (addr + n) set) (hin : addr + n ≤ total_bits) :
    onesBelow bm' total_bits = mark (onesBelow bm total_bits) addr n set := by
  ext k
  rw [mem_onesBelow, h.bit]
  by_cases hk : addr ≤ k ∧ k < addr + n
  · have hlt : k < total_bits := by omega
    cases set <;> simp [mark, hk, hlt]
  · cases set <;> simp [mark, hk]

lemma keepsRest_of_setRange (h : SetRange bm bm' addr (addr + n) set)
    (hin : addr + n ≤ total_bits) : KeepsRest total_bits bm bm' where
  length_eq := h.length_eq
  bit k hk := by rw [h.bit, if_neg (by omega)]

/-- Inside the map an address counts exactly when it is of the kind that is counted. -/
lemma counted_iff {k : ℕ} (hk : k < total_bits) :
    Counted bm (clearOrSet set) k ↔ (k ∈ onesBelow bm total_bits ↔ set = true) := by
  rw [Counted, decide_clearOrSet, mem_onesBelow]
  cases set <;> simp [hk]

lemma longest_onesBelow {r : ℕ} (hin : addr + n ≤ total_bits)
    (h : Longest (Counted bm (clearOrSet set)) addr n r) :
    Longest (fun k => k ∈ onesBelow bm total_bits ↔ set = true) addr n r where
  le := h.le
  all i hlo hhi := by
    have hle := h.le
    exact (counted_iff (by omega)).mp (h.all i hlo hhi)
  stop hr hk := h.stop hr ((counted_iff (by omega)).mpr hk)

lemma canGrow_iff (hin : addr + n ≤ total_bits) :
    CanGrow (onesBelow bm total_bits) addr n ↔ Growable bm addr n := by
  apply exists_congr
  intro k
  apply and_congr_right
  intro hk
  rw [Finset.disjoint_left]
  apply and_congr
  · constructor
    · intro hsub i hlo hhi
      exact (mem_onesBelow.mp (hsub (Finset.mem_Ico.mpr ⟨hlo, hhi⟩))).2
    · intro hones i hi
      rw [Finset.mem_Ico] at hi
      exact mem_onesBelow.mpr ⟨by omega, hones i hi.1 hi.2⟩
  · constructor
    · intro hfree i hlo hhi
      have hno := hfree (Finset.mem_Ico.mpr ⟨hlo, hhi⟩)
      rw [mem_onesBelow] at hno
      by_contra hset
      exact hno ⟨by omega, by simpa using hset⟩
    · intro hzeroes i hi hmem
      rw [Finset.mem_Ico] at hi
      have hset := (mem_onesBelow.mp hmem).2
      rw [hzeroes i hi.1 hi.2] at hset
      simp at hset

end Call

section Does

variable {bm : List Byte} {total_bits addr n : ℕ} {set : Bool} {behind : ℕ → Bool}

/-- A call is answered, keeps what is behind the map and does what `Does` says. -/
def Served (total_bits : ℕ) (behind : ℕ → Bool) (bm : List Byte) (call : Call) : Prop :=
  ∃ answer bm', callMap total_bits bm call = some (answer, bm') ∧ KeepsRest total_bits bm bm' ∧
    Does total_bits behind (onesBelow bm total_bits) call answer (onesBelow bm' total_bits)

/-- A call that is answered without a write. -/
lemma served_of_read {call : Call} (answer : ℤ × ℕ)
    (h : callMap total_bits bm call = some (answer, bm))
    (hdoes : Does total_bits behind (onesBelow bm total_bits) call answer
      (onesBelow bm total_bits)) : Served total_bits behind bm call :=
  ⟨answer, bm, h, .refl _ _, hdoes⟩

/-- The search sees the bits of the buffer. -/
lemma taken_iff (hbehind : ∀ k, total_bits ≤ k → bitAt bm k = behind k) (k : ℕ) :
    Taken total_bits behind (onesBelow bm total_bits) k ↔ bitAt bm k = true := by
  unfold Taken
  split_ifs with hk
  · rw [mem_onesBelow, and_iff_right hk]
  · rw [hbehind k (by omega)]

lemma served_setBit (hcov : total_bits ≤ 8 * bm.length) :
    Served total_bits behind bm (.setBit addr set) := by
  by_cases hin : addr < total_bits
  · obtain ⟨bm', hset, hrange⟩ := bmSetBit_spec bm total_bits addr (clearOrSet set) hcov hin
    rw [decide_clearOrSet] at hrange
    refine ⟨(0, 0), bm', ?_, keepsRest_of_setRange hrange (by omega), ?_⟩
    · simp [callMap, hset]
    · rw [onesBelow_mark hrange (by omega)]
      exact .setBit hin
  · apply served_of_read (-1, 0)
    · simp [callMap, bmSetBit, show total_bits ≤ addr by omega]
    · exact .refused hin

lemma served_getBit (hcov : total_bits ≤ 8 * bm.length) :
    Served total_bits behind bm (.getBit addr) := by
  by_cases hin : addr < total_bits
  · apply served_of_read (if addr ∈ onesBelow bm total_bits then 1 else 0, 0)
    · simp [callMap, bmGetBit_spec hcov hin, hin]
    · exact .getBit hin
  · apply served_of_read (-1, 0)
    · simp [callMap, bmGetBit, show total_bits ≤ addr by omega]
    · exact .refused hin

lemma served_setExtent (hcov : total_bits ≤ 8 * bm.length) (h64 : total_bits < 2 ^ 64)
    (hfits : (Call.setExtent addr n set).Fits) :
    Served total_bits behind bm (.setExtent addr n set) := by
  obtain ⟨hpos, hwrap⟩ := hfits
  by_cases hin : addr + n ≤ total_bits
  · obtain ⟨bm', hset, hrange⟩ := bmSetExtent_spec hcov h64 hpos hin (clearOrSet_cases set)
    rw [decide_clearOrSet] at hrange
    have hmarked : addr + markedBits addr n ≤ total_bits := by
      unfold markedBits
      split <;> omega
    refine ⟨(extentCode addr n, 0), bm', ?_, keepsRest_of_setRange hrange hmarked, ?_⟩
    · simp [callMap, hset]
    · rw [onesBelow_mark hrange hmarked]
      exact .setExtent hin
  · apply served_of_read (-1, 0)
    · have hout : addr > total_bits ∨ u64 (addr + n) > total_bits := by
        rw [u64_of_lt hwrap]
        omega
      simp [callMap, bmSetExtent, hout]
    · exact .refused hin

lemma served_count (hcov : total_bits ≤ 8 * bm.length) (h64 : total_bits < 2 ^ 64)
    (hfits : (Call.count addr n set).Fits) : Served total_bits behind bm (.count addr n set) := by
  obtain ⟨hpos, h31, hwrap⟩ := hfits
  by_cases hin : addr + n ≤ total_bits
  · obtain ⟨r, hret, hlong⟩ := countExact_of_lt hcov h64 h31 hpos hin (clearOrSet_cases set)
    apply served_of_read (0, r)
    · simp [callMap, hret]
    · exact .count hin (longest_onesBelow hin hlong)
  · apply served_of_read (-1, 0)
    · have hout : addr ≥ total_bits ∨ u64 (addr + n) > total_bits := by
        rw [u64_of_lt hwrap]
        omega
      simp [callMap, bmCount, hout]
    · exact .refused hin

/-- The codes of `bm_extent_can_grow` inside the map. -/
lemma bmExtentCanGrow_eq (hcov : total_bits ≤ 8 * bm.length) (h64 : total_bits < 2 ^ 64)
    (hpos : 1 ≤ n) (h31 : n < 2 ^ 31) (hin : addr + n ≤ total_bits) :
    bmExtentCanGrow bm total_bits addr n = some (growCode (onesBelow bm total_bits) addr n) := by
  have hargs : ¬ (addr ≥ total_bits ∨ u64 (addr + n) > total_bits ∨ n = 0) := by
    rw [u64_of_lt (by omega)]
    omega
  obtain ⟨zeroes, hret₀, hzeroes⟩ : CountExact bm total_bits addr n 0 :=
    countExact_of_lt hcov h64 h31 hpos hin (.inl rfl)
  obtain ⟨ones, hret₁, hones⟩ : CountExact bm total_bits addr n 1 :=
    countExact_of_lt hcov h64 h31 hpos hin (.inr rfl)
  have hle := hones.le
  have hfirst : addr ∈ onesBelow bm total_bits ↔ bitAt bm addr = true := by
    rw [mem_onesBelow]
    exact and_iff_right (by omega)
  rw [bmExtentCanGrow, if_neg hargs, hret₀]
  simp only [Option.bind_eq_bind, Option.bind_some, ne_eq, not_true_eq_false, if_false]
  rcases Nat.eq_zero_or_pos zeroes with rfl | hstart
  · -- the extent begins with a used address
    have hsome : ones ≠ 0 := ones_ne_zero hzeroes hones hpos
    have hused : addr ∈ onesBelow bm total_bits := hfirst.mpr (hones.all addr le_rfl (by omega))
    rw [if_neg (Nat.lt_irrefl 0), hret₁, growCode, if_neg (not_not.mpr hused)]
    simp only [Option.bind_some, not_true_eq_false, if_false]
    by_cases hfull : ones = n
    · have hall := (longest_eq_iff hones).mp hfull
      have hsub : Finset.Ico addr (addr + n) ⊆ onesBelow bm total_bits := by
        intro i hi
        rw [Finset.mem_Ico] at hi
        exact mem_onesBelow.mpr ⟨by omega, hall i hi.1 hi.2⟩
      have hno : ¬ CanGrow (onesBelow bm total_bits) addr n :=
        mt (canGrow_iff hin).mp (not_growable_of_ones hall)
      rw [if_pos hfull, if_neg hno, if_pos hsub]
    · have hsub : ¬ Finset.Ico addr (addr + n) ⊆ onesBelow bm total_bits := by
        intro hsub
        refine hones.stop (by omega) (mem_onesBelow.mp (hsub ?_)).2
        exact Finset.mem_Ico.mpr ⟨by omega, by omega⟩
      obtain ⟨rest, hret₂, hrest⟩ : CountExact bm total_bits (addr + ones) (n - ones) 0 :=
        countExact_of_lt hcov h64 (by omega) (by omega) (by omega) (.inl rfl)
      have hgrow : CanGrow (onesBelow bm total_bits) addr n ↔ n - ones = rest := by
        rw [canGrow_iff hin, growable_iff_rest hones (by omega) hrest, eq_comm]
      rw [if_neg hfull, if_neg hsome, sub64_of_le hle (by omega), u64_of_lt (by omega), hret₂,
        if_neg hsub]
      simp only [Option.bind_some, not_true_eq_false, if_false, hgrow]
      split <;> rfl
  · -- it begins with a free one
    have hfree : addr ∉ onesBelow bm total_bits := by
      rw [hfirst]
      intro hset
      exact not_counted_zero hset (hzeroes.all addr le_rfl (by omega))
    have hgrow : CanGrow (onesBelow bm total_bits) addr n ↔ zeroes = n := by
      rw [canGrow_iff hin, growable_iff_zeroes hzeroes hstart]
    rw [if_pos hstart, growCode, if_pos hfree]
    simp only [hgrow]
    split <;> rfl

lemma served_canGrow (hcov : total_bits ≤ 8 * bm.length) (h64 : total_bits < 2 ^ 64)
    (hfits : (Call.canGrow addr n).Fits) : Served total_bits behind bm (.canGrow addr n) := by
  obtain ⟨hpos, h31, hwrap⟩ := hfits
  by_cases hin : addr + n ≤ total_bits
  · apply served_of_read (growCode (onesBelow bm total_bits) addr n, 0)
    · simp [callMap, bmExtentCanGrow_eq hcov h64 hpos h31 hin]
    · exact .canGrow hin
  · apply served_of_read (-1, 0)
    · have hout : addr ≥ total_bits ∨ u64 (addr + n) > total_bits ∨ n = 0 := by
        rw [u64_of_lt hwrap]
        omega
      simp [callMap, bmExtentCanGrow, hout]
    · exact .refused hin

/-- The search sees the bits between the end of the map and the end of its byte, so it may report
an address behind a full map. -/
lemma served_findOne (hcov : total_bits ≤ 8 * bm.length) (h63 : total_bits < 2 ^ 63)
    (hbehind : ∀ k, total_bits ≤ k → bitAt bm k = behind k)
    (hfits : (Call.findOne addr n).Fits) : Served total_bits behind bm (.findOne addr n) := by
  by_cases hin : (Call.findOne addr n).Inside total_bits
  · have hend : ∀ k, k < searchEnd total_bits addr n ↔
        8 * (k / 8) < min (addr + n) total_bits := by
      intro k
      unfold searchEnd
      omega
    have hfind := bmFind_one bm 0 hin.1 hin.2 (.inl (u64_of_lt hfits))
    generalize hr : bmFind bm total_bits addr n 1 0 = r at hfind
    cases hfind with
    | found found_address hlo hbyte hlen hclear hfirst =>
      rw [u64_of_lt (by omega)] at hr
      apply served_of_read (0, found_address)
      · simp [callMap, hr]
      · refine Does.found hin hlo ((hend found_address).mpr hbyte) ?_ ?_
        · rw [taken_iff hbehind, hclear]
          decide
        · intro k hk hlt
          exact (taken_iff hbehind k).mpr (hfirst k hk hlt)
    | full hall =>
      apply served_of_read (-1, 0)
      · simp [callMap, hr]
      · refine Does.full hin ?_
        intro k hk hlt
        exact (taken_iff hbehind k).mpr (hall k hk ((hend k).mp hlt))
    | outside hlen _ =>
      -- the buffer covers the map
      omega
  · apply served_of_read (-1, 0)
    · have hargs : total_bits ≤ addr ∨ n = 0 := by
        unfold Call.Inside at hin
        omega
      simp [callMap, bmFind, hargs]
    · exact .refused hin

end Does

/-- **One call** of a function of the map. -/
theorem callMap_does {bm : List Byte} {total_bits : ℕ} {behind : ℕ → Bool}
    (hcov : total_bits ≤ 8 * bm.length) (h63 : total_bits < 2 ^ 63)
    (hbehind : ∀ k, total_bits ≤ k → bitAt bm k = behind k) {call : Call} (hfits : call.Fits) :
    Served total_bits behind bm call := by
  have h64 : total_bits < 2 ^ 64 := by omega
  cases call with
  | setBit addr set => exact served_setBit hcov
  | getBit addr => exact served_getBit hcov
  | setExtent addr n set => exact served_setExtent hcov h64 hfits
  | count addr n set => exact served_count hcov h64 hfits
  | canGrow addr n => exact served_canGrow hcov h64 hfits
  | findOne addr n => exact served_findOne hcov h63 hbehind hfits

/-! ## Runs -/

/-- The value a call gives to address `k`, if it writes there. -/
def Call.marks (total_bits k : ℕ) : Call → Option Bool
  | .setBit addr set => if addr < total_bits ∧ k = addr then some set else none
  | .setExtent addr n set =>
    if addr + n ≤ total_bits ∧ addr ≤ k ∧ k < addr + markedBits addr n then some set else none
  | .getBit _ | .count _ _ _ | .canGrow _ _ | .findOne _ _ => none

/-- The value that the last of the calls to write to address `k` gives to it. -/
def lastMark (total_bits k : ℕ) : List Call → Option Bool
  | [] => none
  | call :: calls => (lastMark total_bits k calls).or (call.marks total_bits k)

section Runs

variable {bm : List Byte} {total_bits k : ℕ} {behind : ℕ → Bool} {used used' used'' : Finset ℕ}
  {call : Call} {calls : List Call} {answer answer' : ℤ × ℕ} {os os' : List (ℤ × ℕ)}

lemma mem_mark {lo n : ℕ} {set : Bool} :
    k ∈ mark used lo n set ↔ if lo ≤ k ∧ k < lo + n then set = true else k ∈ used := by
  by_cases hk : lo ≤ k ∧ k < lo + n
  · cases set <;> simp [mark, hk]
  · cases set <;> simp [mark, hk]

/-- A call leaves an address as it writes it, or as it was. -/
lemma Does.decide_mem (h : Does total_bits behind used call answer used') (k : ℕ) :
    decide (k ∈ used') = (call.marks total_bits k).getD (decide (k ∈ used)) := by
  rw [Bool.eq_iff_iff, decide_eq_true_iff]
  cases h with
  | @setBit addr set hin =>
    have hiff : (addr ≤ k ∧ k < addr + 1) ↔ k = addr := by omega
    simp only [mem_mark, Call.marks, hin, true_and, hiff]
    split <;> simp
  | @setExtent addr n set hin =>
    simp only [mem_mark, Call.marks, hin, true_and]
    split <;> simp
  | refused hout =>
    -- what is outside the map is not written
    have hnone : call.marks total_bits k = none := by
      cases call with
      | setBit addr set => exact if_neg fun h => hout h.1
      | setExtent addr n set => exact if_neg fun h => hout h.1
      | _ => rfl
    simp [hnone]
  | _ => simp [Call.marks]

/-- After a run an address is as the last call that wrote to it left it. -/
lemma decide_mem_of_answered (h : Answered (Does total_bits behind) used calls os used') :
    decide (k ∈ used') = (lastMark total_bits k calls).getD (decide (k ∈ used)) := by
  induction h with
  | nil => rfl
  | @cons _ _ _ _ _ calls _ head tail ih =>
    rw [ih, lastMark, head.decide_mem k]
    -- a later call decides, or this one
    cases lastMark total_bits k calls with
    | none => simp
    | some set => simp

/-- A search ends in one way. -/
lemma Taken.unique {lo addr addr' : ℕ} (hlo : lo ≤ addr)
    (hfree : ¬ Taken total_bits behind used addr)
    (hfirst : ∀ k, lo ≤ k → k < addr' → Taken total_bits behind used k) : addr' ≤ addr := by
  by_contra hlt
  exact hfree (hfirst addr hlo (by omega))

/-- Nothing is left open about a call. -/
lemma Does.unique (h : Does total_bits behind used call answer used')
    (h' : Does total_bits behind used call answer' used'') : answer = answer' ∧ used' = used'' := by
  cases h with
  | count hin hr =>
    cases h' with
    | count _ hr' => exact ⟨congrArg _ (hr.unique hr'), rfl⟩
    | refused hout => exact absurd hin hout
  | found hin hlo hend hfree hfirst =>
    cases h' with
    | found _ hlo' _ hfree' hfirst' =>
      have hle := Taken.unique hlo hfree hfirst'
      have hge := Taken.unique hlo' hfree' hfirst
      exact ⟨congrArg _ (by omega), rfl⟩
    | full _ hall => exact absurd (hall _ hlo hend) hfree
    | refused hout => exact absurd hin hout
  | full hin hall =>
    cases h' with
    | found _ hlo hend hfree _ => exact absurd (hall _ hlo hend) hfree
    | full => exact ⟨rfl, rfl⟩
    | refused hout => exact absurd hin hout
  | refused hout =>
    cases h' with
    | refused => exact ⟨rfl, rfl⟩
    | _ => contradiction
  | _ =>
    cases h' with
    | refused hout => contradiction
    | _ => exact ⟨rfl, rfl⟩

/-- Nor about a run. -/
theorem answered_unique (h : Answered (Does total_bits behind) used calls os used')
    (h' : Answered (Does total_bits behind) used calls os' used'') : os = os' ∧ used' = used'' :=
  Answered.unique (R := Does total_bits behind) (fun _ _ _ _ _ _ => Does.unique) h h'

/-- The calls of a run are answered as `Does` says. -/
lemma exists_answered (hcov : total_bits ≤ 8 * bm.length) (h63 : total_bits < 2 ^ 63)
    (hfits : ∀ call ∈ calls, call.Fits) :
    ∃ os bm', answers (callMap total_bits) bm calls = some (os, bm') ∧
      KeepsRest total_bits bm bm' ∧
      Answered (Does total_bits (bitAt bm)) (onesBelow bm total_bits) calls os
        (onesBelow bm' total_bits) := by
  refine answers_refine (I := KeepsRest total_bits bm) (fun bm => onesBelow bm total_bits) ?_
    (.refl _ _) hfits
  intro bm₁ call hI hcall
  have hcov₁ : total_bits ≤ 8 * bm₁.length := by rw [hI.length_eq]; exact hcov
  obtain ⟨answer, bm', hret, hkeeps, hdoes⟩ := callMap_does hcov₁ h63 hI.bit hcall
  exact ⟨answer, bm', hret, hI.trans hkeeps, hdoes⟩

end Runs

end KanekFs.Map
