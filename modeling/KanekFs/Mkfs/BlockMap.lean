import KanekFs.Mkfs.Regions
import Mathlib.Data.Finset.Card
import Mathlib.Data.List.Flatten
import Mathlib.Tactic.NormNum

/-!
# The block map of a fresh file system

When is the block map that `write_map` leaves on the device exact, in its bits and in its
counter? Every builder marks its extents with `bm_set_extent`, ignores the code it returns,
and adds the whole length to a 32-bit counter.

* `exact_iff_of_inRange`: for any layout inside the file, the map is exact iff no extent of
  two or more blocks ends one block into a byte of the map, the counter does not overflow,
  and the extents do not overlap.
* `itemsBudget_le` bounds the floating-point budget, so the layouts of `compute_values` are
  inside the file; `blockMapExact_iff` is the result for them.
-/

namespace KanekFs.Mkfs

open Bytes Word Map Round

/-! ## Exact maps -/

/-- The number of set bits of a bitmap. -/
def ones (bm : List Byte) : ℕ :=
  ((Finset.range (8 * bm.length)).filter fun k => bitAt bm k = true).card

/-- The block map as it stands on the device. -/
def diskMap (bc : BlocksCalc) (d : Disk) : List Byte :=
  readBlocks d (fsMapBlock bc) bc.out_bitmap_size_in_blocks

/-- The marked blocks are those of the extents, and the header counts them. -/
structure MapExact (bc : BlocksCalc) (map : List Byte) : Prop where
  bit : ∀ k, bitAt (bitmapOf map) k = true ↔ ∃ r ∈ regions bc, r.Has k
  count : ExtentHeader.eh_entries_in_use.get map = ones (bitmapOf map)

/-- The builders run, and the block map on the device is exact. -/
def BlockMapExact (bc : BlocksCalc) (sb_time sinodes_time : ℕ) : Prop :=
  ∃ w, buildFilesystem bc sb_time sinodes_time = some w ∧ MapExact bc (diskMap bc (image w))

/-- `bm_set_extent` marks all of the region. -/
def Region.MarkedFully (r : Region) : Prop := r.blocks = 1 ∨ (r.addr + r.blocks) % 8 ≠ 1

instance (r : Region) : Decidable r.MarkedFully := inferInstanceAs (Decidable (_ ∨ _))

lemma Region.marks_iff_has {r : Region} (h : r.MarkedFully) (k : ℕ) : r.Marks k ↔ r.Has k := by
  have hnot : ¬ (r.blocks ≠ 1 ∧ (r.addr + r.blocks) % 8 = 1) := by
    rcases h with h | h <;> omega
  rw [Marks, Has, markedBits, if_neg hnot]

lemma Region.Marks.has {r : Region} {k : ℕ} (h : r.Marks k) : r.Has k := by
  rcases h with ⟨hlo, hhi⟩
  refine ⟨hlo, ?_⟩
  unfold markedBits at hhi
  split at hhi <;> omega

/-- `write_map` runs last: the device holds the map that the builders left in memory. -/
lemma diskMap_image {bc : BlocksCalc} (h : InRange bc) (sb_time sinodes_time : ℕ)
    (p : List Byte) {map : List Byte}
    (hlen : map.length = kfsBlocksize * bc.out_bitmap_size_in_blocks) :
    diskMap bc (image (written bc sb_time sinodes_time p map)) = map := by
  have hend := (h.region_fits (r := ⟨fsMapBlock bc, bc.out_bitmap_size_in_blocks⟩)
    (by simp [regions])).2
  have hsmall := h.small
  -- the writes of `write_map` come after all the others
  have hall : (written bc sb_time sinodes_time p map).all =
      (buildSuperblock bc sb_time ++ (sinodesTable bc sinodes_time ++
        (writeBlocks p (sinodeMapBlock bc) bc.out_sinodes_bitmap_blocks_num ++
          (slotsTable bc ++ slotsBitmap bc)))) ++
        writeBlocks map (fsMapBlock bc) bc.out_bitmap_size_in_blocks := by
    simp [Written.all, Written.extents, written]
  rw [diskMap, image, hall, applyWrites_append]
  exact readBlocks_writeBlocks _ (by simp only at hend; omega) hlen

section Exact

variable {bc : BlocksCalc} {map : List Byte}

/-- Only blocks of the file are marked. -/
lemma ones_le (h : InRange bc)
    (hm : MapState bc map (fun k => ∃ r ∈ regions bc, r.Marks k) (regionBlocks bc)) :
    ones (bitmapOf map) ≤ bc.in_file_size_in_blocks := by
  have hsub : (Finset.range (8 * (bitmapOf map).length)).filter
      (fun k => bitAt (bitmapOf map) k = true) ⊆ Finset.range bc.in_file_size_in_blocks := by
    -- a marked block belongs to an extent, and the extent to the file
    intro k hk
    rcases (hm.bit k).mp (Finset.mem_filter.mp hk).2 with ⟨r, hr, hmark⟩
    have hhas := hmark.has
    have hend := (h.region_fits hr).2
    rw [Finset.mem_range]
    unfold Region.Has at hhas
    omega
  simpa [ones] using Finset.card_le_card hsub

/-- With disjoint, fully marked extents the set bits are as many as the blocks. -/
lemma ones_eq (h : InRange bc) (hfit : regionBlocks bc ≤ bc.in_file_size_in_blocks)
    (hm : MapState bc map (fun k => ∃ r ∈ regions bc, r.Has k) (regionBlocks bc)) :
    ones (bitmapOf map) = regionBlocks bc := by
  have hnodup := nodup_region_addrs (h.regions_apart hfit)
  have hset : (Finset.range (8 * (bitmapOf map).length)).filter
      (fun k => bitAt (bitmapOf map) k = true) =
        ((regions bc).map Region.addrs).flatten.toFinset := by
    -- both sets are the blocks of the extents
    ext k
    rw [Finset.mem_filter, List.mem_toFinset, List.mem_flatten, Finset.mem_range, hm.bit]
    constructor
    · rintro ⟨-, r, hr, hhas⟩
      exact ⟨r.addrs, List.mem_map_of_mem hr, Region.mem_addrs.mpr hhas⟩
    · rintro ⟨l, hl, hk⟩
      rcases List.mem_map.mp hl with ⟨r, hr, rfl⟩
      have hhas := Region.mem_addrs.mp hk
      have hend := (h.region_fits hr).2
      have hcov := hm.length_bitmapOf h
      exact ⟨by unfold Region.Has at hhas; omega, r, hr, hhas⟩
  rw [ones, hset, List.toFinset_card_of_nodup hnodup, List.length_flatten, List.map_map,
    regionBlocks]
  congr 1
  exact List.map_congr_left fun r _ => r.length_addrs

/-- An extent that loses its last bit shows, unless another extent overlaps it. -/
lemma markedFully_of_exact (h : InRange bc) (hfit : regionBlocks bc ≤ bc.in_file_size_in_blocks)
    (hm : MapState bc map (fun k => ∃ r ∈ regions bc, r.Marks k) (regionBlocks bc))
    (hexact : MapExact bc map) {r : Region} (hr : r ∈ regions bc) : r.MarkedFully := by
  by_contra hlost
  unfold Region.MarkedFully at hlost
  have hpos := (h.region_fits hr).1
  -- look at the last block of the extent
  have hhas : r.Has (r.addr + r.blocks - 1) := ⟨by omega, by omega⟩
  have hbit := (hexact.bit _).mpr ⟨r, hr, hhas⟩
  rcases (hm.bit _).mp hbit with ⟨r', hr', hmark⟩
  -- it is marked because of some extent: the extent itself does not mark it
  by_cases hrr : r = r'
  · subst hrr
    rcases hmark with ⟨-, hhi⟩
    rw [markedBits, if_pos (by omega)] at hhi
    omega
  · -- and another one does not even contain it
    have hapart : r.Apart r' := (h.regions_apart hfit).forall hr hr' hrr
    have hhas' := hmark.has
    unfold Region.Has at hhas'
    rcases hapart with hap | hap <;> omega

/-- **Exactness of the block map** for a layout inside the file. -/
theorem exact_iff_of_inRange (h : InRange bc) (sb_time sinodes_time : ℕ)
    (hcollide : bc.in_file_size_in_blocks < regionBlocks bc → regionBlocks bc < 2 ^ 32) :
    BlockMapExact bc sb_time sinodes_time ↔
      (∀ r ∈ regions bc, r.MarkedFully) ∧ regionBlocks bc < 2 ^ 32 ∧
        regionBlocks bc ≤ bc.in_file_size_in_blocks := by
  rcases buildFilesystem_spec h sb_time sinodes_time with ⟨p, map, hrun, -, hm⟩
  have hdisk := diskMap_image h sb_time sinodes_time p hm.length_eq
  have hiff : BlockMapExact bc sb_time sinodes_time ↔ MapExact bc map := by
    constructor
    · rintro ⟨w, hw, hexact⟩
      rw [hrun, Option.some_inj] at hw
      rwa [← hw, hdisk] at hexact
    · intro hexact
      exact ⟨_, hrun, by rwa [hdisk]⟩
  rw [hiff]
  constructor
  · intro hexact
    -- the counter against the number of set bits
    have hcount := hexact.count
    rw [hm.count_eq] at hcount
    have hfit : regionBlocks bc ≤ bc.in_file_size_in_blocks := by
      -- overlapping extents are counted twice
      by_contra hover
      have hle := ones_le h hm
      rw [Nat.mod_eq_of_lt (hcollide (by omega))] at hcount
      omega
    -- then every extent is marked fully, and the numbers agree
    have hfull : ∀ r ∈ regions bc, r.MarkedFully :=
      fun r hr => markedFully_of_exact h hfit hm hexact hr
    have hm' := hm.congr fun k => exists_congr fun r =>
      and_congr_right fun hr => Region.marks_iff_has (hfull r hr) k
    rw [ones_eq h hfit hm'] at hcount
    refine ⟨hfull, ?_, hfit⟩
    rw [← hcount]
    exact Nat.mod_lt _ (by decide)
  · -- conversely all blocks of the extents are marked, each of them once
    rintro ⟨hfull, h32, hfit⟩
    have hm' := hm.congr fun k => exists_congr fun r =>
      and_congr_right fun hr => Region.marks_iff_has (hfull r hr) k
    refine ⟨hm'.bit, ?_⟩
    rw [hm.count_eq, Nat.mod_eq_of_lt h32, ones_eq h hfit hm']

end Exact

/-! ## The floating-point budget -/

/-- One rounding to `float` or `double` adds less than a ten-thousandth. -/
lemma roundTo_le_of_prec (prec : ℕ) (hprec : 24 ≤ prec) {q r : ℚ} (hq : 0 ≤ q) (hr : q ≤ r) :
    0 ≤ roundTo prec q ∧ roundTo prec q ≤ r * (10001 / 10000) := by
  refine ⟨roundTo_nonneg prec hq, (roundTo_le prec hq hr).trans ?_⟩
  -- 24 bits are enough for the bound, more are better
  have hpow : ((2 : ℚ) ^ (prec : ℤ))⁻¹ ≤ 1 / 10000 := by
    have hmono : (2 : ℚ) ^ 24 ≤ 2 ^ prec := pow_le_pow_right₀ (by norm_num) hprec
    rw [zpow_natCast]
    calc ((2 : ℚ) ^ prec)⁻¹ ≤ (2 ^ 24)⁻¹ := inv_anti₀ (by norm_num) hmono
      _ ≤ 1 / 10000 := by norm_num
  have hr0 : 0 ≤ r := hq.trans hr
  gcongr
  linarith

/-- The budget is at most 45.2 percent of the file. -/
lemma itemsBudget_le {options : Options} (h : options.KfsPercent) (hhi : options.percentage ≤ 90) :
    1000 * itemsBudget options ≤ 452 * (options.size / kfsBlocksize) := by
  have hvalue : itemsBudget options =
      ⌊itemsBlocks options (options.size / kfsBlocksize) options.percentage⌋₊ := by
    simp only [itemsBudget, inValues, h.p, if_true]
  rw [hvalue]
  generalize options.size / kfsBlocksize = F
  generalize options.percentage = p at hhi
  have hp : (p : ℚ) ≤ 90 := by exact_mod_cast hhi
  -- the operations of the expression, from the inside out
  rcases roundTo_le_of_prec 24 le_rfl (Nat.cast_nonneg F) (le_refl (F : ℚ)) with ⟨hF0, hF⟩
  rcases roundTo_le_of_prec 24 le_rfl (Nat.cast_nonneg p) hp with ⟨hp0, hp⟩
  obtain ⟨hq0, hq⟩ := roundTo_le_of_prec 53 (by decide)
    (div_nonneg hp0 (by norm_num : (0 : ℚ) ≤ 100)) (div_le_div_of_nonneg_right hp (by norm_num))
  obtain ⟨hm0, hm⟩ := roundTo_le_of_prec 53 (by decide) (mul_nonneg hF0 hq0)
    (mul_le_mul hF hq hq0 (by positivity))
  rcases roundTo_le_of_prec 24 le_rfl hm0 hm with ⟨hi0, hi⟩
  obtain ⟨hh0, hh⟩ := roundTo_le_of_prec 53 (by decide)
    (div_nonneg hi0 (by norm_num : (0 : ℚ) ≤ 2)) (div_le_div_of_nonneg_right hi (by norm_num))
  rcases roundTo_le_of_prec 24 le_rfl hh0 hh with ⟨hr0, hr⟩
  -- seven roundings, each by less than a ten-thousandth
  have hitems : itemsBlocks options F p ≤ 452 / 1000 * F := by
    simp only [itemsBlocks, h.kfs, if_true]
    refine hr.trans ?_
    have hF' : (0 : ℚ) ≤ F := Nat.cast_nonneg F
    nlinarith only [hF']
  have hfloor : (⌊itemsBlocks options F p⌋₊ : ℚ) ≤ 452 / 1000 * F := by
    refine (Nat.floor_le ?_).trans hitems
    simpa only [itemsBlocks, h.kfs, if_true] using hr0
  have hcast : ((1000 * ⌊itemsBlocks options F p⌋₊ : ℕ) : ℚ) ≤ ((452 * F : ℕ) : ℚ) := by
    push_cast
    linarith
  exact_mod_cast hcast

/-- One rounding takes less than a ten-thousandth away. -/
lemma le_roundTo_of_prec (prec : ℕ) (hprec : 24 ≤ prec) {q r : ℚ} (hr0 : 0 ≤ r) (hr : r ≤ q) :
    0 ≤ r * (9999 / 10000) ∧ r * (9999 / 10000) ≤ roundTo prec q := by
  refine ⟨by positivity, le_trans ?_ (le_roundTo prec (hr0.trans hr) hr)⟩
  have hpow : ((2 : ℚ) ^ (prec : ℤ))⁻¹ ≤ 1 / 10000 := by
    have hmono : (2 : ℚ) ^ 24 ≤ 2 ^ prec := pow_le_pow_right₀ (by norm_num) hprec
    rw [zpow_natCast]
    calc ((2 : ℚ) ^ prec)⁻¹ ≤ (2 ^ 24)⁻¹ := inv_anti₀ (by norm_num) hmono
      _ ≤ 1 / 10000 := by norm_num
  gcongr
  linarith

/-- From the minimum size and two percent on, the budget is at least 12 blocks. -/
lemma le_itemsBudget {options : Options} (h : options.KfsPercent) (hmin : minFs ≤ options.size)
    (hlo : 2 ≤ options.percentage) : 12 ≤ itemsBudget options := by
  have hvalue : itemsBudget options =
      ⌊itemsBlocks options (options.size / kfsBlocksize) options.percentage⌋₊ := by
    simp only [itemsBudget, inValues, h.p, if_true]
  have hblocks : 1280 ≤ options.size / kfsBlocksize := by
    unfold minFs at hmin
    unfold kfsBlocksize
    omega
  rw [hvalue]
  generalize options.size / kfsBlocksize = F at hblocks ⊢
  generalize options.percentage = p at hlo ⊢
  have hF : (1280 : ℚ) ≤ F := by exact_mod_cast hblocks
  have hp : (2 : ℚ) ≤ p := by exact_mod_cast hlo
  -- the operations of the expression, from the inside out
  rcases le_roundTo_of_prec 24 le_rfl (by norm_num) hF with ⟨hF0, hF⟩
  rcases le_roundTo_of_prec 24 le_rfl (by norm_num) hp with ⟨hp0, hp⟩
  obtain ⟨hq0, hq⟩ := le_roundTo_of_prec 53 (by decide) (by positivity)
    (div_le_div_of_nonneg_right hp (by norm_num : (0 : ℚ) ≤ 100))
  obtain ⟨hm0, hm⟩ := le_roundTo_of_prec 53 (by decide) (mul_nonneg hF0 hq0)
    (mul_le_mul hF hq hq0 (hF0.trans hF))
  rcases le_roundTo_of_prec 24 le_rfl hm0 hm with ⟨hi0, hi⟩
  obtain ⟨hh0, hh⟩ := le_roundTo_of_prec 53 (by decide) (by positivity)
    (div_le_div_of_nonneg_right hi (by norm_num : (0 : ℚ) ≤ 2))
  rcases le_roundTo_of_prec 24 le_rfl hh0 hh with ⟨-, hr⟩
  refine Nat.le_floor ?_
  simp only [itemsBlocks, h.kfs, if_true]
  exact le_trans (by norm_num) hr

/-! ## The layouts of `compute_values` -/

section Layouts

variable {options : Options} (h : options.KfsPercent) (device_blocks : ℕ → ℕ)
include h

/-- The extents of a layout lie inside the file, and all of them fit into it together. -/
lemma fits_computeValues (hmin : minFs ≤ options.size) (hsize : options.size < 2 ^ 64)
    (hlo : 2 ≤ options.percentage) (hhi : options.percentage ≤ 90) :
    InRange (computeValues options device_blocks) ∧
      (computeValues options device_blocks).out_total_blocks_required =
        regionBlocks (computeValues options device_blocks) ∧
      regionBlocks (computeValues options device_blocks) ≤
        (computeValues options device_blocks).in_file_size_in_blocks := by
  have hbudget := itemsBudget_le h hhi
  have hitems := le_itemsBudget h hmin hlo
  have hF : options.size / kfsBlocksize < 2 ^ 51 := by
    unfold kfsBlocksize
    omega
  have hF' : 1280 ≤ options.size / kfsBlocksize := by
    unfold minFs at hmin
    unfold kfsBlocksize
    omega
  have h64 : itemsBudget options < 2 ^ 64 := by omega
  have hblocks := regionBlocks_of_budget device_blocks h.plain h64
  have hB := ceilBlocks_bitsPerBlock (options.size / kfsBlocksize)
  refine ⟨inRange_of_budget device_blocks h.plain hsize (by omega) hbudget, ?_, ?_⟩
  · rw [computeValues, hblocks, computeValuesWith_plain h.plain h64]
    simp only
    rw [u64_of_lt (by omega)]
    omega
  · rw [computeValues, hblocks, computeValuesWith_plain h.plain h64]
    simp only [inValues]
    omega

/-- **The extents never collide**, with the budget as `compute_values` rounds it. -/
theorem rounded_regions_sound (sb_time sinodes_time : ℕ) (hmin : minFs ≤ options.size)
    (hsize : options.size < 2 ^ 64) (hlo : 2 ≤ options.percentage)
    (hhi : options.percentage ≤ 90) :
    ∃ w, buildFilesystem (computeValues options device_blocks) sb_time sinodes_time = some w ∧
      RegionsSound (computeValues options device_blocks) (itemsBudget options) w := by
  rcases fits_computeValues h device_blocks hmin hsize hlo hhi with ⟨hrange, htotal, hfit⟩
  rcases buildFilesystem_spec hrange sb_time sinodes_time with ⟨p, map, hrun, -, -⟩
  refine ⟨_, hrun, regionsSound_of_fits hrange htotal hfit ?_⟩
  have hbudget := itemsBudget_le h hhi
  have hF : options.size / kfsBlocksize < 2 ^ 51 := by
    unfold kfsBlocksize
    omega
  rw [computeValues, computeValuesWith_plain h.plain (by omega)]
  exact ⟨ceilBlocks_le _, ceilBlocks_le _⟩

end Layouts

/-- The smallest file system with the largest percentage. -/
theorem rounded_regions_sound_min :
    ∃ w, buildFilesystem (computeValues (kfsOptions minFs 90) id) 0 0 = some w ∧
      RegionsSound (computeValues (kfsOptions minFs 90) id) (itemsBudget (kfsOptions minFs 90)) w :=
  rounded_regions_sound (kfsOptions_kfsPercent minFs 90) id 0 0 le_rfl (by decide) (by decide)
    (by decide)

/-- **The block map of a fresh file system** is exact in its bits and in its counter exactly
when no extent of two or more blocks ends one block into a byte of the map, the number of used
blocks fits the 32-bit counter, and the layout fits the file. -/
theorem blockMapExact_iff (options : Options) (device_blocks : ℕ → ℕ) (sb_time sinodes_time : ℕ)
    (h : options.KfsPercent) (hsize : options.size < 2 ^ 64) (hhi : options.percentage ≤ 90)
    (hslots : 1 ≤ (computeValues options device_blocks).out_slots_table_in_blocks) :
    BlockMapExact (computeValues options device_blocks) sb_time sinodes_time ↔
      (∀ r ∈ regions (computeValues options device_blocks), r.MarkedFully) ∧
        (computeValues options device_blocks).out_total_blocks_required < 2 ^ 32 ∧
        (computeValues options device_blocks).out_total_blocks_required ≤
          (computeValues options device_blocks).in_file_size_in_blocks := by
  have hbudget := itemsBudget_le h hhi
  have hF : options.size / kfsBlocksize < 2 ^ 51 := by
    unfold kfsBlocksize
    omega
  have h64 : itemsBudget options < 2 ^ 64 := by omega
  -- a table of at least one block needs a budget of at least two
  have hitems : 2 ≤ itemsBudget options := by
    rw [computeValues, computeValuesWith_plain h.plain h64] at hslots
    simp only at hslots
    have hpos : 1 ≤ ceilBlocks (itemsBudget options) bitsPerBlock := ceilBlocks_pos (by omega)
    omega
  have hrange := inRange_of_budget device_blocks h.plain hsize hitems hbudget
  have hblocks := regionBlocks_of_budget device_blocks h.plain h64
  have hB := ceilBlocks_bitsPerBlock (options.size / kfsBlocksize)
  have htotal : (computeValues options device_blocks).out_total_blocks_required =
      regionBlocks (computeValues options device_blocks) := by
    rw [computeValues, hblocks, computeValuesWith_plain h.plain h64]
    simp only
    rw [u64_of_lt (by omega)]
    omega
  rw [htotal]
  refine exact_iff_of_inRange hrange sb_time sinodes_time ?_
  -- a layout larger than its file is below the range of the counter
  intro hover
  rw [computeValues, hblocks] at *
  rw [computeValuesWith_plain h.plain h64] at hover
  simp only [inValues] at hover
  omega

/-- The smallest file system with the default percentage: the tables end at blocks 64 and
127, every bitmap is one block. -/
theorem blockMapExact_min :
    BlockMapExact (computeValues (kfsOptions minFs 10) id) 0 0 :=
  (blockMapExact_iff (kfsOptions minFs 10) id 0 0 (kfsOptions_kfsPercent minFs 10) (by decide)
    (by decide) (by decide +kernel)).mpr (by decide +kernel)

/-- A file of 1300 blocks: both tables are 64 blocks long and end one block into a byte of the
map, so their last blocks, 64 and 128, stay unmarked. -/
theorem blockMap_loses_last_blocks :
    ¬ BlockMapExact (computeValues (kfsOptions (1300 * 8192) 10) id) 0 0 := by
  have hbudget : itemsBudget (kfsOptions (1300 * 8192) 10) = 65 := by decide +kernel
  rw [computeValues, hbudget, exact_iff_of_inRange (inRange_of_budget id
    (kfsOptions_kfsPercent _ _).plain (by decide) (by decide) (by decide)) 0 0 (by decide)]
  decide

end KanekFs.Mkfs
