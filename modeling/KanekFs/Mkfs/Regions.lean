import KanekFs.Mkfs.Run
import Mathlib.Algebra.Order.Floor.Semifield
import Mathlib.Data.Rat.Floor
import Mathlib.Tactic.Ring

/-!
# The extents of a file system do not collide

For `mkfs kfs -p percentage` the six extents of the layout are pairwise disjoint parts of the
file. The argument is one inequality: the two item budgets take at most 90 percent of the
file, so what is left has room for the superblock and the block map (`RegionsSound`).

`inRange_of_budget` and `regionBlocks_of_budget` hold for any budget and are used for the
floating-point one as well.
-/

namespace KanekFs.Mkfs

open Bytes Word

/-- The options of the kfs command with `-p`, without `-s` and `-i`. -/
structure Options.KfsPercent (options : Options) : Prop where
  kfs : options.has cmdKfs
  p : options.has optP
  no_s : ¬ options.has optS
  no_i : ¬ options.has optI

lemma Options.KfsPercent.plain {options : Options} (h : options.KfsPercent) : options.Plain :=
  ⟨Or.inl h.kfs, h.no_s, h.no_i⟩

lemma kfsOptions_kfsPercent (size percentage : ℕ) : (kfsOptions size percentage).KfsPercent :=
  ⟨by simp [Options.has, kfsOptions, cmdKfs, optP],
   by simp [Options.has, kfsOptions, cmdKfs, optP],
   by simp [Options.has, kfsOptions, cmdKfs, optP, optS],
   by simp [Options.has, kfsOptions, cmdKfs, optP, optI]⟩

/-! ## Layouts of a budget -/

section Budget

variable {options : Options} {items_blocks : ℕ} (device_blocks : ℕ → ℕ)

/-- A budget that leaves a tenth of the file free gives extents inside the file. -/
theorem inRange_of_budget (h : options.Plain) (hsize : options.size < 2 ^ 64)
    (hitems : 2 ≤ items_blocks)
    (hbudget : 1000 * items_blocks ≤ 452 * (options.size / kfsBlocksize)) :
    InRange (computeValuesWith options items_blocks device_blocks) := by
  have hF : options.size / kfsBlocksize < 2 ^ 51 := by
    unfold kfsBlocksize
    omega
  rw [computeValuesWith_plain h (by omega)]
  dsimp only [inValues]
  -- with both ceilings bounded, everything left is linear arithmetic
  have hm := ceilBlocks_bitsPerBlock items_blocks
  have hB := ceilBlocks_bitsPerBlock (options.size / kfsBlocksize)
  generalize options.size / kfsBlocksize = F at *
  generalize ceilBlocks items_blocks bitsPerBlock = m at *
  generalize ceilBlocks F bitsPerBlock = B at *
  constructor <;> dsimp only <;> omega

/-- The blocks of all extents: the superblock, both budgets and the block map. -/
theorem regionBlocks_of_budget (h : options.Plain) (hitems : items_blocks < 2 ^ 64) :
    regionBlocks (computeValuesWith options items_blocks device_blocks) =
      1 + 2 * items_blocks + ceilBlocks (options.size / kfsBlocksize) bitsPerBlock := by
  have hm := ceilBlocks_le items_blocks
  rw [computeValuesWith_plain h hitems]
  simp only [regionBlocks, regions, List.map_cons, List.map_nil, List.sum_cons, List.sum_nil]
  omega

end Budget

/-! ## The exact budget -/

/-- `items_blocks` computed without rounding, truncated. -/
def exactBudget (in_file_size_in_blocks in_percentage : ℕ) : ℕ :=
  ⌊(in_file_size_in_blocks : ℚ) * in_percentage / 100 / 2⌋₊

lemma exactBudget_eq (F p : ℕ) : exactBudget F p = F * p / 200 := by
  have hdiv : (F : ℚ) * p / 100 / 2 = ((F * p : ℕ) : ℚ) / (200 : ℕ) := by
    push_cast
    ring
  rw [exactBudget, hdiv, Nat.floor_div_eq_div]

/-- The regions that a run of the builders writes are disjoint parts of the file, the total is
the sum of their sizes, and no unsigned subtraction on the way to them wraps. -/
structure RegionsSound (bc : BlocksCalc) (items_blocks : ℕ) (w : Written) : Prop where
  written : w.extents.map (fun ws => ws.map Write.addr) = (regions bc).map Region.addrs
  disjoint : (w.extents.map fun ws => ws.map Write.addr).Pairwise List.Disjoint
  inside : ∀ ws ∈ w.extents, ∀ x ∈ ws, x.addr < bc.in_file_size_in_blocks
  total : bc.out_total_blocks_required = ((regions bc).map Region.blocks).sum
  fits : bc.out_total_blocks_required ≤ bc.in_file_size_in_blocks
  items_no_wrap : bc.out_slots_bitmap_blocks_num ≤ items_blocks ∧
    bc.out_sinodes_bitmap_blocks_num ≤ items_blocks
  map_no_wrap : bc.out_bitmap_size_in_blocks ≤ bc.in_file_size_in_blocks
  slot_map_no_wrap : bc.out_slots_bitmap_blocks_num ≤ fsMapBlock bc
  sinode_map_no_wrap : bc.out_sinodes_bitmap_blocks_num ≤ slotMapBlock bc

/-- A layout whose extents fit into the file together is sound. -/
lemma regionsSound_of_fits {bc : BlocksCalc} {items_blocks sb_time sinodes_time : ℕ}
    {p map : List Byte} (h : InRange bc) (htotal : bc.out_total_blocks_required = regionBlocks bc)
    (hfit : regionBlocks bc ≤ bc.in_file_size_in_blocks)
    (hitems : bc.out_slots_bitmap_blocks_num ≤ items_blocks ∧
      bc.out_sinodes_bitmap_blocks_num ≤ items_blocks) :
    RegionsSound bc items_blocks (written bc sb_time sinodes_time p map) := by
  have haddrs := extents_addrs h sb_time sinodes_time p map
  have hbitmaps := h.bitmaps
  refine
    { written := haddrs
      disjoint := haddrs ▸ (nodup_region_addrs (h.regions_apart hfit) |> List.nodup_flatten.mp).2
      inside := ?_
      total := htotal
      fits := htotal ▸ hfit
      items_no_wrap := hitems
      map_no_wrap := by omega
      slot_map_no_wrap := by rw [h.fsMapBlock_eq]; omega
      sinode_map_no_wrap := by rw [h.slotMapBlock_eq]; omega }
  -- a written block is a block of one of the extents, and these end inside the file
  intro ws hws x hx
  have hmem : ws.map Write.addr ∈ (regions bc).map Region.addrs :=
    haddrs ▸ List.mem_map_of_mem hws
  rcases List.mem_map.mp hmem with ⟨r, hr, heq⟩
  have hin : x.addr ∈ r.addrs := heq ▸ List.mem_map_of_mem hx
  have hend := (h.region_fits hr).2
  rw [Region.mem_addrs, Region.Has] at hin
  omega

/-- **The extents never collide**: for every size from the minimum on and every admitted
percentage, with the item budget computed exactly. -/
theorem regions_never_collide (options : Options) (device_blocks : ℕ → ℕ)
    (sb_time sinodes_time : ℕ) (h : options.KfsPercent) (hmin : minFs ≤ options.size)
    (hsize : options.size < 2 ^ 64) (hlo : 2 ≤ options.percentage)
    (hhi : options.percentage ≤ 90) :
    ∃ w, buildFilesystem (computeValuesWith options
          (exactBudget (options.size / kfsBlocksize) options.percentage) device_blocks)
        sb_time sinodes_time = some w ∧
      RegionsSound (computeValuesWith options
          (exactBudget (options.size / kfsBlocksize) options.percentage) device_blocks)
        (exactBudget (options.size / kfsBlocksize) options.percentage) w := by
  have hF : 1280 ≤ options.size / kfsBlocksize := by
    unfold minFs at hmin
    unfold kfsBlocksize
    omega
  have hF64 : options.size / kfsBlocksize < 2 ^ 51 := by
    unfold kfsBlocksize
    omega
  -- two percent at least and ninety at most, so the budget is between 12 and 9 F / 20
  have hprod_lo : options.size / kfsBlocksize * 2 ≤
      options.size / kfsBlocksize * options.percentage := Nat.mul_le_mul_left _ hlo
  have hprod_hi : options.size / kfsBlocksize * options.percentage ≤
      options.size / kfsBlocksize * 90 := Nat.mul_le_mul_left _ hhi
  rw [exactBudget_eq]
  have hlo' : 12 ≤ options.size / kfsBlocksize * options.percentage / 200 := by omega
  have hhi' : 20 * (options.size / kfsBlocksize * options.percentage / 200) ≤
      9 * (options.size / kfsBlocksize) := by omega
  generalize options.size / kfsBlocksize * options.percentage / 200 = b at hlo' hhi' ⊢
  have hb64 : b < 2 ^ 64 := by omega
  have hrange := inRange_of_budget device_blocks h.plain hsize (show 2 ≤ b by omega) (by omega)
  have hblocks := regionBlocks_of_budget device_blocks h.plain hb64
  -- the block map takes one block in 65280
  have hB := ceilBlocks_bitsPerBlock (options.size / kfsBlocksize)
  rcases buildFilesystem_spec hrange sb_time sinodes_time with ⟨p, map, hrun, -, -⟩
  refine ⟨_, hrun, regionsSound_of_fits hrange ?_ ?_ ?_⟩
  · rw [hblocks, computeValuesWith_plain h.plain hb64]
    simp only
    rw [u64_of_lt (by omega)]
    omega
  · rw [hblocks, computeValuesWith_plain h.plain hb64]
    simp only [inValues]
    omega
  · rw [computeValuesWith_plain h.plain hb64]
    exact ⟨ceilBlocks_le b, ceilBlocks_le b⟩

/-- The smallest file system with the largest percentage. -/
theorem regions_never_collide_min :
    ∃ w, buildFilesystem (computeValuesWith (kfsOptions minFs 90)
        (exactBudget (minFs / kfsBlocksize) 90) id) 0 0 = some w ∧
      RegionsSound (computeValuesWith (kfsOptions minFs 90)
        (exactBudget (minFs / kfsBlocksize) 90) id) (exactBudget (minFs / kfsBlocksize) 90) w :=
  regions_never_collide (kfsOptions minFs 90) id 0 0 (kfsOptions_kfsPercent minFs 90) le_rfl
    (by decide) (by decide) (by decide)

end KanekFs.Mkfs
