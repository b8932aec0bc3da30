import KanekFs.Disk
import KanekFs.Lib.Round

/-!
# Sizing a file system

`compute_values` of `kfs_mkfs.c`. The number of blocks for slots and for super inodes comes
from a `float` expression; everything else is 64-bit integer arithmetic. So the computation
is split:

* `computeValuesWith` takes the truncated `items_blocks` and the float expression for the
  device size (used with `-i` and `-s` only) as arguments;
* `itemsBlocks` is the float expression itself, operation by operation, and `computeValues`
  puts it in.

`computeValuesWith_plain` is the layout without `-s` and `-i`. `bitmapsLargeEnough_iff` says
when the bitmaps have a bit for every item: they are sized by table *blocks*, not by items.
`requests_never_honoured` is about `-s` and `-i`: the branches that would use the number are those
of the commands without an item budget.
-/

namespace KanekFs.Mkfs

open Word Round

/-! ## Definitions -/

def cmdKfs : ℕ := 0x000001
def cmdMeta : ℕ := 0x000002
def cmdSis : ℕ := 0x000004
def optI : ℕ := 0x000100
def optS : ℕ := 0x000200
def optP : ℕ := 0x000400

def minFs : ℕ := 10485760

/-- The fields of `options_t` that `compute_values` reads. -/
structure Options where
  sinodes_num : ℕ
  slots_num : ℕ
  size : ℕ
  percentage : ℕ
  flags : ℕ

/-- `options.flags & mask` as a condition. -/
def Options.has (options : Options) (mask : ℕ) : Bool := decide (options.flags &&& mask ≠ 0)

/-- `blocks_calc_t`. -/
structure BlocksCalc where
  in_sinodes_num : ℕ
  in_slots_num : ℕ
  in_file_size_in_mbytes : ℕ
  in_file_size_in_blocks : ℕ
  in_percentage : ℕ
  out_sinodes_per_block : ℕ
  out_slots_per_block : ℕ
  out_bitmap_size_in_blocks : ℕ
  out_slots_table_in_blocks : ℕ
  out_slots_bitmap_blocks_num : ℕ
  out_sinodes_table_in_blocks : ℕ
  out_sinodes_bitmap_blocks_num : ℕ
  out_sinodes_num : ℕ
  out_slots_num : ℕ
  out_total_blocks_required : ℕ
deriving DecidableEq

def slotsPerBlock : ℕ := (kfsBlocksize - ExtentHeader.size) / Slot.size

def sinodesPerBlock : ℕ := (kfsBlocksize - ExtentHeader.size) / Sinode.size

def bitsPerBlock : ℕ := (kfsBlocksize - ExtentHeader.size) * 8

/-- `n / d`, rounded up the way `compute_values` does it. -/
def ceilBlocks (n d : ℕ) : ℕ :=
  let rem := if n % d = 0 then 0 else 1
  n / d + rem

/-- What `compute_values` fills in before it looks at the command. -/
def inValues (options : Options) : BlocksCalc where
  in_sinodes_num := if options.has (optI ||| optS) then options.sinodes_num else 0
  in_slots_num := if options.has (optI ||| optS) then options.slots_num else 0
  in_file_size_in_mbytes := options.size / 1048576
  in_file_size_in_blocks := options.size / kfsBlocksize
  in_percentage := if options.has optP then options.percentage else 0
  out_sinodes_per_block := sinodesPerBlock
  out_slots_per_block := slotsPerBlock
  out_bitmap_size_in_blocks := 0
  out_slots_table_in_blocks := 0
  out_slots_bitmap_blocks_num := 0
  out_sinodes_table_in_blocks := 0
  out_sinodes_bitmap_blocks_num := 0
  out_sinodes_num := 0
  out_slots_num := 0
  out_total_blocks_required := 0

/-- The slots part of the item commands; `r.2` is `total_blocks_required`. -/
def slotsByBudget (options : Options) (items_blocks : ℕ) (r : BlocksCalc × ℕ) :
    BlocksCalc × ℕ :=
  if options.has (cmdKfs ||| cmdMeta) ∧ ¬ options.has optS then
    -- sized by the blocks of the budget, not by the items in them
    let slots_map_blocks := ceilBlocks items_blocks bitsPerBlock
    let slots_blocks := sub64 items_blocks slots_map_blocks
    ({ r.1 with
        out_slots_bitmap_blocks_num := slots_map_blocks
        out_slots_table_in_blocks := slots_blocks
        out_slots_num := u64 (slots_blocks * slotsPerBlock) },
      u64 (r.2 + items_blocks))
  else r

/-- The super inodes part of the item commands. -/
def sinodesByBudget (options : Options) (items_blocks : ℕ) (r : BlocksCalc × ℕ) :
    BlocksCalc × ℕ :=
  if options.has (cmdKfs ||| cmdMeta) ∧ ¬ options.has optI then
    let sinodes_map_blocks := ceilBlocks items_blocks bitsPerBlock
    let sinodes_blocks := sub64 items_blocks sinodes_map_blocks
    ({ r.1 with
        out_sinodes_bitmap_blocks_num := sinodes_map_blocks
        out_sinodes_table_in_blocks := sinodes_blocks
        out_sinodes_num := u64 (sinodes_blocks * sinodesPerBlock) },
      u64 (r.2 + items_blocks))
  else r

/-- A fixed number of super inodes, for the commands without an item budget. -/
def sinodesByNumber (r : BlocksCalc × ℕ) : BlocksCalc × ℕ :=
  let sinodes_blocks := ceilBlocks r.1.in_sinodes_num sinodesPerBlock
  let sinodes_map_blocks := ceilBlocks sinodes_blocks bitsPerBlock
  ({ r.1 with
      out_sinodes_bitmap_blocks_num := sinodes_map_blocks
      out_sinodes_table_in_blocks := sinodes_blocks
      out_sinodes_num := u64 (sinodes_blocks * sinodesPerBlock) },
    u64 (r.2 + (sinodes_map_blocks + sinodes_blocks)))

/-- A fixed number of slots, for the commands without an item budget. -/
def slotsByNumber (r : BlocksCalc × ℕ) : BlocksCalc × ℕ :=
  let slots_blocks := ceilBlocks r.1.in_slots_num slotsPerBlock
  let slots_map_blocks := ceilBlocks slots_blocks bitsPerBlock
  ({ r.1 with
      out_slots_bitmap_blocks_num := slots_map_blocks
      out_slots_table_in_blocks := slots_blocks
      out_slots_num := u64 (slots_blocks * slotsPerBlock) },
    u64 (r.2 + (slots_map_blocks + slots_blocks)))

/-- `compute_values`, given `(uint64_t) items_blocks` and the device size that the float
expression makes of the total when `-i` or `-s` is passed. -/
def computeValuesWith (options : Options) (items_blocks : ℕ) (device_blocks : ℕ → ℕ) :
    BlocksCalc :=
  -- block 0 is the superblock
  let total := if options.has (cmdMeta ||| cmdKfs) then 1 else 0
  let r :=
    if options.has (cmdKfs ||| cmdMeta ||| cmdSis) then
      -- with `-s` or `-i` one of the two does nothing
      sinodesByBudget options items_blocks
        (slotsByBudget options items_blocks (inValues options, total))
    else if options.has optI then sinodesByNumber (inValues options, total)
    else if options.has optS then slotsByNumber (inValues options, total)
    else (inValues options, total)
  let bc :=
    -- with a fixed number of items the device is made as large as they need
    if options.has (optI ||| optS) then
      { r.1 with
        in_file_size_in_blocks := device_blocks r.2
        in_file_size_in_mbytes := device_blocks r.2 / 128 }
    else r.1
  let bitmap_size_in_blocks := ceilBlocks bc.in_file_size_in_blocks bitsPerBlock
  { bc with
    out_bitmap_size_in_blocks := bitmap_size_in_blocks
    out_total_blocks_required := u64 (r.2 + bitmap_size_in_blocks) }

/-- The float expression for `items_blocks`: `float` has 24 significant bits, `double` 53. -/
def itemsBlocks (options : Options) (in_file_size_in_blocks in_percentage : ℕ) : ℚ :=
  let items_blocks := roundTo 24 (roundTo 53
    (roundTo 24 in_file_size_in_blocks * roundTo 53 (roundTo 24 in_percentage / 100)))
  if options.has cmdKfs then roundTo 24 (roundTo 53 (items_blocks / 2)) else items_blocks

/-- `(uint64_t) items_blocks` for the given options. -/
def itemsBudget (options : Options) : ℕ :=
  ⌊itemsBlocks options (inValues options).in_file_size_in_blocks
    (inValues options).in_percentage⌋₊

def computeValues (options : Options) (device_blocks : ℕ → ℕ) : BlocksCalc :=
  computeValuesWith options (itemsBudget options) device_blocks

/-! ## Flags and ceilings -/

lemma Options.has_or (options : Options) (a b : ℕ) :
    options.has (a ||| b) = (options.has a || options.has b) := by
  simp only [Options.has, Nat.and_or_distrib_left, ne_eq, Nat.or_eq_zero_iff]
  -- a mask of two options has a common bit iff one of the options has
  by_cases ha : options.flags &&& a = 0 <;> by_cases hb : options.flags &&& b = 0 <;>
    simp [ha, hb]

lemma ceilBlocks_bitsPerBlock (n : ℕ) :
    n ≤ 65280 * ceilBlocks n bitsPerBlock ∧ 65280 * ceilBlocks n bitsPerBlock < n + 65280 := by
  have hbits : bitsPerBlock = 65280 := rfl
  simp only [ceilBlocks, hbits]
  split <;> omega

lemma ceilBlocks_le (n : ℕ) : ceilBlocks n bitsPerBlock ≤ n := by
  have h := ceilBlocks_bitsPerBlock n
  omega

lemma ceilBlocks_pos {n : ℕ} (h : 1 ≤ n) : 1 ≤ ceilBlocks n bitsPerBlock := by
  have h := ceilBlocks_bitsPerBlock n
  omega

/-! ## The layout without `-s` and `-i` -/

/-- The commands that make item tables, without a fixed number of items. -/
structure Options.Plain (options : Options) : Prop where
  command : options.has cmdKfs ∨ options.has cmdMeta
  no_s : ¬ options.has optS
  no_i : ¬ options.has optI

/-- The layout for a budget of `items_blocks` blocks for slots and as many for super inodes. -/
theorem computeValuesWith_plain {options : Options} (h : options.Plain) {items_blocks : ℕ}
    (hitems : items_blocks < 2 ^ 64) (device_blocks : ℕ → ℕ) :
    computeValuesWith options items_blocks device_blocks =
      { inValues options with
        out_bitmap_size_in_blocks := ceilBlocks (options.size / kfsBlocksize) bitsPerBlock
        out_slots_table_in_blocks := items_blocks - ceilBlocks items_blocks bitsPerBlock
        out_slots_bitmap_blocks_num := ceilBlocks items_blocks bitsPerBlock
        out_sinodes_table_in_blocks := items_blocks - ceilBlocks items_blocks bitsPerBlock
        out_sinodes_bitmap_blocks_num := ceilBlocks items_blocks bitsPerBlock
        out_sinodes_num := u64 ((items_blocks - ceilBlocks items_blocks bitsPerBlock) * 85)
        out_slots_num := u64 ((items_blocks - ceilBlocks items_blocks bitsPerBlock) * 204)
        out_total_blocks_required := u64 (1 + items_blocks + items_blocks +
          ceilBlocks (options.size / kfsBlocksize) bitsPerBlock) } := by
  rcases h with ⟨hcmd, hs, hi⟩
  -- the bitmap takes no more than the budget, so the subtraction does not wrap
  have hsub : sub64 items_blocks (ceilBlocks items_blocks bitsPerBlock) =
      items_blocks - ceilBlocks items_blocks bitsPerBlock :=
    sub64_of_le (ceilBlocks_le _) hitems
  have hcmd' : (options.has cmdKfs || options.has cmdMeta) = true := by
    rcases hcmd with h | h <;> simp [h]
  have hcmd'' : (options.has cmdMeta || options.has cmdKfs) = true := by
    rw [Bool.or_comm]
    exact hcmd'
  have hsinodes : sinodesPerBlock = 85 := rfl
  have hslots : slotsPerBlock = 204 := rfl
  simp only [computeValuesWith, sinodesByBudget, slotsByBudget, Options.has_or, hcmd', hcmd'',
    hs, hi, hsub, hsinodes, hslots, Bool.or_self, Bool.true_or, Bool.false_eq_true, if_true,
    if_false, not_false_eq_true, and_self, inValues]
  congr 1
  unfold u64
  omega

/-! ## Are the bitmaps large enough? -/

/-- The bits of a bitmap region: its header takes the first bytes. -/
def regionBits (blocks : ℕ) : ℕ := (kfsBlocksize * blocks - ExtentHeader.size) * 8

/-- Every bitmap has a bit for each thing it indexes. -/
structure BitmapsLargeEnough (bc : BlocksCalc) : Prop where
  slots : bc.out_slots_num ≤ regionBits bc.out_slots_bitmap_blocks_num
  sinodes : bc.out_sinodes_num ≤ regionBits bc.out_sinodes_bitmap_blocks_num
  blocks : bc.in_file_size_in_blocks ≤ regionBits bc.out_bitmap_size_in_blocks

lemma regionBits_eq {n : ℕ} (h : 1 ≤ n) : regionBits n = 65536 * n - 256 := by
  unfold regionBits kfsBlocksize ExtentHeader.size
  omega

/-- The block map is sized by what it indexes. -/
lemma le_regionBits_ceilBlocks (n : ℕ) : n ≤ regionBits (ceilBlocks n bitsPerBlock) := by
  have h := ceilBlocks_bitsPerBlock n
  -- a file without blocks needs no map
  by_cases hn : n = 0
  · omega
  · rw [regionBits_eq (ceilBlocks_pos (by omega))]
    omega

/-- **Size of the bitmaps**: a table of `n` blocks holds 204 slots a block, but its bitmap has
one block for 65280 table *blocks*. So the bitmaps are large enough up to a budget of 321
blocks, and beyond it only where the 64-bit item count wraps to a small number. -/
theorem bitmapsLargeEnough_iff (options : Options) (items_blocks : ℕ) (device_blocks : ℕ → ℕ)
    (h : options.Plain) (hitems : items_blocks < 2 ^ 64) :
    BitmapsLargeEnough (computeValuesWith options items_blocks device_blocks) ↔
      items_blocks ≤ 321 ∨
        2 ^ 64 ≤ 204 * (items_blocks - ceilBlocks items_blocks bitsPerBlock) ∧
        204 * (items_blocks - ceilBlocks items_blocks bitsPerBlock) % 2 ^ 64 ≤
          65536 * ceilBlocks items_blocks bitsPerBlock - 256 ∧
        85 * (items_blocks - ceilBlocks items_blocks bitsPerBlock) % 2 ^ 64 ≤
          65536 * ceilBlocks items_blocks bitsPerBlock - 256 := by
  rw [computeValuesWith_plain h hitems]
  have hceil := ceilBlocks_bitsPerBlock items_blocks
  generalize ceilBlocks items_blocks bitsPerBlock = m at hceil ⊢
  have hmap := le_regionBits_ceilBlocks (options.size / kfsBlocksize)
  -- without a budget there are no items, and nothing to index
  by_cases hzero : items_blocks = 0
  · have hm : m = 0 := by omega
    subst hzero hm
    exact iff_of_true ⟨by simp [u64], by simp [u64], hmap⟩ (Or.inl (by decide))
  · have hbits : regionBits m = 65536 * m - 256 := regionBits_eq (by omega)
    constructor
    · rintro ⟨hslots, hsinodes, -⟩
      -- the slots are the first to need more bits than there are
      simp only [hbits, u64, Nat.mul_comm (items_blocks - m)] at hslots hsinodes
      by_cases hwrap : 2 ^ 64 ≤ 204 * (items_blocks - m)
      · exact Or.inr ⟨hwrap, hslots, hsinodes⟩
      · rw [Nat.mod_eq_of_lt (by omega)] at hslots
        exact Or.inl (by omega)
    · rintro (hsmall | ⟨-, hslots, hsinodes⟩)
      · -- a budget of at most 321 blocks has one bitmap block
        have hm : m = 1 := by omega
        have h204 : u64 ((items_blocks - m) * 204) = (items_blocks - m) * 204 :=
          u64_of_lt (by omega)
        have h85 : u64 ((items_blocks - m) * 85) = (items_blocks - m) * 85 :=
          u64_of_lt (by omega)
        refine ⟨?_, ?_, hmap⟩ <;> simp only [hbits, h204, h85] <;> omega
      · refine ⟨?_, ?_, hmap⟩
        · simpa only [hbits, u64, Nat.mul_comm (items_blocks - m)] using hslots
        · simpa only [hbits, u64, Nat.mul_comm (items_blocks - m)] using hsinodes

/-- The options of `mkfs kfs -p percentage` on a device of `size` bytes. -/
def kfsOptions (size percentage : ℕ) : Options where
  sinodes_num := 0
  slots_num := 0
  size := size
  percentage := percentage
  flags := cmdKfs ||| optP

/-- A file system of 10 MBytes with 10 percent for items. -/
theorem bitmapsLargeEnough_small :
    BitmapsLargeEnough (computeValuesWith (kfsOptions 10485760 10) 64 id) :=
  (bitmapsLargeEnough_iff (kfsOptions 10485760 10) 64 id ⟨by decide, by decide, by decide⟩
    (by decide)).mpr (by decide)

/-- The first budget that is too large: 321 blocks of slots are 65484 slots, and the one
bitmap block has 65280 bits. A device of 6440 blocks gives it with 10 percent. -/
theorem slots_bitmap_too_small :
    itemsBudget (kfsOptions (6440 * 8192) 10) = 322 ∧
      ¬ BitmapsLargeEnough (computeValuesWith (kfsOptions (6440 * 8192) 10) 322 id) := by
  refine ⟨by decide +kernel, ?_⟩
  intro h
  have hslots := h.slots
  revert hslots
  decide

/-! ## Items asked for by number -/

/-- `-s` with a number, and a command that makes slots. -/
structure Options.AsksForSlots (options : Options) : Prop where
  command : options.has cmdKfs ∨ options.has cmdMeta
  s : options.has optS
  num : 1 ≤ options.slots_num

/-- `-i` with a number, and the command that makes super inodes beside the slots. -/
structure Options.AsksForSinodes (options : Options) : Prop where
  command : options.has cmdKfs
  i : options.has optI
  num : 1 ≤ options.sinodes_num

section Requests

variable {options : Options} {items_blocks : ℕ} {r : BlocksCalc × ℕ}

/-- With `-s` the slots part of the item commands does nothing. -/
lemma slotsByBudget_of_s (hs : options.has optS) : slotsByBudget options items_blocks r = r := by
  rw [slotsByBudget, if_neg]
  rintro ⟨-, hno⟩
  exact hno hs

/-- With `-i` the super inodes part does nothing. -/
lemma sinodesByBudget_of_i (hi : options.has optI) :
    sinodesByBudget options items_blocks r = r := by
  rw [sinodesByBudget, if_neg]
  rintro ⟨-, hno⟩
  exact hno hi

lemma slots_sinodesByBudget :
    (sinodesByBudget options items_blocks r).1.out_slots_num = r.1.out_slots_num := by
  unfold sinodesByBudget
  split <;> rfl

lemma sinodes_slotsByBudget :
    (slotsByBudget options items_blocks r).1.out_sinodes_num = r.1.out_sinodes_num := by
  unfold slotsByBudget
  split <;> rfl

/-- The device size and the block map are filled in after the items. -/
lemma items_computeValuesWith (items_blocks : ℕ) (device_blocks : ℕ → ℕ)
    (h : options.has (cmdKfs ||| cmdMeta ||| cmdSis)) :
    ∃ total, (computeValuesWith options items_blocks device_blocks).out_slots_num =
        (sinodesByBudget options items_blocks
          (slotsByBudget options items_blocks (inValues options, total))).1.out_slots_num ∧
      (computeValuesWith options items_blocks device_blocks).out_sinodes_num =
        (sinodesByBudget options items_blocks
          (slotsByBudget options items_blocks (inValues options, total))).1.out_sinodes_num := by
  refine ⟨if options.has (cmdMeta ||| cmdKfs) then 1 else 0, ?_⟩
  simp only [computeValuesWith, if_pos h]
  split <;> exact ⟨rfl, rfl⟩

end Requests

/-- **A number of slots or of super inodes is never honoured**: with the commands that make them
none is made. -/
theorem requests_never_honoured (options : Options) (device_blocks : ℕ → ℕ) :
    (options.AsksForSlots →
        (computeValues options device_blocks).out_slots_num < options.slots_num) ∧
      (options.AsksForSinodes →
        (computeValues options device_blocks).out_sinodes_num < options.sinodes_num) := by
  constructor
  · rintro ⟨hcommand, hs, hnum⟩
    have hitems : options.has (cmdKfs ||| cmdMeta ||| cmdSis) := by
      rw [Options.has_or, Options.has_or]
      rcases hcommand with h | h <;> simp [h]
    obtain ⟨total, hslots, -⟩ :=
      items_computeValuesWith (itemsBudget options) device_blocks hitems
    rw [computeValues, hslots, slots_sinodesByBudget, slotsByBudget_of_s hs]
    exact hnum
  · rintro ⟨hcommand, hi, hnum⟩
    have hitems : options.has (cmdKfs ||| cmdMeta ||| cmdSis) := by
      rw [Options.has_or, Options.has_or]
      simp [hcommand]
    obtain ⟨total, -, hsinodes⟩ :=
      items_computeValuesWith (itemsBudget options) device_blocks hitems
    rw [computeValues, hsinodes, sinodesByBudget_of_i hi, sinodes_slotsByBudget]
    exact hnum

/-- The options of `mkfs kfs -s slots_num -i sinodes_num`. -/
def numberOptions (slots_num sinodes_num : ℕ) : Options where
  sinodes_num := sinodes_num
  slots_num := slots_num
  size := 0
  percentage := 10
  flags := cmdKfs ||| optS ||| optI

/-- A thousand slots and five hundred super inodes. -/
theorem requests_never_honoured_thousand :
    (computeValues (numberOptions 1000 500) id).out_slots_num < 1000 ∧
      (computeValues (numberOptions 1000 500) id).out_sinodes_num < 500 := by
  have h := requests_never_honoured (numberOptions 1000 500) id
  exact ⟨h.1 ⟨by decide, by decide, by decide⟩, h.2 ⟨by decide, by decide, by decide⟩⟩

/-- The number of slots asked for is not reached: `kfs -s 1000` on a file of 10 MBytes. -/
theorem thousand_slots_not_made :
    ¬ ∀ options : Options, ∀ device_blocks : ℕ → ℕ, options.AsksForSlots →
      options.slots_num ≤ (computeValues options device_blocks).out_slots_num := by
  intro h
  have hle := h ⟨0, 1000, 10485760, 10, cmdKfs ||| optS⟩ id ⟨by decide, by decide, by decide⟩
  revert hle
  decide +kernel

end KanekFs.Mkfs
