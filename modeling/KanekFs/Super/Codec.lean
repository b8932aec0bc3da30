import KanekFs.Mkfs.Build

/-!
# Decoding the superblock

`kfsex_2_ex` and `kfssb_to_sb` of `kfs_super.c`, and what they make of the superblock that
`build_superblock` writes. Block counts and logical sizes pass through 16-bit fields, so
`kfssbToSb_superblockPage` gives them modulo `2 ^ 16`, and `recordsLayout_iff` is the exact
bound on the layout.
-/

namespace KanekFs.Super

open Bytes Word Mkfs

/-! ## Definitions -/

/-- `extent_t`, the part that is on the disk. -/
structure Ex where
  ex_block_addr : ℕ
  ex_block_size : ℕ
  ex_log_size : ℕ
  ex_log_addr : ℕ
deriving DecidableEq

/-- `table_t`. -/
structure Tbl where
  capacity : ℕ
  in_use : ℕ
  bitmap_extent : Ex
  table_extent : Ex
deriving DecidableEq

/-- `sb_t`, the part that `kfssb_to_sb` fills in; the rest is zeroed. -/
structure Sb where
  sb_magic : ℕ
  sb_root_super_inode : ℕ
  sb_si_table : Tbl
  sb_slot_table : Tbl
  sb_blockmap : Tbl
  sb_c_time : ℕ
  sb_m_time : ℕ
  sb_a_time : ℕ
  sb_flags : ℕ
deriving DecidableEq

/-- The extent of the on-disk record at `base`. -/
def kfsex2Ex (p : List Byte) (base : ℕ) : Ex where
  ex_block_addr := (Extent.ee_block_addr.shift base).get p
  ex_block_size := (Extent.ee_block_size.shift base).get p
  ex_log_size := (Extent.ee_log_size.shift base).get p
  ex_log_addr := (Extent.ee_log_addr.shift base).get p

/-- What `kfssb_to_sb` does for each of the three tables. -/
def kfstableToTable (p : List Byte) (base : ℕ) : Tbl where
  capacity := (Table.capacity.shift base).get p
  in_use := (Table.in_use.shift base).get p
  bitmap_extent := kfsex2Ex p (base + Table.bitmap_extent)
  table_extent := kfsex2Ex p (base + Table.table_extent)

def kfssbToSb (kfs_sb : List Byte) : Sb where
  sb_magic := Superblock.sb_magic.get kfs_sb
  sb_root_super_inode := Superblock.sb_root_super_inode.get kfs_sb
  sb_si_table := kfstableToTable kfs_sb Superblock.sb_si_table
  sb_slot_table := kfstableToTable kfs_sb Superblock.sb_slot_table
  sb_blockmap := kfstableToTable kfs_sb Superblock.sb_blockmap
  sb_c_time := Superblock.sb_c_time.get kfs_sb
  sb_m_time := Superblock.sb_m_time.get kfs_sb
  sb_a_time := Superblock.sb_a_time.get kfs_sb
  sb_flags := Superblock.sb_flags.get kfs_sb

/-! ## Reading the superblock page -/

section Page

variable (bc : BlocksCalc) (current_time : ℕ)

/-- The fields that are assigned do not depend on the layout. -/
lemma superblockFields_fst : (superblockFields bc current_time).map Prod.fst =
    (superblockFields (inValues (kfsOptions 0 0)) 0).map Prod.fst := by
  simp only [superblockFields, extentFields, List.map_append, List.map_cons, List.map_nil]

/-- `build_superblock` assigns every field once. -/
lemma superblockFields_apart :
    ((superblockFields bc current_time).map Prod.fst).Pairwise CField.Apart := by
  rw [superblockFields_fst]
  decide +kernel

lemma secretFields_apart {f : CField} (hf : f.off + f.width ≤ 512) :
    ∀ g ∈ secretFields.map Prod.fst, f.Apart g := by
  have hoff : ∀ g ∈ secretFields.map Prod.fst, 512 ≤ g.off := by decide
  intro g hg
  exact Or.inl (hf.trans (hoff g hg))

@[simp] lemma length_superblockPage : (superblockPage bc current_time).length = kfsBlocksize := by
  simp [superblockPage]

variable {bc current_time}

/-- An assigned field of the superblock. -/
lemma get_superblockPage {f : CField} {v : ℕ} (hmem : (f, v) ∈ superblockFields bc current_time)
    (hf : f.off + f.width ≤ 512) :
    f.get (superblockPage bc current_time) = v % 256 ^ f.width := by
  unfold superblockPage
  rw [CField.get_putAll_of_apart _ (secretFields_apart hf)]
  apply CField.get_putAll (superblockFields_apart bc current_time) hmem
  rw [length_fill, length_pagesAlloc]
  unfold kfsBlocksize
  omega

/-- A field of the superblock that is not assigned is zero. -/
lemma get_superblockPage_of_apart {f : CField} (hf : f.off + f.width ≤ Superblock.size)
    (hapart : ∀ g ∈ (superblockFields bc current_time).map Prod.fst, f.Apart g) :
    f.get (superblockPage bc current_time) = 0 := by
  -- `memset` of a page that `pages_alloc` has zeroed
  have hzero : fill (pagesAlloc 1) 0 Superblock.size 0#8 = pagesAlloc 1 := by
    apply ext_bitAt (length_fill _ _ _ _)
    intro k
    rw [bitAt_fill _ (by rw [length_pagesAlloc]; decide), pagesAlloc, bitAt_replicate_zero]
    simp
  unfold superblockPage
  rw [CField.get_putAll_of_apart _ (secretFields_apart (hf.trans (by decide))),
    CField.get_putAll_of_apart _ hapart, hzero]
  exact loadLE_replicate_zero _ _ _

/-- An extent of the superblock as it is decoded: the sizes are cut to 16 bits. -/
lemma kfsex2Ex_superblockPage {base addr blocks units : ℕ}
    (hmem : ∀ fv ∈ extentFields base addr blocks units 0,
      fv ∈ superblockFields bc current_time) (hbase : base + 16 ≤ 512) :
    kfsex2Ex (superblockPage bc current_time) base =
      ⟨addr % 2 ^ 64, blocks % 2 ^ 16, units % 2 ^ 16, 0⟩ := by
  simp only [extentFields, List.forall_mem_cons, List.not_mem_nil, false_implies, implies_true,
    and_true] at hmem
  rcases hmem with ⟨haddr, hblocks, hunits, hlog⟩
  -- the four fields of an extent lie inside its 16 bytes
  have hend : ∀ f : CField, f.off + f.width ≤ 16 →
      (f.shift base).off + (f.shift base).width ≤ 512 := by
    intro f hf
    simp only [CField.shift]
    omega
  rw [kfsex2Ex, get_superblockPage haddr (hend _ (by decide)),
    get_superblockPage hblocks (hend _ (by decide)),
    get_superblockPage hunits (hend _ (by decide)), get_superblockPage hlog (hend _ (by decide))]
  rfl

end Page

section Tables

variable (bc : BlocksCalc) (current_time : ℕ)

lemma si_table_superblockPage :
    kfstableToTable (superblockPage bc current_time) Superblock.sb_si_table =
      { capacity := bc.out_sinodes_num % 2 ^ 64
        in_use := 1
        bitmap_extent := ⟨sinodeMapBlock bc % 2 ^ 64, bc.out_sinodes_bitmap_blocks_num % 2 ^ 16,
          bc.out_sinodes_bitmap_blocks_num % 2 ^ 16, 0⟩
        table_extent := ⟨1 % 2 ^ 64, bc.out_sinodes_table_in_blocks % 2 ^ 16,
          bc.out_sinodes_num % 2 ^ 16, 0⟩ } := by
  rw [kfstableToTable, Tbl.mk.injEq]
  refine ⟨?_, ?_, ?_, ?_⟩
  · exact get_superblockPage (by simp [superblockFields]) (by decide)
  · exact get_superblockPage (v := 1) (by simp [superblockFields]) (by decide)
  · exact kfsex2Ex_superblockPage (fun fv hfv => by simp [superblockFields, hfv]) (by decide)
  · exact kfsex2Ex_superblockPage (fun fv hfv => by simp [superblockFields, hfv]) (by decide)

lemma slot_table_superblockPage :
    kfstableToTable (superblockPage bc current_time) Superblock.sb_slot_table =
      { capacity := bc.out_slots_num % 2 ^ 64
        in_use := 0
        bitmap_extent := ⟨slotMapBlock bc % 2 ^ 64, bc.out_slots_bitmap_blocks_num % 2 ^ 16,
          bc.out_slots_bitmap_blocks_num % 2 ^ 16, 0⟩
        table_extent := ⟨slotTableBlock bc % 2 ^ 64, bc.out_slots_table_in_blocks % 2 ^ 16,
          bc.out_slots_num % 2 ^ 16, 0⟩ } := by
  rw [kfstableToTable, Tbl.mk.injEq]
  refine ⟨?_, ?_, ?_, ?_⟩
  · exact get_superblockPage (by simp [superblockFields]) (by decide)
  · exact get_superblockPage (v := 0) (by simp [superblockFields]) (by decide)
  · exact kfsex2Ex_superblockPage (fun fv hfv => by simp [superblockFields, hfv]) (by decide)
  · exact kfsex2Ex_superblockPage (fun fv hfv => by simp [superblockFields, hfv]) (by decide)

/-- `build_superblock` does not assign the counters of the block map. -/
lemma blockmap_superblockPage :
    kfstableToTable (superblockPage bc current_time) Superblock.sb_blockmap =
      { capacity := 0
        in_use := 0
        bitmap_extent := ⟨fsMapBlock bc % 2 ^ 64, bc.out_bitmap_size_in_blocks % 2 ^ 16,
          bc.in_file_size_in_blocks % 2 ^ 16, 0⟩
        table_extent := ⟨0 % 2 ^ 64, 0 % 2 ^ 16, 0 % 2 ^ 16, 0⟩ } := by
  rw [kfstableToTable, Tbl.mk.injEq]
  refine ⟨?_, ?_, ?_, ?_⟩
  · -- `capacity` and `in_use` are never assigned
    apply get_superblockPage_of_apart (by decide)
    rw [superblockFields_fst]
    decide +kernel
  · apply get_superblockPage_of_apart (by decide)
    rw [superblockFields_fst]
    decide +kernel
  · exact kfsex2Ex_superblockPage (fun fv hfv => by simp [superblockFields, hfv]) (by decide)
  · exact kfsex2Ex_superblockPage (fun fv hfv => by simp [superblockFields, hfv]) (by decide)

end Tables

/-- **The superblock of a fresh file system**, decoded. -/
theorem kfssbToSb_superblockPage (bc : BlocksCalc) (current_time : ℕ) :
    kfssbToSb (superblockPage bc current_time) =
      { sb_magic := kfsMagic
        sb_root_super_inode := 0
        sb_si_table :=
          { capacity := bc.out_sinodes_num % 2 ^ 64
            in_use := 1
            bitmap_extent := ⟨sinodeMapBlock bc % 2 ^ 64,
              bc.out_sinodes_bitmap_blocks_num % 2 ^ 16,
              bc.out_sinodes_bitmap_blocks_num % 2 ^ 16, 0⟩
            table_extent := ⟨1, bc.out_sinodes_table_in_blocks % 2 ^ 16,
              bc.out_sinodes_num % 2 ^ 16, 0⟩ }
        sb_slot_table :=
          { capacity := bc.out_slots_num % 2 ^ 64
            in_use := 0
            bitmap_extent := ⟨slotMapBlock bc % 2 ^ 64, bc.out_slots_bitmap_blocks_num % 2 ^ 16,
              bc.out_slots_bitmap_blocks_num % 2 ^ 16, 0⟩
            table_extent := ⟨slotTableBlock bc % 2 ^ 64,
              bc.out_slots_table_in_blocks % 2 ^ 16, bc.out_slots_num % 2 ^ 16, 0⟩ }
        sb_blockmap :=
          { capacity := 0
            in_use := 0
            bitmap_extent := ⟨fsMapBlock bc % 2 ^ 64, bc.out_bitmap_size_in_blocks % 2 ^ 16,
              bc.in_file_size_in_blocks % 2 ^ 16, 0⟩
            table_extent := ⟨0, 0, 0, 0⟩ }
        sb_c_time := current_time % 2 ^ 64
        sb_m_time := current_time % 2 ^ 64
        sb_a_time := current_time % 2 ^ 64
        sb_flags := 0 } := by
  rw [kfssbToSb, si_table_superblockPage, slot_table_superblockPage, blockmap_superblockPage,
    Sb.mk.injEq]
  refine ⟨?_, ?_, rfl, rfl, rfl, ?_, ?_, ?_, ?_⟩
  · exact get_superblockPage (v := kfsMagic) (by simp [superblockFields]) (by decide)
  · exact get_superblockPage (v := 0) (by simp [superblockFields]) (by decide)
  · exact get_superblockPage (by simp [superblockFields]) (by decide)
  · exact get_superblockPage (by simp [superblockFields]) (by decide)
  · exact get_superblockPage (by simp [superblockFields]) (by decide)
  · exact get_superblockPage (v := 0) (by simp [superblockFields]) (by decide)

/-! ## Does the superblock record the layout? -/

/-- The extent names a region and its number of logical units. -/
def Ex.Records (ex : Ex) (addr blocks units : ℕ) : Prop :=
  ex.ex_block_addr = addr ∧ ex.ex_block_size = blocks ∧ ex.ex_log_size = units

/-- A decoded superblock names the regions that the builders use: the tables with their
items, the item bitmaps counted in blocks, the block map with the blocks of the file. -/
structure RecordsLayout (bc : BlocksCalc) (sb : Sb) : Prop where
  sinodes_table : sb.sb_si_table.table_extent.Records 1 bc.out_sinodes_table_in_blocks
    bc.out_sinodes_num
  sinodes_bitmap : sb.sb_si_table.bitmap_extent.Records (sinodeMapBlock bc)
    bc.out_sinodes_bitmap_blocks_num bc.out_sinodes_bitmap_blocks_num
  slots_table : sb.sb_slot_table.table_extent.Records (slotTableBlock bc)
    bc.out_slots_table_in_blocks bc.out_slots_num
  slots_bitmap : sb.sb_slot_table.bitmap_extent.Records (slotMapBlock bc)
    bc.out_slots_bitmap_blocks_num bc.out_slots_bitmap_blocks_num
  blockmap : sb.sb_blockmap.bitmap_extent.Records (fsMapBlock bc) bc.out_bitmap_size_in_blocks
    bc.in_file_size_in_blocks

/-- All block counts and logical sizes of a layout fit 16 bits. -/
structure FitsU16 (bc : BlocksCalc) : Prop where
  sinodes_table : bc.out_sinodes_table_in_blocks < 2 ^ 16
  sinodes_num : bc.out_sinodes_num < 2 ^ 16
  sinodes_bitmap : bc.out_sinodes_bitmap_blocks_num < 2 ^ 16
  slots_table : bc.out_slots_table_in_blocks < 2 ^ 16
  slots_num : bc.out_slots_num < 2 ^ 16
  slots_bitmap : bc.out_slots_bitmap_blocks_num < 2 ^ 16
  bitmap_size : bc.out_bitmap_size_in_blocks < 2 ^ 16
  file_size : bc.in_file_size_in_blocks < 2 ^ 16

lemma records_mod_iff {addr blocks units : ℕ} (haddr : addr < 2 ^ 64) :
    Ex.Records ⟨addr % 2 ^ 64, blocks % 2 ^ 16, units % 2 ^ 16, 0⟩ addr blocks units ↔
      blocks < 2 ^ 16 ∧ units < 2 ^ 16 := by
  have hkeep : addr % 2 ^ 64 = addr := Nat.mod_eq_of_lt haddr
  have hblocks : blocks % 2 ^ 16 = blocks ↔ blocks < 2 ^ 16 := u16_eq_self_iff
  have hunits : units % 2 ^ 16 = units ↔ units < 2 ^ 16 := u16_eq_self_iff
  simp only [Ex.Records, hkeep, hblocks, hunits, true_and]

/-- **The superblock records the layout** exactly when every block count and every logical
size fits the 16 bits of its field. -/
theorem recordsLayout_iff (bc : BlocksCalc) (current_time : ℕ) :
    RecordsLayout bc (kfssbToSb (superblockPage bc current_time)) ↔ FitsU16 bc := by
  have hsino := sinodeMapBlock_lt bc
  have hslot := slotMapBlock_lt bc
  have hmap := fsMapBlock_lt bc
  have htable := slotTableBlock_lt bc
  have hone : 1 < 2 ^ 64 := by decide
  rw [kfssbToSb_superblockPage]
  constructor
  · -- each extent gives the bounds of its two sizes
    rintro ⟨hst, hsb, hlt, hlb, hb⟩
    rcases (records_mod_iff hone).mp hst with ⟨h₁, h₂⟩
    rcases (records_mod_iff hsino).mp hsb with ⟨h₃, -⟩
    rcases (records_mod_iff htable).mp hlt with ⟨h₄, h₅⟩
    rcases (records_mod_iff hslot).mp hlb with ⟨h₆, -⟩
    rcases (records_mod_iff hmap).mp hb with ⟨h₇, h₈⟩
    exact ⟨h₁, h₂, h₃, h₄, h₅, h₆, h₇, h₈⟩
  · rintro ⟨h₁, h₂, h₃, h₄, h₅, h₆, h₇, h₈⟩
    exact
      { sinodes_table := (records_mod_iff hone).mpr ⟨h₁, h₂⟩
        sinodes_bitmap := (records_mod_iff hsino).mpr ⟨h₃, h₃⟩
        slots_table := (records_mod_iff htable).mpr ⟨h₄, h₅⟩
        slots_bitmap := (records_mod_iff hslot).mpr ⟨h₆, h₆⟩
        blockmap := (records_mod_iff hmap).mpr ⟨h₇, h₈⟩ }

/-- A file of 65536 blocks (512 MBytes): the superblock says that it has none. -/
theorem superblock_loses_file_size :
    ¬ RecordsLayout (computeValues (kfsOptions (65536 * 8192) 2) id)
      (kfssbToSb (superblockPage (computeValues (kfsOptions (65536 * 8192) 2) id) 0)) := by
  intro h
  have hblocks := h.blockmap.2.2
  have hsize : (computeValues (kfsOptions (65536 * 8192) 2) id).in_file_size_in_blocks = 65536 := by
    decide +kernel
  rw [kfssbToSb_superblockPage, hsize] at hblocks
  simp at hblocks

end KanekFs.Super
