import KanekFs.Mkfs.Regions
import KanekFs.Slots.Ops
import KanekFs.Super.Verify

/-!
# The slots of a fresh file system

What the functions of `kfs_slot.c` find on a file system that was just made and mounted. The
layout has to fit the file (`SlotLayout`); a table of super inodes may be missing.

* `blockRead_image_zero`, `readBlocks_image_slotMap`: no later builder overwrites the superblock
  or the slot map.
* `slotMap_fresh` is the slot map as it is read after the mount.
* `updateSlot_fresh`: the second part of both functions fails, since it looks at the super inode
  table.
-/

namespace KanekFs.Slots

open Bytes Word Mkfs Super

/-- The extents of the layout fit the file together, and there are slots. -/
structure SlotLayout (bc : BlocksCalc) : Prop where
  fits : regionBlocks bc ≤ bc.in_file_size_in_blocks
  small : bc.in_file_size_in_blocks < 2 ^ 51
  slots : 1 ≤ bc.out_slots_table_in_blocks

/-- The pages of the slot map that `build_slots` writes. -/
def slotMapPages (bc : BlocksCalc) : List Byte :=
  CField.putAll (fill (pagesAlloc bc.out_slots_bitmap_blocks_num) 0 kfsBlocksize 0#8)
    (headerFields kfsSlotsBitmapMagic 0 bc.out_slots_num)

/-- The percentages that `mkfs` accepts give the items no more than 45.2 percent of the file, so
their layouts fit. -/
lemma slotLayout_of_budget {options : Options} {items_blocks : ℕ} (device_blocks : ℕ → ℕ)
    (h : options.Plain) (hmin : minFs ≤ options.size) (hsize : options.size < 2 ^ 64)
    (hitems : 2 ≤ items_blocks)
    (hbudget : 1000 * items_blocks ≤ 452 * (options.size / kfsBlocksize)) :
    SlotLayout (computeValuesWith options items_blocks device_blocks) where
  fits := by
    have hB := ceilBlocks_bitsPerBlock (options.size / kfsBlocksize)
    have hF : minFs / kfsBlocksize ≤ options.size / kfsBlocksize := Nat.div_le_div_right hmin
    have hmin' : minFs / kfsBlocksize = 1280 := by decide
    have hlt : options.size / kfsBlocksize < 2 ^ 51 := by
      unfold kfsBlocksize
      omega
    rw [regionBlocks_of_budget device_blocks h (by omega), computeValuesWith_plain h (by omega)]
    simp only [inValues]
    omega
  small := (inRange_of_budget device_blocks h hsize hitems hbudget).small
  slots := (inRange_of_budget device_blocks h hsize hitems hbudget).slots

/-! ## The addresses of a layout -/

namespace SlotLayout

variable {bc : BlocksCalc} (h : SlotLayout bc)
include h

lemma blocks_le : 1 + bc.out_sinodes_table_in_blocks + bc.out_sinodes_bitmap_blocks_num +
    bc.out_slots_table_in_blocks + bc.out_slots_bitmap_blocks_num + bc.out_bitmap_size_in_blocks ≤
      bc.in_file_size_in_blocks := by
  have hfits := h.fits
  simp only [regionBlocks, regions, List.map_cons, List.map_nil, List.sum_cons, List.sum_nil]
    at hfits
  omega

lemma fsMapBlock_eq : fsMapBlock bc = bc.in_file_size_in_blocks - bc.out_bitmap_size_in_blocks := by
  have hb := h.blocks_le
  exact (mapBlocks_eq (by omega) h.small).1

lemma slotMapBlock_eq : slotMapBlock bc = bc.in_file_size_in_blocks -
    bc.out_bitmap_size_in_blocks - bc.out_slots_bitmap_blocks_num := by
  have hb := h.blocks_le
  exact (mapBlocks_eq (by omega) h.small).2.1

lemma sinodeMapBlock_eq : sinodeMapBlock bc = bc.in_file_size_in_blocks -
    bc.out_bitmap_size_in_blocks - bc.out_slots_bitmap_blocks_num -
    bc.out_sinodes_bitmap_blocks_num := by
  have hb := h.blocks_le
  exact (mapBlocks_eq (by omega) h.small).2.2

lemma slotTableBlock_eq : slotTableBlock bc = 1 + bc.out_sinodes_table_in_blocks := by
  have hb := h.blocks_le
  have hs := h.small
  rw [slotTableBlock, u64_of_lt (by omega), Nat.add_comm]

end SlotLayout

/-! ## The image -/

/-- A run of the builders writes what `written` lists. -/
lemma exists_written {bc : BlocksCalc} {sb_time sinodes_time : ℕ} {w : Written}
    (hw : buildFilesystem bc sb_time sinodes_time = some w) :
    ∃ p map, w = written bc sb_time sinodes_time p map := by
  simp only [buildFilesystem, buildSinodes, sinodesBitmap, buildSlots, writeMap,
    Option.bind_eq_bind, Option.bind_eq_some_iff, Option.some.injEq, Prod.mk.injEq,
    Prod.exists] at hw
  rcases hw with ⟨map₀, -, sinodes, map₁, ⟨bitmap, ⟨p, -, rfl⟩, _, -, _, -, rfl, -⟩, slots, map₂,
    ⟨_, -, _, -, rfl, -⟩, block_map, map₃, ⟨map, -, rfl, -⟩, rfl⟩
  exact ⟨p, map, rfl⟩

lemma addr_tableBlocks {id : CField} {size per_block n block_num num : ℕ} {p : List Byte}
    {x : Write} (hx : x ∈ tableBlocks id size per_block n p block_num num) :
    block_num ≤ x.addr ∧ x.addr < block_num + n := by
  have hmem := List.mem_map_of_mem (f := Write.addr) hx
  rwa [tableBlocks_addrs, List.mem_range'_1] at hmem

lemma addr_writeBlocks {p : List Byte} {addr n : ℕ} (h : addr + n ≤ 2 ^ 64) {x : Write}
    (hx : x ∈ writeBlocks p addr n) : addr ≤ x.addr ∧ x.addr < addr + n := by
  have hmem := List.mem_map_of_mem (f := Write.addr) hx
  rwa [writeBlocks_addrs p h, List.mem_range'_1] at hmem

section Image

variable {bc : BlocksCalc} {sb_time sinodes_time : ℕ} {w : Written} (h : SlotLayout bc)
  (hw : buildFilesystem bc sb_time sinodes_time = some w)
include h hw

/-- Block 0 is the superblock. -/
lemma blockRead_image_zero : blockRead (image w) 0 = superblockPage bc sb_time := by
  rcases exists_written hw with ⟨p, map, rfl⟩
  have hb := h.blocks_le
  have hs := h.small
  have hslots := h.slots
  have htable := h.slotTableBlock_eq
  have hzero : blockIndex 0 = 0 := by decide
  have hall : (written bc sb_time sinodes_time p map).all =
      ⟨0, superblockPage bc sb_time⟩ :: (sinodesTable bc sinodes_time ++
        (writeBlocks p (sinodeMapBlock bc) bc.out_sinodes_bitmap_blocks_num ++
          (slotsTable bc ++ (slotsBitmap bc ++
            writeBlocks map (fsMapBlock bc) bc.out_bitmap_size_in_blocks)))) := by
    simp [Written.all, Written.extents, written, buildSuperblock]
  rw [blockRead, image, hall, applyWrites_cons, hzero, applyWrites_of_not_written, blockWrite,
    hzero, Function.update_self, ← length_superblockPage bc sb_time, List.take_length]
  -- all other extents lie behind block 0
  intro x hx
  have haddr : 1 ≤ x.addr ∧ x.addr < 2 ^ 51 := by
    simp only [List.mem_append] at hx
    rcases hx with hx | hx | hx | hx | hx
    · rcases List.mem_cons.mp hx with rfl | hx
      · simp
      · have hlim : u64 (1 + bc.out_sinodes_table_in_blocks) = 1 + bc.out_sinodes_table_in_blocks :=
          u64_of_lt (by omega)
        have hx' := addr_tableBlocks hx
        rw [hlim] at hx'
        omega
    · have hx' := addr_writeBlocks (by rw [h.sinodeMapBlock_eq]; omega) hx
      rw [h.sinodeMapBlock_eq] at hx'
      omega
    · rcases List.mem_cons.mp hx with rfl | hx
      · simp only [htable]
        omega
      · have hx' := addr_tableBlocks hx
        rw [htable, u64_of_lt (by omega), u64_of_lt (by omega)] at hx'
        omega
    · have hx' := addr_writeBlocks (by rw [h.slotMapBlock_eq]; omega) hx
      rw [h.slotMapBlock_eq] at hx'
      omega
    · have hx' := addr_writeBlocks (by rw [h.fsMapBlock_eq]; omega) hx
      rw [h.fsMapBlock_eq] at hx'
      omega
  rw [blockIndex_of_lt haddr.2]
  omega

/-- The slot map is followed by the block map only, which stands behind it on the device. -/
lemma readBlocks_image_slotMap {n : ℕ} (hn : n ≤ bc.out_slots_bitmap_blocks_num) :
    readBlocks (image w) (slotMapBlock bc) n = (slotMapPages bc).take (kfsBlocksize * n) := by
  rcases exists_written hw with ⟨p, map, rfl⟩
  have hb := h.blocks_le
  have hs := h.small
  have hslot := h.slotMapBlock_eq
  have hmap := h.fsMapBlock_eq
  have hall : (written bc sb_time sinodes_time p map).all =
      ((buildSuperblock bc sb_time ++ (sinodesTable bc sinodes_time ++
        (writeBlocks p (sinodeMapBlock bc) bc.out_sinodes_bitmap_blocks_num ++
          slotsTable bc))) ++ slotsBitmap bc) ++
        writeBlocks map (fsMapBlock bc) bc.out_bitmap_size_in_blocks := by
    simp [Written.all, Written.extents, written]
  rw [image, hall, applyWrites_append, applyWrites_append]
  generalize applyWrites _ (buildSuperblock bc sb_time ++ _) = d
  have hend : slotMapBlock bc + bc.out_slots_bitmap_blocks_num ≤ 2 ^ 51 := by omega
  rw [← readBlocks_writeBlocks_take d (slotMapPages bc) hend hn]
  apply List.flatMap_congr
  intro i hi
  have hlt := List.mem_range.mp hi
  -- none of these blocks belongs to the block map
  apply applyWrites_of_not_written
  intro x hx
  have hx' := addr_writeBlocks (by rw [hmap]; omega) hx
  rw [u64_of_lt (by omega), blockIndex_of_lt (by omega), blockIndex_of_lt (by omega)]
  omega

end Image

/-! ## After the mount -/

lemma length_slotMapPages (bc : BlocksCalc) :
    (slotMapPages bc).length = kfsBlocksize * bc.out_slots_bitmap_blocks_num := by
  simp [slotMapPages]

/-- The fields of the header all end before the bitmap. -/
lemma headerFields_end (magic in_use capacity : ℕ) :
    ∀ f ∈ (headerFields magic in_use capacity).map Prod.fst,
      f.off + f.width ≤ ExtentHeader.size := by
  have hfields : (headerFields magic in_use capacity).map Prod.fst =
      (headerFields 0 0 0).map Prod.fst := rfl
  rw [hfields]
  decide

/-- No slot is marked. -/
lemma bitAt_slotMapPages (bc : BlocksCalc) (k : ℕ) :
    bitAt (bitmapOf (slotMapPages bc)) k = false := by
  rw [slotMapPages, bitmapOf_putAll _ (headerFields_end _ _ _), bitmapOf, bitAt_drop]
  by_cases hpos : bc.out_slots_bitmap_blocks_num = 0
  · exact bitAt_eq_false_of_le (by simp [hpos])
  · -- `memset` on pages that are zero
    rw [bitAt_fill _ (by rw [length_pagesAlloc]; unfold kfsBlocksize; omega), pagesAlloc,
      bitAt_replicate_zero]
    simp

section Mounted

variable {bc : BlocksCalc} {sb_time sinodes_time : ℕ} {w : Written} (h : SlotLayout bc)
  (hw : buildFilesystem bc sb_time sinodes_time = some w) (now : ℕ)
include h hw

lemma slot_table_fresh : (mounted (image w) now).sb.sb_slot_table =
    { capacity := bc.out_slots_num % 2 ^ 64
      in_use := 0
      bitmap_extent := ⟨slotMapBlock bc % 2 ^ 64, bc.out_slots_bitmap_blocks_num % 2 ^ 16,
        bc.out_slots_bitmap_blocks_num % 2 ^ 16, 0⟩
      table_extent := ⟨slotTableBlock bc % 2 ^ 64, bc.out_slots_table_in_blocks % 2 ^ 16,
        bc.out_slots_num % 2 ^ 16, 0⟩ } := by
  simp only [mounted, mountSuper, blockRead_image_zero h hw, kfssbToSb_superblockPage]

lemma si_table_extent_fresh : (mounted (image w) now).sb.sb_si_table.table_extent =
    ⟨1, bc.out_sinodes_table_in_blocks % 2 ^ 16, bc.out_sinodes_num % 2 ^ 16, 0⟩ := by
  simp only [mounted, mountSuper, blockRead_image_zero h hw, kfssbToSb_superblockPage]

lemma kfsActive_fresh : kfsActive (mounted (image w) now) = 0 := by
  apply kfsActive_mounted
  rw [blockRead_image_zero h hw]
  exact get_superblockPage (v := kfsMagic) (by simp [superblockFields]) (by decide)

/-- **The slot map of a fresh file system**, as far as the superblock says that it reaches. -/
theorem slotMap_fresh : slotMap (mounted (image w) now) =
    (slotMapPages bc).take (kfsBlocksize * (bc.out_slots_bitmap_blocks_num % 2 ^ 16)) := by
  have hb := h.blocks_le
  have hs := h.small
  have hslot := h.slotMapBlock_eq
  have hle : bc.out_slots_bitmap_blocks_num % 2 ^ 16 ≤ bc.out_slots_bitmap_blocks_num :=
    Nat.mod_le _ _
  have hcount : intBlocks (toInt32 (bc.out_slots_bitmap_blocks_num % 2 ^ 16)) =
      bc.out_slots_bitmap_blocks_num % 2 ^ 16 := intBlocks_toInt32 (Nat.mod_lt _ (by decide))
  have haddr : slotMapBlock bc % 2 ^ 64 = slotMapBlock bc := Nat.mod_eq_of_lt (slotMapBlock_lt bc)
  rw [← readBlocks_image_slotMap h hw hle, slotMap]
  simp only [slot_table_fresh h hw, haddr]
  rw [flatten_extentRead (by rw [hcount]; omega), hcount]
  -- the superblock page that the mount writes is not part of the map
  apply List.flatMap_congr
  intro i hi
  have hlt := List.mem_range.mp hi
  apply disk_mounted_of_ne
  rw [u64_of_lt (by omega), blockIndex_of_lt (by omega)]
  omega

lemma length_slotMap_fresh : (slotMap (mounted (image w) now)).length =
    kfsBlocksize * (bc.out_slots_bitmap_blocks_num % 2 ^ 16) := by
  have hle : bc.out_slots_bitmap_blocks_num % 2 ^ 16 ≤ bc.out_slots_bitmap_blocks_num :=
    Nat.mod_le _ _
  rw [slotMap_fresh h hw, List.length_take, length_slotMapPages,
    Nat.min_eq_left (Nat.mul_le_mul_left _ hle)]

lemma bitAt_slotMap_fresh (k : ℕ) :
    bitAt (bitmapOf (slotMap (mounted (image w) now))) k = false := by
  by_cases hk : 8 * (bitmapOf (slotMap (mounted (image w) now))).length ≤ k
  · exact bitAt_eq_false_of_le hk
  · have hbit := bitAt_slotMapPages bc k
    rw [bitmapOf, List.length_drop, length_slotMap_fresh h hw] at hk
    rw [bitmapOf, bitAt_drop] at hbit ⊢
    rw [slotMap_fresh h hw, bitAt_take_of_lt _ (by omega), hbit]

/-- A map that the superblock gives at least one block has the header that was written. -/
lemma get_slotMap_fresh (hpos : 1 ≤ bc.out_slots_bitmap_blocks_num % 2 ^ 16) {f : CField} {v : ℕ}
    (hmem : (f, v) ∈ headerFields kfsSlotsBitmapMagic 0 bc.out_slots_num) :
    f.get (slotMap (mounted (image w) now)) = v % 256 ^ f.width := by
  have hend := headerFields_end _ _ _ f (List.mem_map_of_mem (f := Prod.fst) hmem)
  have hsize : ExtentHeader.size ≤ kfsBlocksize := by decide
  have hle : kfsBlocksize ≤ kfsBlocksize * (bc.out_slots_bitmap_blocks_num % 2 ^ 16) :=
    Nat.le_mul_of_pos_right _ hpos
  have hmod : bc.out_slots_bitmap_blocks_num % 2 ^ 16 ≤ bc.out_slots_bitmap_blocks_num :=
    Nat.mod_le _ _
  have hlen : kfsBlocksize ≤ kfsBlocksize * bc.out_slots_bitmap_blocks_num :=
    Nat.le_mul_of_pos_right _ (by omega)
  rw [slotMap_fresh h hw, get_take (by omega), slotMapPages]
  apply CField.get_putAll (headerFields_apart _ _ _) hmem
  rw [length_fill, length_pagesAlloc]
  omega

variable (hpos : 1 ≤ bc.out_slots_bitmap_blocks_num % 2 ^ 16)
include hpos

lemma magic_slotMap_fresh :
    ExtentHeader.eh_magic.get (slotMap (mounted (image w) now)) = kfsSlotsBitmapMagic := by
  rw [get_slotMap_fresh h hw now hpos (v := kfsSlotsBitmapMagic) (by simp [headerFields])]
  decide

lemma capacity_slotMap_fresh : ExtentHeader.eh_entries_capacity.get
    (slotMap (mounted (image w) now)) = bc.out_slots_num % 2 ^ 32 :=
  get_slotMap_fresh h hw now hpos (by simp [headerFields])

lemma in_use_slotMap_fresh :
    ExtentHeader.eh_entries_in_use.get (slotMap (mounted (image w) now)) = 0 :=
  get_slotMap_fresh h hw now hpos (v := 0) (by simp [headerFields])

end Mounted

/-! ## The second part of both functions

The super inode table, where the records are looked for, does not have the magic of a slot
table. -/

section Fails

variable {io : EioCodes} {env : Env} {fs : Fs} {slot_id : ℕ}

/-- A field behind the magic of a block is stored: the magic of no block changes. -/
lemma magic_blockWrite_put (d : Disk) {f : CField} (v b addr : ℕ)
    (hf : ExtentHeader.eh_magic.Apart f) :
    ExtentHeader.eh_magic.get (blockRead (blockWrite d (f.put (blockRead d b) v) b) addr) =
      ExtentHeader.eh_magic.get (blockRead d addr) := by
  rw [blockRead, blockWrite]
  by_cases hsame : blockIndex addr = blockIndex b
  · rw [hsame, Function.update_self, get_take (by decide), CField.get_put_of_apart _ _ hf]
    rw [blockRead, blockRead, hsame]
  · rw [Function.update_of_ne hsame]
    rfl

lemma updateIndex_fails (hmagic : ExtentHeader.eh_magic.get
    (blockRead fs.disk fs.sb.sb_si_table.table_extent.ex_block_addr) ≠ kfsSlotsTableMagic) :
    updateIndex io fs = (-1, fs) := by
  simp only [updateIndex, if_pos hmagic, ite_self]

/-- Where the super inode table does not have the magic of a slot table the second part fails,
with or without a change of the record. -/
lemma updateSlot_fails {flags : ℕ → ℕ} (hplace : slotPlace slot_id + Slot.size ≤ kfsBlocksize)
    (hmagic : ExtentHeader.eh_magic.get
      (blockRead fs.disk fs.sb.sb_si_table.table_extent.ex_block_addr) ≠ kfsSlotsTableMagic) :
    ∃ fs', updateSlot io env fs slot_id flags = some (-1, fs') := by
  unfold updateSlot
  cases slotBlock fs.sb slot_id with
  | none => exact ⟨_, rfl⟩
  | some b =>
    simp only [if_neg (show ¬ slotPlace slot_id + Slot.size > kfsBlocksize by omega)]
    split
    · exact ⟨_, rfl⟩
    split
    · exact ⟨_, rfl⟩
    split
    · exact ⟨_, rfl⟩
    split
    · exact ⟨_, rfl⟩
    -- the flags of a record lie behind the magic of its block
    have hapart : ExtentHeader.eh_magic.Apart (Slot.slot_flags.shift (slotPlace slot_id)) := by
      left
      simp only [CField.shift, ExtentHeader.eh_magic, Slot.slot_flags]
      omega
    refine ⟨_, congrArg some (updateIndex_fails ?_)⟩
    simpa only [magic_blockWrite_put _ _ _ _ hapart] using hmagic

/-- Storing the slot map does not touch a block before it. -/
lemma disk_storeSlotMap (p : List Byte) (in_use : ℕ) {b : ℕ}
    (hb : b < blockIndex fs.sb.sb_slot_table.bitmap_extent.ex_block_addr) :
    (storeSlotMap fs p in_use).disk b = fs.disk b :=
  if_neg fun hin => absurd hin.1 (by omega)

end Fails

/-- On a fresh file system the second part fails, whatever was stored in the slot map. -/
theorem updateSlot_fresh {bc : BlocksCalc} {sb_time sinodes_time : ℕ} {w : Written}
    (h : SlotLayout bc) (hrange : InRange bc) (happart : (regions bc).Pairwise Region.Apart)
    (hw : buildFilesystem bc sb_time sinodes_time = some w) (now : ℕ) (p : List Byte) (in_use : ℕ)
    (io : EioCodes) (env : Env) (flags : ℕ → ℕ) {slot_id : ℕ}
    (hplace : slotPlace slot_id + Slot.size ≤ kfsBlocksize) :
    ∃ fs', updateSlot io env (storeSlotMap (mounted (image w) now) p in_use) slot_id flags =
      some (-1, fs') := by
  have hmagic : ExtentHeader.eh_magic.get (blockRead (image w) 1) = kfsSinodeTableMagic := by
    rcases exists_written hw with ⟨q, map, rfl⟩
    exact magic_sinodes_table hrange happart
  have hb := h.blocks_le
  have hs := h.small
  have hslot := h.slotMapBlock_eq
  have hsinodes := hrange.sinodes
  -- block 1 is still the one that the builders wrote
  have hblock : blockRead (storeSlotMap (mounted (image w) now) p in_use).disk 1 =
      blockRead (image w) 1 := by
    have hone : blockIndex 1 = 1 := by decide
    rw [blockRead, blockRead, hone, disk_storeSlotMap, disk_mounted_of_ne _ _ (by decide)]
    rw [slot_table_fresh h hw]
    simp only
    rw [Nat.mod_eq_of_lt (slotMapBlock_lt bc), blockIndex_of_lt (by omega)]
    omega
  refine updateSlot_fails hplace ?_
  simp only [storeSlotMap, si_table_extent_fresh h hw]
  simp only [storeSlotMap] at hblock
  rw [hblock, hmagic]
  decide

/-! ## The smallest file system -/

/-- The layout of `mkfs kfs -p 10` on a device of 10 MBytes. -/
def minLayout : BlocksCalc := computeValuesWith (kfsOptions minFs 10) 64 id

lemma minLayout_slotLayout : SlotLayout minLayout :=
  slotLayout_of_budget id (kfsOptions_kfsPercent _ _).plain le_rfl (by decide) (by decide)
    (by decide)

lemma minLayout_inRange : InRange minLayout :=
  inRange_of_budget id (kfsOptions_kfsPercent _ _).plain (by decide) (by decide) (by decide)

lemma exists_minImage : ∃ w, buildFilesystem minLayout 0 0 = some w := by
  rcases buildFilesystem_spec minLayout_inRange 0 0 with ⟨p, map, hw, -⟩
  exact ⟨_, hw⟩

end KanekFs.Slots
