import KanekFs.Slots.Fresh

/-!
# Where the record of a slot is

`build_slots` stores the records of the slots one after the other, and `kfs_slot_reserve` and
`kfs_slot_remove` compute the place of a record from its id.

* `builtBlock` and `builtPlace` are where the loop of `build_slots` stores the id of a slot;
  `exists_built_record` says that it does.
* `address_never_agrees`: the place that `kfs_slot.c` computes is another one, for every slot of
  every layout.
* `built_record_refused`: at the right place the check of the id would refuse the record.
-/

namespace KanekFs.Slots

open Bytes Word Mkfs Super

/-! ## Definitions -/

/-- The block in which `build_slots` stores the id of a slot. -/
def builtBlock (bc : BlocksCalc) (slot_id : ℕ) : ℕ :=
  if slot_id < bc.out_slots_per_block then slotTableBlock bc
  else u64 (slotTableBlock bc + 1) +
    (slot_id - bc.out_slots_per_block) / bc.out_slots_per_block

/-- The byte of the block at which the record starts. Behind the first block the records start
at byte 0. -/
def builtPlace (bc : BlocksCalc) (slot_id : ℕ) : ℕ :=
  if slot_id < bc.out_slots_per_block then ExtentHeader.size * Slot.size + Slot.size * slot_id
  else Slot.size * ((slot_id - bc.out_slots_per_block) % bc.out_slots_per_block)

/-- With `__sb` and the device `d` the functions of `kfs_slot.c` find the record of a slot where
`build_slots` stored it, and their check of the id accepts it. -/
structure AddressAgrees (bc : BlocksCalc) (sb : Sb) (d : Disk) (slot_id : ℕ) : Prop where
  block : slotBlock sb slot_id = some (builtBlock bc slot_id)
  place : slotPlace slot_id = builtPlace bc slot_id
  accepted : (Slot.slot_id.shift (slotPlace slot_id)).get (blockRead d (builtBlock bc slot_id)) ≠
    slot_id

/-! ## The records that are built -/

section Built

variable {bc : BlocksCalc} {slot_id : ℕ}

/-- A slot of the table has its id stored at its place, unless the record is one of the last of
the first block: those lie behind the end of the page. -/
theorem exists_built_record (hper : bc.out_slots_per_block = slotsPerBlock)
    (htable : slotTableBlock bc + bc.out_slots_table_in_blocks < 2 ^ 64)
    (hid : slot_id < bc.out_slots_table_in_blocks * slotsPerBlock)
    (hplace : builtPlace bc slot_id + Slot.size ≤ kfsBlocksize) :
    ∃ page, ⟨builtBlock bc slot_id, page⟩ ∈ slotsTable bc ∧
      (Slot.slot_id.shift (builtPlace bc slot_id)).get page = slot_id % 2 ^ 64 := by
  have hsize : Slot.size = 40 := rfl
  have hslots : slotsPerBlock = 204 := rfl
  unfold builtPlace at hplace ⊢
  rw [hslots] at hid hper
  rw [slotsTable_eq (by omega) htable]
  unfold builtBlock
  by_cases hfirst : slot_id < bc.out_slots_per_block
  · -- the first block, behind the header
    simp only [if_pos hfirst] at hplace ⊢
    refine ⟨slotsFirstBlock bc, List.mem_cons_self, ?_⟩
    have hlen : (CField.putAll (pagesAlloc 1)
        (headerFields kfsSlotsTableMagic 0 bc.out_slots_num)).length = kfsBlocksize := by simp
    have hget := get_putIds (CField.putAll (pagesAlloc 1)
      (headerFields kfsSlotsTableMagic 0 bc.out_slots_num)) (ExtentHeader.size * Slot.size) 0 hfirst
      (show Slot.slot_id.off + Slot.slot_id.width ≤ Slot.size by decide)
      (by rw [hlen, Nat.mul_succ]; omega)
    rw [Nat.zero_add] at hget
    exact hget
  · -- a later block: its records are a run of their own
    simp only [if_neg hfirst] at hplace ⊢
    have hnext : u64 (slotTableBlock bc + 1) = slotTableBlock bc + 1 := u64_of_lt (by omega)
    rw [hper] at hfirst ⊢
    rw [hnext]
    have hlen : Slot.size * 204 ≤ (slotsFirstBlock bc).length := by
      simp [slotsFirstBlock, hsize, kfsBlocksize]
    obtain ⟨page, hpage, hids⟩ := exists_mem_tableBlocks (slotsFirstBlock bc)
      (slotTableBlock bc + 1) 204
      (show (slot_id - 204) / 204 < bc.out_slots_table_in_blocks - 1 by omega)
      (show Slot.slot_id.off + Slot.slot_id.width ≤ Slot.size by decide) hlen
    refine ⟨page, List.mem_cons_of_mem _ hpage, ?_⟩
    rw [hids _ (Nat.mod_lt _ (by decide))]
    have hdiv : 204 + 204 * ((slot_id - 204) / 204) + (slot_id - 204) % 204 = slot_id := by omega
    rw [hdiv]
    rfl

end Built

/-! ## The place that is computed -/

section Place

variable {bc : BlocksCalc} {sb_time slot_id : ℕ}

/-- In the first block of the table the records start at record 32, and the pointer is advanced
by 16 records or none. -/
lemma slotPlace_ne_of_first (hfirst : slot_id < bc.out_slots_per_block) :
    slotPlace slot_id ≠ builtPlace bc slot_id := by
  have hmod : slot_id % kfsBlocksize ≤ slot_id := Nat.mod_le _ _
  rw [builtPlace, if_pos hfirst, slotPlace]
  simp only [ExtentHeader.size, Slot.size, Extent.size]
  split <;> omega

/-- Behind the first block of the table the block is out of range. -/
lemma slotBlock_ne_of_rest (hsinodes : bc.out_sinodes_table_in_blocks < 2 ^ 51)
    (hrest : ¬ slot_id < bc.out_slots_per_block) :
    slotBlock (kfssbToSb (superblockPage bc sb_time)) slot_id ≠ some (builtBlock bc slot_id) := by
  have hmod : bc.out_sinodes_table_in_blocks % 2 ^ 16 ≤ bc.out_sinodes_table_in_blocks :=
    Nat.mod_le _ _
  rw [kfssbToSb_superblockPage, builtBlock, if_neg hrest, slotBlock, slotTableBlock]
  generalize (slot_id - bc.out_slots_per_block) / bc.out_slots_per_block = block
  simp only
  split
  · simp
  · rename_i hin
    -- blocks of the super inode table and the first of the slot table only
    rw [u64_of_lt (show bc.out_sinodes_table_in_blocks + 1 < 2 ^ 64 by omega),
      u64_of_lt (show bc.out_sinodes_table_in_blocks + 1 + 1 < 2 ^ 64 by omega),
      u64_of_lt (by omega), ne_eq, Option.some.injEq]
    omega

end Place

/-- **The slot addresses never agree**: for every layout that a device has room for, every slot
and every content of the device. -/
theorem address_never_agrees (bc : BlocksCalc) (sb_time : ℕ) (d : Disk) (slot_id : ℕ)
    (hsinodes : bc.out_sinodes_table_in_blocks < 2 ^ 51) :
    ¬ AddressAgrees bc (kfssbToSb (superblockPage bc sb_time)) d slot_id := by
  intro h
  by_cases hfirst : slot_id < bc.out_slots_per_block
  · exact slotPlace_ne_of_first hfirst h.place
  · exact slotBlock_ne_of_rest hsinodes hfirst h.block

/-- Slot 0 of the smallest file system, on an image that mkfs left. -/
theorem address_never_agrees_min : ∃ w, buildFilesystem minLayout 0 0 = some w ∧
    ¬ AddressAgrees minLayout (kfssbToSb (superblockPage minLayout 0)) (image w) 0 := by
  rcases exists_minImage with ⟨w, hw⟩
  exact ⟨w, hw, address_never_agrees minLayout 0 (image w) 0 (by decide)⟩

/-- Its record is built in block 64 at byte 1280, and looked for in block 1 at byte 640. -/
theorem slot_zero_elsewhere :
    slotBlock (kfssbToSb (superblockPage minLayout 0)) 0 = some 1 ∧ slotPlace 0 = 640 ∧
    builtBlock minLayout 0 = 64 ∧ builtPlace minLayout 0 = 1280 ∧
    ∀ d, ¬ AddressAgrees minLayout (kfssbToSb (superblockPage minLayout 0)) d 0 := by
  refine ⟨?_, by decide, by decide, by decide, ?_⟩
  · rw [kfssbToSb_superblockPage]
    decide
  · intro d h
    have hplace := h.place
    revert hplace
    decide

/-- **The check of the id refuses the record of the slot**: what the image holds at the place of
a record is the id that the check must not find. -/
theorem built_record_refused {bc : BlocksCalc} {sb_time sinodes_time slot_id : ℕ} {w : Written}
    (hrange : InRange bc) (happart : (regions bc).Pairwise Region.Apart)
    (hw : buildFilesystem bc sb_time sinodes_time = some w)
    (hper : bc.out_slots_per_block = slotsPerBlock)
    (hid : slot_id < bc.out_slots_table_in_blocks * slotsPerBlock)
    (hplace : builtPlace bc slot_id + Slot.size ≤ kfsBlocksize) :
    (Slot.slot_id.shift (builtPlace bc slot_id)).get
      (blockRead (image w) (builtBlock bc slot_id)) = slot_id := by
  have htables := hrange.tables
  have hsmall := hrange.small
  have htable := hrange.slotTableBlock_eq
  have hslots : slotsPerBlock = 204 := rfl
  rcases exists_written hw with ⟨p, map, rfl⟩
  obtain ⟨page, hpage, hget⟩ := exists_built_record hper (by omega) hid hplace
  have hmem : ⟨builtBlock bc slot_id, page⟩ ∈ (written bc sb_time sinodes_time p map).all := by
    simp [Written.all, Written.extents, written, hpage]
  have hend : (Slot.slot_id.shift (builtPlace bc slot_id)).off +
      (Slot.slot_id.shift (builtPlace bc slot_id)).width ≤ kfsBlocksize := by
    simp only [CField.shift, Slot.slot_id, Slot.size] at hplace ⊢
    omega
  rw [get_image hrange happart hmem hend, hget, Nat.mod_eq_of_lt (by rw [hslots] at hid; omega)]

end KanekFs.Slots
