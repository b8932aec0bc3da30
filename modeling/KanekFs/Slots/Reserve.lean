import KanekFs.Slots.Fresh
import Mathlib.Order.Bounds.Basic

/-!
# When a slot is reserved

* `Reserves` is what `kfs_slot_reserve` is for. With the codes of `eio.c` it never happens
  (`reserve_never_succeeds`): the routines return 0 for a complete transfer, and `kfs_slot.c`
  takes that for a failure.
* With routines that report success a call that returns -1 leaves the slots as they were exactly
  when it left before the map was stored: `failed_reserve_untouched_iff`.
-/

namespace KanekFs.Slots

open Bytes Word Map Mkfs Super

/-! ## Definitions -/

/-- A mounted file system whose slot map has the right magic and a clear bit. -/
structure HasFreeSlot (fs : Fs) : Prop where
  active : kfsActive fs = 0
  magic : ExtentHeader.eh_magic.get (slotMap fs) = kfsSlotsBitmapMagic
  free : ∃ k < fs.sb.sb_slot_table.capacity, k < 8 * (bitmapOf (slotMap fs)).length ∧
    bitAt (bitmapOf (slotMap fs)) k = false

/-- The call returns 0 and has reserved the lowest free slot: exactly its bit is set, and both
counts are one larger. -/
def Reserves (fs : Fs) (r : Option (ℤ × ℕ × Fs)) : Prop :=
  ∃ id fs', r = some (0, id, fs') ∧
    IsLeast {k | k < fs.sb.sb_slot_table.capacity ∧ bitAt (bitmapOf (slotMap fs)) k = false} id ∧
    SetRange (bitmapOf (slotMap fs)) (bitmapOf (slotMap fs')) id (id + 1) true ∧
    fs'.sb.sb_slot_table.in_use = fs.sb.sb_slot_table.in_use + 1 ∧
    ExtentHeader.eh_entries_in_use.get (slotMap fs') =
      ExtentHeader.eh_entries_in_use.get (slotMap fs) + 1

/-- Nothing of the slots has changed: the map with its header, the table, the count. -/
structure SlotsUntouched (fs fs' : Fs) : Prop where
  map : slotMap fs' = slotMap fs
  table : ∀ b ∈ extentBlocks fs.sb.sb_slot_table.table_extent.ex_block_addr
    fs.sb.sb_slot_table.table_extent.ex_block_size, fs'.disk b = fs.disk b
  in_use : fs'.sb.sb_slot_table.in_use = fs.sb.sb_slot_table.in_use

lemma SlotsUntouched.refl (fs : Fs) : SlotsUntouched fs fs := ⟨rfl, fun _ _ => rfl, rfl⟩

/-! ## A fresh file system has free slots -/

section Fresh

variable {bc : BlocksCalc} {sb_time sinodes_time : ℕ} {w : Written} (h : SlotLayout bc)
  (hw : buildFilesystem bc sb_time sinodes_time = some w) (now : ℕ)
  (hmap : 1 ≤ bc.out_slots_bitmap_blocks_num % 2 ^ 16) (hnum : 1 ≤ bc.out_slots_num % 2 ^ 64)
include h hw hmap

lemma size_le_length_slotMap_fresh :
    ExtentHeader.size + 1 ≤ (slotMap (mounted (image w) now)).length := by
  rw [length_slotMap_fresh h hw]
  unfold ExtentHeader.size kfsBlocksize
  omega

include hnum

lemma lowestClear_fresh : LowestClear (mounted (image w) now) 0 := by
  have hlen := size_le_length_slotMap_fresh h hw now hmap
  refine ⟨?_, ?_, bitAt_slotMap_fresh h hw now 0, fun k hk => by omega⟩
  · rw [slot_table_fresh h hw]
    simp only
    omega
  · rw [bitmapOf, List.length_drop]
    omega

theorem hasFreeSlot_fresh : HasFreeSlot (mounted (image w) now) where
  active := kfsActive_fresh h hw now
  magic := magic_slotMap_fresh h hw now hmap
  free := by
    have hlow := lowestClear_fresh h hw now hmap hnum
    exact ⟨0, by simpa using hlow.in_byte, hlow.inside, hlow.clear⟩

/-- `bm_set_bit` changes bit 0. -/
lemma exists_onBitmap_fresh (c : ℤ) : ∃ p, onBitmap (slotMap (mounted (image w) now))
    (fun bitmap => bmSetBit bitmap (mounted (image w) now).sb.sb_slot_table.capacity 0 c) =
      some p := by
  have hlow := lowestClear_fresh h hw now hmap hnum
  have hlen := size_le_length_slotMap_fresh h hw now hmap
  obtain ⟨bitmap, hset, hrange⟩ := bmSetBit_of_lt c
    (show 0 < (mounted (image w) now).sb.sb_slot_table.capacity by simpa using hlow.in_byte)
    hlow.inside
  obtain ⟨p, hp, -⟩ := onBitmap_spec
    (f := fun bitmap => bmSetBit bitmap _ 0 c) hset hrange.length_eq (by omega)
  exact ⟨p, hp⟩

/-- With memory for the map nothing stops the first reservation before the map is stored. -/
lemma not_reserveExits_fresh {env : Env} (hpages : env.map_pages = true) :
    ¬ ReserveExits env (mounted (image w) now) := by
  have hfree := hasFreeSlot_fresh h hw now hmap hnum
  intro hex
  cases hex with
  | inactive hex => exact hex hfree.active
  | all_used hex => simp [slot_table_fresh h hw] at hex
  | no_pages hex => simp [hpages] at hex
  | magic hex => exact hex hfree.magic
  | header_used hex => simp [in_use_slotMap_fresh h hw now hmap] at hex
  | no_clear_bit hex =>
    have hlow := lowestClear_fresh h hw now hmap hnum
    have hset := hex 0 hlow.in_byte
    simp [hlow.clear] at hset

end Fresh

/-! ## With the codes of `eio.c` -/

/-- The first transfer is taken for a failure. -/
lemma reserve_eio {env : Env} {fs fs' : Fs} {slot_id id : ℕ} {rc : ℤ}
    (h : kfsSlotReserve eio env fs slot_id = some (rc, id, fs')) : rc = -1 := by
  have hread : eio.extent_read = 0 := rfl
  simp only [kfsSlotReserve, if_pos hread] at h
  -- whichever of the first four exits is taken
  split at h
  · simp_all
  split at h
  · simp_all
  split at h <;> simp_all

/-- **`kfs_slot_reserve` never succeeds** over `eio.c`. -/
theorem reserve_never_succeeds (env : Env) (fs : Fs) (slot_id : ℕ) :
    ¬ Reserves fs (kfsSlotReserve eio env fs slot_id) := by
  rintro ⟨id, fs', hret, -⟩
  have hrc := reserve_eio hret
  omega

/-- The smallest file system, freshly made and mounted: all slots are free, and none can be
reserved. -/
theorem reserve_fails_fresh : ∃ w, buildFilesystem minLayout 0 0 = some w ∧
    HasFreeSlot (mounted (image w) 0) ∧
    ¬ Reserves (mounted (image w) 0) (kfsSlotReserve eio ⟨true, true⟩ (mounted (image w) 0) 0) := by
  rcases exists_minImage with ⟨w, hw⟩
  refine ⟨w, hw, hasFreeSlot_fresh minLayout_slotLayout hw 0 (by decide) (by decide), ?_⟩
  rintro ⟨id, fs', hret, -⟩
  have hrc := reserve_eio hret
  omega

/-! ## With routines that report success -/

section Trace

variable {io : EioCodes} {env : Env} {fs fs' : Fs} {slot_id id : ℕ} {rc : ℤ}

/-- A call that stores the map has changed the count. -/
lemma Stores.not_untouched {c : ℤ} {flags : ℕ → ℕ}
    (h : Stores io env fs slot_id c (u64 (fs.sb.sb_slot_table.in_use + 1)) flags rc fs') :
    ¬ SlotsUntouched fs fs' := by
  intro hsame
  have hcount := hsame.in_use
  rw [h.sb] at hcount
  exact u64_succ_ne _ hcount

/-- **When a failed reservation leaves no trace**: exactly when it left before the map was
stored. Every exit behind that point comes after the bit is set and the slot is counted. -/
theorem failed_reserve_untouched_iff (io : EioCodes) (env : Env) (fs fs' : Fs) (slot_id id : ℕ)
    (hio : io.ReportSuccess) (h : kfsSlotReserve io env fs slot_id = some (-1, id, fs')) :
    SlotsUntouched fs fs' ↔ ReserveExits env fs := by
  rcases reserve_cases hio h with ⟨rfl, hexits⟩ | ⟨hno, addr, -, -, hstores⟩
  · exact iff_of_true (SlotsUntouched.refl _) hexits
  · exact iff_of_false hstores.not_untouched hno

end Trace

/-- Without memory for the map the first reservation of a fresh file system leaves no trace. -/
theorem failed_reserve_untouched_no_pages : ∃ w fs', buildFilesystem minLayout 0 0 = some w ∧
    kfsSlotReserve ⟨1, 1, 1, 1⟩ ⟨false, true⟩ (mounted (image w) 0) 0 = some (-1, 0, fs') ∧
    SlotsUntouched (mounted (image w) 0) fs' := by
  rcases exists_minImage with ⟨w, hw⟩
  have hret : kfsSlotReserve ⟨1, 1, 1, 1⟩ ⟨false, true⟩ (mounted (image w) 0) 0 =
      some (-1, 0, mounted (image w) 0) := by
    simp [kfsSlotReserve, kfsActive_fresh minLayout_slotLayout hw,
      slot_table_fresh minLayout_slotLayout hw]
  refine ⟨w, _, hw, hret, ?_⟩
  exact (failed_reserve_untouched_iff ⟨1, 1, 1, 1⟩ ⟨false, true⟩ _ _ 0 0
    ⟨by decide, by decide, by decide, by decide⟩ hret).mpr (.no_pages rfl)

/-- On the smallest file system, freshly made and mounted, the first reservation returns -1, and
slot 0 is marked and counted. -/
theorem failed_reserve_leaves_trace : ∃ w id fs', buildFilesystem minLayout 0 0 = some w ∧
    kfsSlotReserve ⟨1, 1, 1, 1⟩ ⟨true, true⟩ (mounted (image w) 0) 0 = some (-1, id, fs') ∧
    ¬ SlotsUntouched (mounted (image w) 0) fs' := by
  rcases exists_minImage with ⟨w, hw⟩
  have hmap : 1 ≤ minLayout.out_slots_bitmap_blocks_num % 2 ^ 16 := by decide
  have hnum : 1 ≤ minLayout.out_slots_num % 2 ^ 64 := by decide
  have hio : EioCodes.ReportSuccess ⟨1, 1, 1, 1⟩ := ⟨by decide, by decide, by decide, by decide⟩
  have hlow := lowestClear_fresh minLayout_slotLayout hw 0 hmap hnum
  have hlen := size_le_length_slotMap_fresh minLayout_slotLayout hw 0 hmap
  have hno := not_reserveExits_fresh minLayout_slotLayout hw 0 hmap hnum
    (show (⟨true, true⟩ : Env).map_pages = true from rfl)
  -- the map with bit 0 set
  obtain ⟨p, hp⟩ := exists_onBitmap_fresh minLayout_slotLayout hw 0 hmap hnum 1
  have heq := kfsSlotReserve_eq hio 0 hno (by omega) hlow hp
  generalize hcount : u64 ((mounted (image w) 0).sb.sb_slot_table.in_use + 1) = in_use at heq
  rcases updateSlot_fresh minLayout_slotLayout minLayout_inRange
    (minLayout_inRange.regions_apart (by decide)) hw 0 p in_use ⟨1, 1, 1, 1⟩ ⟨true, true⟩
    (· ||| slotInUse) (show slotPlace (u64 0) + Slot.size ≤ kfsBlocksize by decide)
    with ⟨fs', hupdate⟩
  refine ⟨w, u64 0, fs', hw, ?_, ?_⟩
  · rw [heq, hupdate]
    rfl
  · have hstores : Stores ⟨1, 1, 1, 1⟩ ⟨true, true⟩ (mounted (image w) 0) (u64 0) 1
        (u64 ((mounted (image w) 0).sb.sb_slot_table.in_use + 1)) (· ||| slotInUse) (-1) fs' := by
      refine ⟨p, by omega, hp, ?_⟩
      rw [hcount]
      exact hupdate
    exact hstores.not_untouched

end KanekFs.Slots
