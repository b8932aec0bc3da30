import KanekFs.Mkfs.Records
import KanekFs.Slots.Address

/-!
# The records of the slot table

Where `build_slots` stores, and which slots have a record.

* `slotsStores_outside`: in the first block the stores for the slots from 173 on go behind the
  end of the page.
* `exists_slotRecord_iff`: exactly the slots below 172 and those of the other blocks have a record
  on the disk.
* `slotsTable_never_complete`: whatever the size of the table, it is not complete.
-/

namespace KanekFs.Slots

open Bytes Word Mkfs Super

/-! ## Definitions -/

/-- The fields that `build_slots` stores to in the page: the header and the records of the first
block, and those of any other. -/
def slotsStores (bc : BlocksCalc) : List CField :=
  (headerFields kfsSlotsTableMagic 0 bc.out_slots_num).map Prod.fst ++
    idFields Slot.slot_id Slot.size bc.out_slots_per_block (ExtentHeader.size * Slot.size) ++
    if 2 ≤ bc.out_slots_table_in_blocks then
      idFields Slot.slot_id Slot.size bc.out_slots_per_block 0
    else []

/-- The `n`-th record that `build_slots` stores lies in its block, and the id in it is
`slot_id`. -/
def SlotRecord (bc : BlocksCalc) (slot_id n : ℕ) : Prop :=
  n < bc.out_slots_table_in_blocks * bc.out_slots_per_block ∧
    builtPlace bc n + Slot.size ≤ kfsBlocksize ∧
    recordAt (slotsTable bc) (builtBlock bc n) (builtPlace bc n) Slot.slot_id = some slot_id

/-- Every slot has one record in the table, in the order of the ids, and nothing is stored
outside the page. -/
structure SlotTable (bc : BlocksCalc) : Prop where
  stores : ∀ f ∈ slotsStores bc, f.off + f.width ≤ kfsBlocksize
  record : ∀ slot_id < bc.out_slots_num, ∃! n, SlotRecord bc slot_id n
  ordered : ∀ slot_id slot_id' n n', SlotRecord bc slot_id n → SlotRecord bc slot_id' n' →
    slot_id < slot_id' → n < n'

section Records

variable {bc : BlocksCalc} {slot_id n : ℕ}

/-- The record of the 174th slot and those behind it start behind the page. -/
lemma slotsStores_outside (hper : bc.out_slots_per_block = slotsPerBlock) :
    ∀ i, 173 ≤ i → i < slotsPerBlock →
      ∃ f ∈ slotsStores bc, f = Slot.slot_id.shift (ExtentHeader.size * Slot.size + Slot.size * i) ∧
        kfsBlocksize < f.off + f.width := by
  intro i hi hlt
  refine ⟨_, ?_, rfl, ?_⟩
  · rw [slotsStores, List.mem_append, List.mem_append, hper]
    exact .inl (.inr (mem_idFields.mpr ⟨i, hlt, rfl⟩))
  · simp only [CField.shift, Slot.slot_id, Slot.size, ExtentHeader.size, kfsBlocksize]
    omega

/-- The records that lie in their block. -/
lemma builtPlace_fits_iff (hper : bc.out_slots_per_block = slotsPerBlock) :
    builtPlace bc n + Slot.size ≤ kfsBlocksize ↔ n < 172 ∨ 204 ≤ n := by
  have h204 : slotsPerBlock = 204 := rfl
  have hmod : (n - 204) % 204 < 204 := Nat.mod_lt _ (by decide)
  rw [builtPlace, hper, h204]
  simp only [ExtentHeader.size, Slot.size, kfsBlocksize]
  split <;> omega

/-- The blocks of the table have different addresses. -/
lemma nodup_slotsTable (htable : slotTableBlock bc + bc.out_slots_table_in_blocks < 2 ^ 64) :
    ((slotsTable bc).map Write.addr).Nodup := by
  rw [slotsTable, List.map_cons, tableBlocks_addrs, List.nodup_cons]
  refine ⟨?_, List.nodup_range'⟩
  intro h
  rw [u64_of_lt htable, List.mem_range'_1] at h
  dsimp only at h
  rcases h with ⟨hle, hlt⟩
  by_cases hone : bc.out_slots_table_in_blocks = 0
  · -- the range of the remaining blocks is empty
    rw [hone] at hlt
    unfold u64 at hle hlt
    omega
  · rw [u64_of_lt (by omega)] at hle
    omega

/-- A record holds the number of its position, which is the id it was given. -/
lemma slotRecord_iff (hper : bc.out_slots_per_block = slotsPerBlock)
    (htable : slotTableBlock bc + bc.out_slots_table_in_blocks < 2 ^ 64)
    (hnum : bc.out_slots_table_in_blocks * slotsPerBlock < 2 ^ 64) :
    SlotRecord bc slot_id n ↔
      slot_id = n ∧ n < bc.out_slots_table_in_blocks * slotsPerBlock ∧ (n < 172 ∨ 204 ≤ n) := by
  have hread : n < bc.out_slots_table_in_blocks * slotsPerBlock → (n < 172 ∨ 204 ≤ n) →
      recordAt (slotsTable bc) (builtBlock bc n) (builtPlace bc n) Slot.slot_id = some n := by
    intro hn hfits
    obtain ⟨page, hmem, hid⟩ := exists_built_record hper htable hn
      ((builtPlace_fits_iff hper).mpr hfits)
    have hget := recordAt_of_mem hmem (nodup_slotsTable htable) (builtPlace bc n) Slot.slot_id
    rw [hget, hid, Nat.mod_eq_of_lt (by omega)]
  rw [SlotRecord, hper, builtPlace_fits_iff hper]
  constructor
  · rintro ⟨hn, hfits, hrec⟩
    rw [hread hn hfits, Option.some.injEq] at hrec
    exact ⟨hrec.symm, hn, hfits⟩
  · rintro ⟨rfl, hn, hfits⟩
    exact ⟨hn, hfits, hread hn hfits⟩

/-- The slots that have a record. -/
theorem exists_slotRecord_iff (hper : bc.out_slots_per_block = slotsPerBlock)
    (htable : slotTableBlock bc + bc.out_slots_table_in_blocks < 2 ^ 64)
    (hnum : bc.out_slots_table_in_blocks * slotsPerBlock < 2 ^ 64)
    (hid : slot_id < bc.out_slots_table_in_blocks * slotsPerBlock) :
    (∃! n, SlotRecord bc slot_id n) ↔ slot_id < 172 ∨ 204 ≤ slot_id := by
  constructor
  · rintro ⟨n, hn, -⟩
    obtain ⟨rfl, -, hfits⟩ := (slotRecord_iff hper htable hnum).mp hn
    exact hfits
  · intro hfits
    refine ⟨slot_id, (slotRecord_iff hper htable hnum).mpr ⟨rfl, hid, hfits⟩, ?_⟩
    intro n hn
    exact ((slotRecord_iff hper htable hnum).mp hn).1.symm

lemma not_slotTable (hper : bc.out_slots_per_block = slotsPerBlock) : ¬ SlotTable bc := by
  intro h
  obtain ⟨f, hf, -, hout⟩ := slotsStores_outside hper 173 le_rfl (by decide)
  have hin := h.stores f hf
  omega

/-- **No slot table is complete**, whatever its size: stores go behind the page, and of the slots
exactly 172 to 203 have no record. -/
theorem slotsTable_never_complete (hper : bc.out_slots_per_block = slotsPerBlock)
    (htable : slotTableBlock bc + bc.out_slots_table_in_blocks < 2 ^ 64)
    (hnum : bc.out_slots_num = bc.out_slots_table_in_blocks * slotsPerBlock)
    (hfit : bc.out_slots_num < 2 ^ 64) :
    ¬ SlotTable bc ∧ ∀ slot_id < bc.out_slots_num,
      ((∃! n, SlotRecord bc slot_id n) ↔ slot_id < 172 ∨ 204 ≤ slot_id) := by
  refine ⟨not_slotTable hper, ?_⟩
  intro slot_id hid
  exact exists_slotRecord_iff hper htable (hnum ▸ hfit) (hnum ▸ hid)

end Records

/-- The table of a file of 10 MBytes. -/
theorem slotsTable_never_complete_10M :
    ¬ SlotTable (computeValues (kfsOptions 10485760 10) id) ∧
      ∀ slot_id < (computeValues (kfsOptions 10485760 10) id).out_slots_num,
        ((∃! n, SlotRecord (computeValues (kfsOptions 10485760 10) id) slot_id n) ↔
          slot_id < 172 ∨ 204 ≤ slot_id) :=
  slotsTable_never_complete (by decide +kernel) (by decide +kernel) (by decide +kernel)
    (by decide +kernel)

/-- In a file of 10 MBytes `build_slots` stores behind its page. -/
theorem slots_stored_outside : ¬ SlotTable (computeValues (kfsOptions 10485760 10) id) :=
  not_slotTable (by decide +kernel)

end KanekFs.Slots
