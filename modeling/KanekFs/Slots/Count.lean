import KanekFs.Lib.BitSet
import KanekFs.Lib.Run
import KanekFs.Slots.Reserve

/-!
# When the count of slots is exact

A mounted file system counts its reserved slots twice, in `__sb` and in the header of the slot
map. `kfs_slot_reserve` counts up and `kfs_slot_remove` counts down whether or not they change a
bit.

* `SlotsMounted` is what every call keeps, and `MapStep` is what a call that stores the map does
  to the map, to its header and to `__sb`; `Stores.mapStep` derives it from the code.
* `countExact_step_iff`: a call keeps the counts exact if and only if it meets `StepOk`.
* `slot_count_exact_iff` is the result for runs from a fresh file system.
-/

namespace KanekFs.Slots

open Bytes Word Map Mkfs Super Run

/-! ## Definitions -/

/-- A call of a client, with how its allocations turn out. The id of `reserve` is what `*slot_id`
holds at the call. -/
inductive Op
  | reserve (env : Env) (slot_id : ℕ)
  | remove (env : Env) (slot_id : ℕ)

/-- The file system after a call; the code that is returned does not matter here. -/
def step (io : EioCodes) (fs : Fs) : Op → Option Fs
  | .reserve env slot_id => (kfsSlotReserve io env fs slot_id).map fun r => r.2.2
  | .remove env slot_id => (kfsSlotRemove io env fs slot_id).map fun r => r.2

/-- The slots whose bit is set. -/
def usedSlots (fs : Fs) : Finset ℕ :=
  onesBelow (bitmapOf (slotMap fs)) fs.sb.sb_slot_table.capacity

/-- Both counts are the number of set bits below the capacity. -/
structure CountExact (fs : Fs) : Prop where
  super : fs.sb.sb_slot_table.in_use = (usedSlots fs).card
  header : ExtentHeader.eh_entries_in_use.get (slotMap fs) = (usedSlots fs).card

/-- The calls that keep the counts exact. A removal that gets memory is of a used slot, or of an
id beyond the capacity; a reservation that gets memory finds a slot, or the capacity ends with a
byte of the map. -/
def StepOk (fs : Fs) : Op → Prop
  | .reserve env _ => env.map_pages = true →
      fs.sb.sb_slot_table.in_use < fs.sb.sb_slot_table.capacity ∨
        fs.sb.sb_slot_table.capacity % 8 = 0
  | .remove env slot_id => env.map_pages = true → slot_id ≤ fs.sb.sb_slot_table.capacity →
      slot_id ∈ usedSlots fs

/-- What every call keeps. The map is as long as the superblock says, bits from the capacity on
are clear, and the super inode table lies before the map. -/
structure SlotsMounted (fs : Fs) : Prop where
  active : kfsActive fs = 0
  capacity : fs.sb.sb_slot_table.capacity < 2 ^ 64
  size : fs.sb.sb_slot_table.bitmap_extent.ex_block_size < 2 ^ 16
  addr : fs.sb.sb_slot_table.bitmap_extent.ex_block_addr < 2 ^ 51
  length_eq : (slotMap fs).length =
    kfsBlocksize * fs.sb.sb_slot_table.bitmap_extent.ex_block_size
  magic : ExtentHeader.size ≤ (slotMap fs).length →
    ExtentHeader.eh_magic.get (slotMap fs) = kfsSlotsBitmapMagic
  header_capacity : ExtentHeader.size ≤ (slotMap fs).length →
    ExtentHeader.eh_entries_capacity.get (slotMap fs) = fs.sb.sb_slot_table.capacity % 2 ^ 32
  tail : ∀ k, fs.sb.sb_slot_table.capacity ≤ k → bitAt (bitmapOf (slotMap fs)) k = false
  table : fs.sb.sb_si_table.table_extent.ex_block_addr +
      fs.sb.sb_si_table.table_extent.ex_block_size <
    fs.sb.sb_slot_table.bitmap_extent.ex_block_addr

/-- The map is stored with the count `in_use` and with bit `slot_id` changed to `c`, if that is
a bit of the map. -/
structure MapStep (fs fs' : Fs) (slot_id : ℕ) (c : Bool) (in_use : ℕ) : Prop where
  sb : fs'.sb = { fs.sb with sb_slot_table := { fs.sb.sb_slot_table with in_use := in_use } }
  cache_active : fs'.cache_active = fs.cache_active
  header : ExtentHeader.size ≤ (slotMap fs).length
  length_eq : (slotMap fs').length = (slotMap fs).length
  magic : ExtentHeader.eh_magic.get (slotMap fs') = ExtentHeader.eh_magic.get (slotMap fs)
  capacity : ExtentHeader.eh_entries_capacity.get (slotMap fs') =
    ExtentHeader.eh_entries_capacity.get (slotMap fs)
  count : ExtentHeader.eh_entries_in_use.get (slotMap fs') = in_use % 2 ^ 32
  bits : (fs.sb.sb_slot_table.capacity ≤ slot_id ∧
      bitmapOf (slotMap fs') = bitmapOf (slotMap fs)) ∨
    (slot_id < fs.sb.sb_slot_table.capacity ∧
      SetRange (bitmapOf (slotMap fs)) (bitmapOf (slotMap fs')) slot_id (slot_id + 1) c)

/-! ## Storing the map -/

section Map

variable {io : EioCodes} {env : Env} {fs fs' : Fs} {slot_id in_use : ℕ} {c : Bool}

namespace SlotsMounted

variable (h : SlotsMounted fs)
include h

lemma intBlocks_eq : intBlocks (toInt32 fs.sb.sb_slot_table.bitmap_extent.ex_block_size) =
    fs.sb.sb_slot_table.bitmap_extent.ex_block_size :=
  intBlocks_toInt32 h.size

/-- The map that was stored is the one that is read. -/
lemma slotMap_store {p : List Byte} (in_use : ℕ) (hp : p.length = (slotMap fs).length) :
    slotMap (storeSlotMap fs p in_use) = ExtentHeader.eh_entries_in_use.put p in_use := by
  have hlen : (ExtentHeader.eh_entries_in_use.put p in_use).length =
      kfsBlocksize * fs.sb.sb_slot_table.bitmap_extent.ex_block_size := by
    rw [CField.length_put, hp, h.length_eq]
  simp only [slotMap, storeSlotMap]
  rw [extentRead_extentWrite _ _ (length_cutBlocks _ _), h.intBlocks_eq, flatten_cutBlocks hlen]

/-- What the second part does is no change of the map. -/
lemma slotMap_of_sameOutside {fs₁ : Fs} (hsame : SameOutside fs₁ fs')
    (hsb : fs₁.sb.sb_slot_table.bitmap_extent = fs.sb.sb_slot_table.bitmap_extent)
    (hsi : fs₁.sb.sb_si_table = fs.sb.sb_si_table) :
    slotMap fs' = slotMap fs₁ := by
  have htable := h.table
  have haddr := h.addr
  have hsize := h.size
  have hfits : FitsInt (toInt32 fs.sb.sb_slot_table.bitmap_extent.ex_block_size) := by
    rw [toInt32_of_lt (by omega)]
    unfold FitsInt kfsBlocksize
    omega
  simp only [slotMap, hsame.sb, hsb]
  congr 1
  apply extentRead_congr hfits
  intro b hb
  apply hsame.disk
  -- a block of the super inode table lies before the map
  rintro ⟨k, hk, rfl⟩
  rw [hsi] at hk hb
  have hlo := hb.1
  rw [blockIndex_of_lt haddr, u64_of_lt (by omega), blockIndex_of_lt (by omega)] at hlo
  omega

end SlotsMounted

/-- **The map after a call that stores it.** -/
theorem Stores.mapStep {c rc : ℤ} {in_use : ℕ} {flags : ℕ → ℕ} (hI : SlotsMounted fs)
    (h : Stores io env fs slot_id c in_use flags rc fs') :
    MapStep fs fs' slot_id (decide (c = 1)) in_use := by
  rcases h with ⟨p, hsize, hp, hupdate⟩
  have hframe := updateSlot_frame hupdate
  obtain ⟨⟨code, bitmap⟩, hset, -⟩ := Option.bind_eq_some_iff.mp hp
  have hcases := bmSetBit_cases hset
  have hlen : bitmap.length = (bitmapOf (slotMap fs)).length := by
    rcases hcases with ⟨-, rfl⟩ | ⟨-, hrange⟩
    · rfl
    · exact hrange.length_eq
  obtain ⟨p', hp', hlen', hbits', hget'⟩ := onBitmap_spec
    (f := fun bitmap => bmSetBit bitmap fs.sb.sb_slot_table.capacity slot_id c) hset hlen hsize
  obtain rfl : p' = p := Option.some.inj (hp'.symm.trans hp)
  -- the second part leaves the stored map alone
  have hmap : slotMap fs' = ExtentHeader.eh_entries_in_use.put p' in_use := by
    rw [hI.slotMap_of_sameOutside hframe rfl rfl, hI.slotMap_store in_use hlen']
  have hheader : ExtentHeader.eh_entries_in_use.off + ExtentHeader.eh_entries_in_use.width ≤
      ExtentHeader.size := by decide
  have hbitmap : bitmapOf (slotMap fs') = bitmap := by
    rw [hmap, bitmapOf_put _ _ hheader, hbits']
  exact
    { sb := hframe.sb
      cache_active := hframe.cache_active
      header := hsize
      length_eq := by rw [hmap, CField.length_put, hlen']
      magic := by rw [hmap, CField.get_put_of_apart _ _ (by decide), hget' _ (by decide)]
      capacity := by rw [hmap, CField.get_put_of_apart _ _ (by decide), hget' _ (by decide)]
      count := by
        rw [hmap, CField.get_put_same _ (hheader.trans (hlen' ▸ hsize))]
        rfl
      bits := by rw [hbitmap]; exact hcases }

/-! ## One call -/

lemma kfsActive_congr (h : MapStep fs fs' slot_id c in_use) : kfsActive fs' = kfsActive fs := by
  simp only [kfsActive, h.sb, h.cache_active]

/-- A call that stores the map keeps what every call keeps. -/
lemma MapStep.slotsMounted (hI : SlotsMounted fs) (h : MapStep fs fs' slot_id c in_use) :
    SlotsMounted fs' where
  active := (kfsActive_congr h).trans hI.active
  capacity := by simpa only [h.sb] using hI.capacity
  size := by simpa only [h.sb] using hI.size
  addr := by simpa only [h.sb] using hI.addr
  length_eq := by simpa only [h.sb, h.length_eq] using hI.length_eq
  magic := fun _ => h.magic.trans (hI.magic h.header)
  header_capacity := by
    intro _
    simpa only [h.sb] using h.capacity.trans (hI.header_capacity h.header)
  tail := by
    intro k hk
    have hk' : fs.sb.sb_slot_table.capacity ≤ k := by simpa only [h.sb] using hk
    rcases h.bits with ⟨-, hsame⟩ | ⟨hlt, hrange⟩
    · rw [hsame]
      exact hI.tail k hk'
    · -- the bit that changes lies below the capacity
      rw [hrange.bit, if_neg (by omega)]
      exact hI.tail k hk'
  table := by simpa only [h.sb] using hI.table

lemma SlotsMounted.card_lt (hI : SlotsMounted fs) : (usedSlots fs).card < 2 ^ 32 := by
  have hle := card_onesBelow_le_length (bitmapOf (slotMap fs)) fs.sb.sb_slot_table.capacity
  have hsize := hI.size
  rw [bitmapOf, List.length_drop, hI.length_eq, ← bitmapOf] at hle
  unfold usedSlots
  unfold kfsBlocksize at hle
  omega

/-- An address beyond the capacity changes no slot. -/
lemma MapStep.usedSlots_same (h : MapStep fs fs' slot_id c in_use)
    (hout : fs.sb.sb_slot_table.capacity ≤ slot_id) : usedSlots fs' = usedSlots fs := by
  rcases h.bits with ⟨-, hsame⟩ | ⟨hlt, -⟩
  · simp only [usedSlots, h.sb, hsame]
  · omega

lemma MapStep.setRange (h : MapStep fs fs' slot_id c in_use)
    (hin : slot_id < fs.sb.sb_slot_table.capacity) :
    SetRange (bitmapOf (slotMap fs)) (bitmapOf (slotMap fs')) slot_id (slot_id + 1) c := by
  rcases h.bits with ⟨hout, -⟩ | ⟨-, hrange⟩
  · omega
  · exact hrange

lemma MapStep.usedSlots_insert (h : MapStep fs fs' slot_id true in_use)
    (hin : slot_id < fs.sb.sb_slot_table.capacity) :
    usedSlots fs' = insert slot_id (usedSlots fs) := by
  simp only [usedSlots, h.sb]
  exact (h.setRange hin).onesBelow_insert hin

lemma MapStep.usedSlots_erase (h : MapStep fs fs' slot_id false in_use)
    (hin : slot_id < fs.sb.sb_slot_table.capacity) :
    usedSlots fs' = (usedSlots fs).erase slot_id := by
  simp only [usedSlots, h.sb]
  exact (h.setRange hin).onesBelow_erase _

/-- Both counts get the value `in_use`, so they are exact when this is the number of set bits. -/
lemma MapStep.countExact_iff (hI : SlotsMounted fs) (h : MapStep fs fs' slot_id c in_use) :
    CountExact fs' ↔ in_use = (usedSlots fs').card := by
  constructor
  · intro hcount
    have hsuper := hcount.super
    rwa [h.sb] at hsuper
  · intro heq
    have hlt := (h.slotsMounted hI).card_lt
    refine ⟨by rw [h.sb]; exact heq, ?_⟩
    rw [h.count, heq, Nat.mod_eq_of_lt hlt]

/-- A call that gets memory reads the header of the map. -/
lemma length_of_reserve (hio : io.ReportSuccess) (hI : SlotsMounted fs) (hP : CountExact fs)
    (hpages : env.map_pages = true) {r : ℤ × ℕ × Fs}
    (h : kfsSlotReserve io env fs slot_id = some r) : ExtentHeader.size ≤ (slotMap fs).length := by
  have hactive : ¬ kfsActive fs ≠ 0 := fun hne => hne hI.active
  have hused : ¬ fs.sb.sb_slot_table.in_use > fs.sb.sb_slot_table.capacity := by
    have hle := card_onesBelow_le (bitmapOf (slotMap fs)) fs.sb.sb_slot_table.capacity
    rw [hP.super, usedSlots]
    omega
  by_contra hshort
  simp [kfsSlotReserve, if_neg hactive, if_neg hused, hpages, hio.extent_read,
    if_pos (Nat.lt_of_not_le hshort)] at h

lemma length_of_remove (hio : io.ReportSuccess) (hI : SlotsMounted fs)
    (hpages : env.map_pages = true) (hle : slot_id ≤ fs.sb.sb_slot_table.capacity) {r : ℤ × Fs}
    (h : kfsSlotRemove io env fs slot_id = some r) : ExtentHeader.size ≤ (slotMap fs).length := by
  have hactive : ¬ kfsActive fs ≠ 0 := fun hne => hne hI.active
  have hbeyond : ¬ slot_id > fs.sb.sb_slot_table.capacity := by omega
  by_contra hshort
  simp [kfsSlotRemove, if_neg hactive, if_neg hbeyond, hpages, hio.extent_read,
    if_pos (Nat.lt_of_not_le hshort)] at h

/-- A reservation that gets memory and leaves without a change found no clear bit, so the last
byte of the map has no bit beyond the capacity. -/
lemma stepOk_of_reserveExits (hI : SlotsMounted fs) (hP : CountExact fs)
    (hlen : ExtentHeader.size ≤ (slotMap fs).length) (hpages : env.map_pages = true)
    (h : ReserveExits env fs) : fs.sb.sb_slot_table.in_use < fs.sb.sb_slot_table.capacity ∨
      fs.sb.sb_slot_table.capacity % 8 = 0 := by
  have hle : (usedSlots fs).card ≤ fs.sb.sb_slot_table.capacity := card_onesBelow_le _ _
  have hlt := hI.card_lt
  cases h with
  | inactive h => exact absurd hI.active h
  | all_used h =>
    rw [hP.super] at h
    omega
  | no_pages h => simp [hpages] at h
  | magic h => exact absurd (hI.magic hlen) h
  | header_used h =>
    left
    -- a capacity that fits the header cannot be exceeded
    rw [hI.header_capacity hlen, hP.header] at h
    rw [hP.super]
    by_contra hfull
    rw [Nat.mod_eq_of_lt (by omega)] at h
    omega
  | no_clear_bit h =>
    right
    by_contra hmod
    have hset := h fs.sb.sb_slot_table.capacity (by omega)
    rw [hI.tail _ le_rfl] at hset
    simp at hset

/-- **A reservation and the counts.** -/
theorem reserve_countExact_iff (hio : io.ReportSuccess) (hI : SlotsMounted fs)
    (hP : CountExact fs) {rc : ℤ} {id : ℕ}
    (h : kfsSlotReserve io env fs slot_id = some (rc, id, fs')) :
    CountExact fs' ↔ StepOk fs (.reserve env slot_id) := by
  rcases reserve_cases hio h with ⟨rfl, hexits⟩ | ⟨hno, addr, haddr, rfl, hstores⟩
  · refine iff_of_true hP ?_
    intro hpages
    exact stepOk_of_reserveExits hI hP (length_of_reserve hio hI hP hpages h) hpages hexits
  · have hpages : env.map_pages = true := by
      by_contra hfalse
      exact hno (.no_pages (by simpa using hfalse))
    have hmap := hstores.mapStep hI
    have hcard := hI.card_lt
    -- the address is that of a bit of the map
    have hid : u64 addr = addr := by
      have hinside := haddr.inside
      have hsize := hI.size
      rw [bitmapOf, List.length_drop, hI.length_eq] at hinside
      unfold kfsBlocksize at hinside
      exact u64_of_lt (by omega)
    rw [hid, decide_eq_true rfl] at hmap
    rw [hmap.countExact_iff hI, hP.super]
    by_cases hin : addr < fs.sb.sb_slot_table.capacity
    · -- one slot more
      have hnew : addr ∉ usedSlots fs := by
        rw [usedSlots, mem_onesBelow, haddr.clear]
        simp
      refine iff_of_true ?_ ?_
      · rw [hmap.usedSlots_insert hin, Finset.card_insert_of_notMem hnew, u64_of_lt (by omega)]
      · intro _
        left
        rw [hP.super]
        exact card_onesBelow_lt hin haddr.clear
    · -- all slots are used, and the bit found is beyond the last of them
      have hout := Nat.le_of_not_lt hin
      refine iff_of_false ?_ ?_
      · rw [hmap.usedSlots_same hout]
        exact u64_succ_ne _
      · intro hok
        have hall : (usedSlots fs).card = fs.sb.sb_slot_table.capacity := by
          rw [usedSlots, onesBelow_eq_range fun k hk => haddr.first k (by omega),
            Finset.card_range]
        have hbyte := haddr.in_byte
        rcases hok hpages with hlt | hmod
        · rw [hP.super] at hlt
          omega
        · omega

/-- **A removal and the counts.** -/
theorem remove_countExact_iff (hio : io.ReportSuccess) (hI : SlotsMounted fs)
    (hP : CountExact fs) {rc : ℤ} (h : kfsSlotRemove io env fs slot_id = some (rc, fs')) :
    CountExact fs' ↔ StepOk fs (.remove env slot_id) := by
  rcases remove_cases hio h with ⟨rfl, hexits⟩ | ⟨hno, hstores⟩
  · refine iff_of_true hP ?_
    intro hpages hle
    have hlen := length_of_remove hio hI hpages hle h
    cases hexits with
    | inactive hexit => exact absurd hI.active hexit
    | beyond hexit => omega
    | no_pages hexit => simp [hpages] at hexit
    | magic hexit => exact absurd (hI.magic hlen) hexit
  · have hpages : env.map_pages = true := by
      by_contra hfalse
      exact hno (.no_pages (by simpa using hfalse))
    have hle : slot_id ≤ fs.sb.sb_slot_table.capacity := by
      by_contra hgt
      exact hno (.beyond (by omega))
    have hmap := hstores.mapStep hI
    have hcard := hI.card_lt
    rw [decide_eq_false (by decide)] at hmap
    rw [hmap.countExact_iff hI, hP.super]
    by_cases hused : slot_id ∈ usedSlots fs
    · have hin := (mem_onesBelow.mp hused).1
      have hpos : 1 ≤ (usedSlots fs).card := Finset.card_pos.mpr ⟨_, hused⟩
      refine iff_of_true ?_ fun _ _ => hused
      rw [hmap.usedSlots_erase hin, Finset.card_erase_of_mem hused, sub64_of_le hpos (by omega)]
    · -- counted down, and no bit was cleared
      have hsame : usedSlots fs' = usedSlots fs := by
        by_cases hin : slot_id < fs.sb.sb_slot_table.capacity
        · rw [hmap.usedSlots_erase hin, Finset.erase_eq_of_notMem hused]
        · exact hmap.usedSlots_same (Nat.le_of_not_lt hin)
      refine iff_of_false ?_ fun hok => hused (hok hpages hle)
      rw [hsame]
      exact sub64_one_ne _

/-- Every call keeps `SlotsMounted`. -/
lemma slotsMounted_step (hio : io.ReportSuccess) {op : Op} (hstep : step io fs op = some fs')
    (hI : SlotsMounted fs) : SlotsMounted fs' := by
  cases op with
  | reserve env slot_id =>
    rcases Option.map_eq_some_iff.mp hstep with ⟨⟨rc, id, fs₁⟩, hret, rfl⟩
    rcases reserve_cases hio hret with ⟨rfl, -⟩ | ⟨-, addr, -, -, hstores⟩
    · exact hI
    · exact (hstores.mapStep hI).slotsMounted hI
  | remove env slot_id =>
    rcases Option.map_eq_some_iff.mp hstep with ⟨⟨rc, fs₁⟩, hret, rfl⟩
    rcases remove_cases hio hret with ⟨rfl, -⟩ | ⟨-, hstores⟩
    · exact hI
    · exact (hstores.mapStep hI).slotsMounted hI

/-- **A call keeps the counts exact exactly when it meets the condition.** -/
theorem countExact_step_iff (hio : io.ReportSuccess) {op : Op} (hstep : step io fs op = some fs')
    (hI : SlotsMounted fs) (hP : CountExact fs) : CountExact fs' ↔ StepOk fs op := by
  cases op with
  | reserve env slot_id =>
    rcases Option.map_eq_some_iff.mp hstep with ⟨⟨rc, id, fs₁⟩, hret, rfl⟩
    exact reserve_countExact_iff hio hI hP hret
  | remove env slot_id =>
    rcases Option.map_eq_some_iff.mp hstep with ⟨⟨rc, fs₁⟩, hret, rfl⟩
    exact remove_countExact_iff hio hI hP hret

end Map

/-! ## Runs from a fresh file system -/

section Fresh

variable {bc : BlocksCalc} {sb_time sinodes_time : ℕ} {w : Written} (h : SlotLayout bc)
  (hw : buildFilesystem bc sb_time sinodes_time = some w) (now : ℕ)
include h hw

/-- A map that has the header at all is one block at least. -/
lemma one_le_of_header (hlen : ExtentHeader.size ≤ (slotMap (mounted (image w) now)).length) :
    1 ≤ bc.out_slots_bitmap_blocks_num % 2 ^ 16 := by
  rw [length_slotMap_fresh h hw] at hlen
  by_contra hzero
  have heq : bc.out_slots_bitmap_blocks_num % 2 ^ 16 = 0 := by omega
  rw [heq, Nat.mul_zero] at hlen
  exact absurd hlen (by decide)

lemma slotsMounted_fresh : SlotsMounted (mounted (image w) now) where
  active := kfsActive_fresh h hw now
  capacity := by
    rw [slot_table_fresh h hw]
    exact Nat.mod_lt _ (by decide)
  size := by
    rw [slot_table_fresh h hw]
    exact Nat.mod_lt _ (by decide)
  addr := by
    have hs := h.small
    have hslot := h.slotMapBlock_eq
    rw [slot_table_fresh h hw]
    simp only
    rw [Nat.mod_eq_of_lt (slotMapBlock_lt bc)]
    omega
  length_eq := by
    rw [length_slotMap_fresh h hw, slot_table_fresh h hw]
  magic := fun hlen => magic_slotMap_fresh h hw now (one_le_of_header h hw now hlen)
  header_capacity := by
    intro hlen
    rw [capacity_slotMap_fresh h hw now (one_le_of_header h hw now hlen), slot_table_fresh h hw]
    exact (Nat.mod_mod_of_dvd _ (by decide)).symm
  tail := fun k _ => bitAt_slotMap_fresh h hw now k
  table := by
    have hb := h.blocks_le
    have hslots := h.slots
    have hslot := h.slotMapBlock_eq
    have hle : bc.out_sinodes_table_in_blocks % 2 ^ 16 ≤ bc.out_sinodes_table_in_blocks :=
      Nat.mod_le _ _
    rw [slot_table_fresh h hw, si_table_extent_fresh h hw]
    simp only
    rw [Nat.mod_eq_of_lt (slotMapBlock_lt bc)]
    omega

/-- No slot is used, and both counts are 0. -/
lemma countExact_fresh : CountExact (mounted (image w) now) := by
  have hnone : usedSlots (mounted (image w) now) = ∅ :=
    onesBelow_eq_empty fun k _ => bitAt_slotMap_fresh h hw now k
  constructor
  · rw [hnone, slot_table_fresh h hw]
    rfl
  · rw [hnone, Finset.card_empty]
    by_cases hpos : 1 ≤ bc.out_slots_bitmap_blocks_num % 2 ^ 16
    · exact in_use_slotMap_fresh h hw now hpos
    · -- without a block of the map there is nothing to read
      have hnil : slotMap (mounted (image w) now) = [] := by
        have hzero : bc.out_slots_bitmap_blocks_num % 2 ^ 16 = 0 := by omega
        rw [← List.length_eq_zero_iff, length_slotMap_fresh h hw, hzero, Nat.mul_zero]
      rw [hnil]
      decide

end Fresh

/-- **When the counts are exact**: a run of calls from a fresh file system keeps them so exactly
when each of its calls meets `StepOk`. -/
theorem slot_count_exact_iff (bc : BlocksCalc) (h : SlotLayout bc) (sb_time sinodes_time now : ℕ)
    (w : Written) (hw : buildFilesystem bc sb_time sinodes_time = some w) (io : EioCodes)
    (hio : io.ReportSuccess) (t : List Op) :
    Throughout (step io) CountExact (mounted (image w) now) t ↔
      Along (step io) StepOk (mounted (image w) now) t :=
  throughout_iff_along (fun _ _ _ hstep hI => slotsMounted_step hio hstep hI)
    (fun _ _ _ hstep hI hP => countExact_step_iff hio hstep hI hP)
    (slotsMounted_fresh h hw now) (countExact_fresh h hw now)

/-- On the smallest file system the counts are exact after the first reservation. -/
theorem slot_count_exact_min : ∃ w, buildFilesystem minLayout 0 0 = some w ∧
    Throughout (step ⟨1, 1, 1, 1⟩) CountExact (mounted (image w) 0)
      [.reserve ⟨true, true⟩ 0] := by
  rcases exists_minImage with ⟨w, hw⟩
  refine ⟨w, hw, ?_⟩
  refine (slot_count_exact_iff minLayout minLayout_slotLayout 0 0 0 w hw ⟨1, 1, 1, 1⟩
    ⟨by decide, by decide, by decide, by decide⟩ _).mpr ?_
  intro fs' _
  refine ⟨fun _ => Or.inl ?_, trivial⟩
  rw [slot_table_fresh minLayout_slotLayout hw]
  decide

/-- Slot 0 of a fresh file system is removed, which was never reserved: the count goes below
zero. -/
theorem remove_of_free_slot_breaks_count : ∃ w fs', buildFilesystem minLayout 0 0 = some w ∧
    run (step ⟨1, 1, 1, 1⟩) (mounted (image w) 0) [.remove ⟨true, true⟩ 0] = some fs' ∧
    ¬ CountExact fs' := by
  rcases exists_minImage with ⟨w, hw⟩
  have hmap : 1 ≤ minLayout.out_slots_bitmap_blocks_num % 2 ^ 16 := by decide
  have hnum : 1 ≤ minLayout.out_slots_num % 2 ^ 64 := by decide
  have hio : EioCodes.ReportSuccess ⟨1, 1, 1, 1⟩ := ⟨by decide, by decide, by decide, by decide⟩
  have hI := slotsMounted_fresh minLayout_slotLayout hw 0
  have hlow := lowestClear_fresh minLayout_slotLayout hw 0 hmap hnum
  have hlen := size_le_length_slotMap_fresh minLayout_slotLayout hw 0 hmap
  have hno : ¬ RemoveExits ⟨true, true⟩ (mounted (image w) 0) 0 := by
    intro hexit
    cases hexit with
    | inactive hexit => exact hexit hI.active
    | beyond hexit => omega
    | no_pages hexit => simp at hexit
    | magic hexit => exact hexit (hI.magic (by omega))
  -- the bit is cleared once more
  obtain ⟨p, hp⟩ := exists_onBitmap_fresh minLayout_slotLayout hw 0 hmap hnum 0
  have heq := kfsSlotRemove_eq hio hno (by omega) hp
  generalize sub64 (mounted (image w) 0).sb.sb_slot_table.in_use 1 = in_use at heq
  rcases updateSlot_fresh minLayout_slotLayout minLayout_inRange
    (minLayout_inRange.regions_apart (by decide)) hw 0 p in_use ⟨1, 1, 1, 1⟩ ⟨true, true⟩
    (fun _ => 0) (show slotPlace 0 + Slot.size ≤ kfsBlocksize by decide) with ⟨fs', hupdate⟩
  have hret := heq.trans hupdate
  refine ⟨w, fs', hw, by simp [run, step, hret], ?_⟩
  rw [remove_countExact_iff hio hI (countExact_fresh minLayout_slotLayout hw 0) hret]
  intro hok
  have hused := hok rfl (Nat.zero_le _)
  rw [usedSlots, mem_onesBelow, hlow.clear] at hused
  simp at hused

end KanekFs.Slots
