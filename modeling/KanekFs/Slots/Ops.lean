import KanekFs.Map.Find
import KanekFs.Mkfs.Run
import KanekFs.Super.Mount

/-!
# Reserving and removing slots

`kfs_slot_reserve` and `kfs_slot_remove` of `kfs_slot.c`. Both read the slot map, change one bit
and the count in it, write it back, and then update the record of the slot and a header in the
super inode table: `updateSlot` is this second part, which differs in the new flags only.

The routines of `eio.c` transfer everything here; what they return is a parameter, since
`kfs_slot.c` takes a zero for a failure. A call that touches memory outside its pages has no
result.

* `reserve_cases` and `remove_cases` say all that a call can do: it leaves before anything is
  changed (`ReserveExits`, `RemoveExits`), or it stores the map and goes on to the record.
* `updateSlot_frame` says what the second part leaves alone.
-/

namespace KanekFs.Slots

open Bytes Word Map Mkfs Super

/-! ## Definitions -/

def slotInUse : ℕ := 0x0100

/-- What the routines of `eio.c` return after a complete transfer. -/
structure EioCodes where
  block_read : ℤ
  block_write : ℤ
  extent_read : ℤ
  extent_write : ℤ

/-- The codes of `eio.c`. -/
def eio : EioCodes := ⟨0, 0, 0, 0⟩

/-- Success is reported as `kfs_slot.c` tests it. -/
structure EioCodes.ReportSuccess (io : EioCodes) : Prop where
  block_read : io.block_read ≠ 0
  block_write : io.block_write ≠ 0
  extent_read : io.extent_read ≠ 0
  extent_write : io.extent_write ≠ 0

/-- Which of the two calls of `pages_alloc` give memory. -/
structure Env where
  map_pages : Bool
  table_page : Bool

/-- The slot map as it stands on the device: a header and the bitmap behind it. -/
def slotMap (fs : Fs) : List Byte :=
  let ex := fs.sb.sb_slot_table.bitmap_extent
  (extentRead fs.disk ex.ex_block_addr (toInt32 ex.ex_block_size)).flatten

/-- The new count goes into `__sb` and into the header of the map, and the map is written. -/
def storeSlotMap (fs : Fs) (p : List Byte) (in_use : ℕ) : Fs :=
  let ex := fs.sb.sb_slot_table.bitmap_extent
  let n := toInt32 ex.ex_block_size
  let p := ExtentHeader.eh_entries_in_use.put p in_use
  { fs with
    sb := { fs.sb with sb_slot_table := { fs.sb.sb_slot_table with in_use := in_use } }
    disk := extentWrite fs.disk (cutBlocks p (intBlocks n)) ex.ex_block_addr n }

/-- The block in which the record of a slot is looked for, if it is in range: a block of the
super inode table. -/
def slotBlock (sb : Sb) (slot_id : ℕ) : Option ℕ :=
  let ex := sb.sb_si_table.table_extent
  let slot_block := u64 (slot_id * slotsPerBlock)
  if slot_block > ex.ex_block_size then none else some (u64 (slot_block + ex.ex_block_addr))

/-- The byte at which the record of a slot is looked for. The pointer is advanced in records, in
the first block by `sizeof( kfs_extent_t)` of them. -/
def slotPlace (slot_id : ℕ) : ℕ :=
  let slot_offset := if u64 (slot_id * slotsPerBlock) = 0 then Extent.size else 0
  Slot.size * (slot_id % kfsBlocksize + slot_offset)

/-- The count goes into the header of the super inode table, if that has the magic of a slot
table. -/
def updateIndex (io : EioCodes) (fs : Fs) : ℤ × Fs :=
  let addr := fs.sb.sb_si_table.table_extent.ex_block_addr
  if io.block_read = 0 then (-1, fs)
  else
    let p := blockRead fs.disk addr
    if ExtentHeader.eh_magic.get p ≠ kfsSlotsTableMagic then (-1, fs)
    else
      let p := ExtentHeader.eh_entries_in_use.put p fs.sb.sb_slot_table.in_use
      let fs := { fs with disk := blockWrite fs.disk p addr }
      if io.block_write = 0 then (-1, fs) else (0, fs)

/-- The second part of both functions: the record of the slot gets the flags `flags`. -/
def updateSlot (io : EioCodes) (env : Env) (fs : Fs) (slot_id : ℕ) (flags : ℕ → ℕ) :
    Option (ℤ × Fs) :=
  match slotBlock fs.sb slot_id with
  | none => some (-1, fs)
  | some slot_block =>
    if env.table_page = false then some (-1, fs)
    else if io.block_read = 0 then some (-1, fs)
    else
      let p := blockRead fs.disk slot_block
      let kslot := slotPlace slot_id
      -- the record is not inside the page
      if kslot + Slot.size > kfsBlocksize then none
      -- the record of the slot itself is the one that is refused
      else if (Slot.slot_id.shift kslot).get p = slot_id then some (-1, fs)
      else
        let slot_flags := Slot.slot_flags.shift kslot
        let p := slot_flags.put p (flags (slot_flags.get p))
        let fs := { fs with disk := blockWrite fs.disk p slot_block }
        if io.block_write = 0 then some (-1, fs) else some (updateIndex io fs)

/-- `kfs_slot_reserve`: the code, what `*slot_id` holds, and the file system. -/
def kfsSlotReserve (io : EioCodes) (env : Env) (fs : Fs) (slot_id : ℕ) : Option (ℤ × ℕ × Fs) :=
  let slot_table := fs.sb.sb_slot_table
  if kfsActive fs ≠ 0 then some (-1, slot_id, fs)
  else if slot_table.in_use > slot_table.capacity then some (-1, slot_id, fs)
  else if env.map_pages = false then some (-1, slot_id, fs)
  else if io.extent_read = 0 then some (-1, slot_id, fs)
  else
    let p := slotMap fs
    if p.length < ExtentHeader.size then none
    else if ExtentHeader.eh_magic.get p ≠ kfsSlotsBitmapMagic then some (-1, slot_id, fs)
    else if ExtentHeader.eh_entries_in_use.get p > ExtentHeader.eh_entries_capacity.get p then
      some (-1, slot_id, fs)
    else do
      let (rc, slot_id) ← bmFind (bitmapOf p) slot_table.capacity 0 slot_table.capacity 1 slot_id
      if rc ≠ 0 then some (-1, slot_id, fs)
      else do
        -- the code that `bm_set_bit` returns is not looked at
        let p ← onBitmap p fun bitmap => bmSetBit bitmap slot_table.capacity slot_id 1
        let fs := storeSlotMap fs p (u64 (slot_table.in_use + 1))
        if io.extent_write = 0 then some (-1, slot_id, fs)
        else do
          let (rc, fs) ← updateSlot io env fs slot_id (· ||| slotInUse)
          some (rc, slot_id, fs)

/-- `kfs_slot_remove`. -/
def kfsSlotRemove (io : EioCodes) (env : Env) (fs : Fs) (slot_id : ℕ) : Option (ℤ × Fs) :=
  let slot_table := fs.sb.sb_slot_table
  if kfsActive fs ≠ 0 then some (-1, fs)
  else if slot_id > slot_table.capacity then some (-1, fs)
  else if env.map_pages = false then some (-1, fs)
  else if io.extent_read = 0 then some (-1, fs)
  else
    let p := slotMap fs
    if p.length < ExtentHeader.size then none
    else if ExtentHeader.eh_magic.get p ≠ kfsSlotsBitmapMagic then some (-1, fs)
    else do
      -- counted down whether or not there was a bit to clear
      let p ← onBitmap p fun bitmap => bmSetBit bitmap slot_table.capacity slot_id 0
      let fs := storeSlotMap fs p (sub64 slot_table.in_use 1)
      if io.extent_write = 0 then some (-1, fs)
      else updateSlot io env fs slot_id (fun _ => 0)

/-! ## The record of a slot -/

/-- The blocks of the super inode table, and the one behind them. -/
def InTable (sb : Sb) (b : ℕ) : Prop :=
  ∃ k ≤ sb.sb_si_table.table_extent.ex_block_size,
    b = blockIndex (u64 (k + sb.sb_si_table.table_extent.ex_block_addr))

/-- What the second part leaves alone: `__sb`, and the blocks outside the super inode table. -/
structure SameOutside (fs fs' : Fs) : Prop where
  sb : fs'.sb = fs.sb
  cache_active : fs'.cache_active = fs.cache_active
  disk : ∀ b, ¬ InTable fs.sb b → fs'.disk b = fs.disk b

section Frame

variable {io : EioCodes} {env : Env} {fs fs' fs'' : Fs} {slot_id rc : ℕ}

lemma SameOutside.refl (fs : Fs) : SameOutside fs fs := ⟨rfl, rfl, fun _ _ => rfl⟩

lemma SameOutside.trans (h : SameOutside fs fs') (h' : SameOutside fs' fs'') :
    SameOutside fs fs'' where
  sb := h'.sb.trans h.sb
  cache_active := h'.cache_active.trans h.cache_active
  disk := by
    intro b hb
    rw [h'.disk b (by rwa [h.sb]), h.disk b hb]

lemma sameOutside_blockWrite (fs : Fs) (p : List Byte) {addr : ℕ}
    (haddr : InTable fs.sb (blockIndex addr)) :
    SameOutside fs { fs with disk := blockWrite fs.disk p addr } where
  sb := rfl
  cache_active := rfl
  disk := by
    intro b hb
    have hne : b ≠ blockIndex addr := fun h => hb (h ▸ haddr)
    simp only [blockWrite, Function.update_of_ne hne]

lemma inTable_of_slotBlock {sb : Sb} {b : ℕ} (h : slotBlock sb slot_id = some b) :
    InTable sb (blockIndex b) := by
  unfold slotBlock at h
  simp only at h
  split at h
  · simp at h
  · refine ⟨u64 (slot_id * slotsPerBlock), by omega, ?_⟩
    rw [← Option.some.inj h]

lemma updateIndex_frame (io : EioCodes) (fs : Fs) : SameOutside fs (updateIndex io fs).2 := by
  have hfirst : InTable fs.sb (blockIndex fs.sb.sb_si_table.table_extent.ex_block_addr) :=
    ⟨0, Nat.zero_le _, by rw [Nat.zero_add, blockIndex_u64]⟩
  unfold updateIndex
  simp only
  split
  · exact SameOutside.refl fs
  · split
    · exact SameOutside.refl fs
    · -- the header is written back, whatever the code
      split <;> exact sameOutside_blockWrite fs _ hfirst

/-- **The frame of the second part.** -/
theorem updateSlot_frame {flags : ℕ → ℕ} {rc : ℤ}
    (h : updateSlot io env fs slot_id flags = some (rc, fs')) : SameOutside fs fs' := by
  -- an exit before the record is written
  have hexit : ∀ {c : ℤ}, some (c, fs) = some (rc, fs') → SameOutside fs fs' := by
    intro c he
    rw [Option.some.injEq, Prod.mk.injEq] at he
    exact he.2 ▸ SameOutside.refl fs
  unfold updateSlot at h
  cases hblock : slotBlock fs.sb slot_id with
  | none =>
    simp only [hblock] at h
    exact hexit h
  | some b =>
    have hin := inTable_of_slotBlock hblock
    simp only [hblock] at h
    split at h
    · exact hexit h
    split at h
    · exact hexit h
    split at h
    · simp at h
    split at h
    · exact hexit h
    split at h
    · rw [Option.some.injEq, Prod.mk.injEq] at h
      exact h.2 ▸ sameOutside_blockWrite fs _ hin
    · -- the record is written, then the index
      have hwrite := sameOutside_blockWrite fs ((Slot.slot_flags.shift (slotPlace slot_id)).put
        (blockRead fs.disk b) (flags ((Slot.slot_flags.shift (slotPlace slot_id)).get
          (blockRead fs.disk b)))) hin
      rw [Option.some.injEq] at h
      have hindex := hwrite.trans (updateIndex_frame io _)
      rwa [h] at hindex

end Frame

/-! ## What a call can do -/

/-- The exits of `kfs_slot_reserve` before anything is changed. -/
inductive ReserveExits (env : Env) (fs : Fs) : Prop
  | inactive (h : kfsActive fs ≠ 0)
  | all_used (h : fs.sb.sb_slot_table.capacity < fs.sb.sb_slot_table.in_use)
  | no_pages (h : env.map_pages = false)
  | magic (h : ExtentHeader.eh_magic.get (slotMap fs) ≠ kfsSlotsBitmapMagic)
  | header_used (h : ExtentHeader.eh_entries_capacity.get (slotMap fs) <
      ExtentHeader.eh_entries_in_use.get (slotMap fs))
  | no_clear_bit (h : ∀ k, 8 * (k / 8) < fs.sb.sb_slot_table.capacity →
      bitAt (bitmapOf (slotMap fs)) k = true)

/-- The exits of `kfs_slot_remove` before anything is changed. -/
inductive RemoveExits (env : Env) (fs : Fs) (slot_id : ℕ) : Prop
  | inactive (h : kfsActive fs ≠ 0)
  | beyond (h : fs.sb.sb_slot_table.capacity < slot_id)
  | no_pages (h : env.map_pages = false)
  | magic (h : ExtentHeader.eh_magic.get (slotMap fs) ≠ kfsSlotsBitmapMagic)

/-- `addr` is the lowest clear bit of the slot map, in a byte that has a bit of the map. -/
structure LowestClear (fs : Fs) (addr : ℕ) : Prop where
  in_byte : 8 * (addr / 8) < fs.sb.sb_slot_table.capacity
  inside : addr < 8 * (bitmapOf (slotMap fs)).length
  clear : bitAt (bitmapOf (slotMap fs)) addr = false
  first : ∀ k < addr, bitAt (bitmapOf (slotMap fs)) k = true

/-- The call changes the bit `slot_id` of the map to `clear_or_set`, stores the map with the
count `in_use`, and goes on to the record of the slot, which gets the flags `flags`. -/
def Stores (io : EioCodes) (env : Env) (fs : Fs) (slot_id : ℕ) (clear_or_set : ℤ) (in_use : ℕ)
    (flags : ℕ → ℕ) (rc : ℤ) (fs' : Fs) : Prop :=
  ∃ p, ExtentHeader.size ≤ (slotMap fs).length ∧
    onBitmap (slotMap fs)
      (fun bitmap => bmSetBit bitmap fs.sb.sb_slot_table.capacity slot_id clear_or_set) = some p ∧
    updateSlot io env (storeSlotMap fs p in_use) slot_id flags = some (rc, fs')

section Cases

variable {io : EioCodes} {env : Env} {fs fs' : Fs} {slot_id id : ℕ} {rc : ℤ}

/-- **All that `kfs_slot_reserve` can do** with routines that report success: leave everything as
it is, or reserve the lowest clear bit. -/
theorem reserve_cases (hio : io.ReportSuccess)
    (h : kfsSlotReserve io env fs slot_id = some (rc, id, fs')) :
    (fs' = fs ∧ ReserveExits env fs) ∨
      ¬ ReserveExits env fs ∧ ∃ addr, LowestClear fs addr ∧ id = u64 addr ∧
        Stores io env fs id 1 (u64 (fs.sb.sb_slot_table.in_use + 1)) (· ||| slotInUse) rc fs' := by
  unfold kfsSlotReserve at h
  simp only [if_neg hio.extent_read, if_neg hio.extent_write] at h
  -- an exit returns the file system it was given
  have hexit : ∀ {c : ℤ} {i : ℕ}, some (c, i, fs) = some (rc, id, fs') → fs' = fs := by
    intro c i he
    simp only [Option.some.injEq, Prod.mk.injEq] at he
    exact he.2.2.symm
  split at h
  · exact Or.inl ⟨hexit h, .inactive ‹_›⟩
  rename_i hactive
  split at h
  · exact Or.inl ⟨hexit h, .all_used ‹_›⟩
  rename_i hused
  split at h
  · exact Or.inl ⟨hexit h, .no_pages ‹_›⟩
  rename_i hpages
  split at h
  · simp at h
  rename_i hlen
  split at h
  · exact Or.inl ⟨hexit h, .magic ‹_›⟩
  rename_i hmagic
  split at h
  · exact Or.inl ⟨hexit h, .header_used ‹_›⟩
  rename_i hheader
  have hfind := bmFind_one_all (bitmapOf (slotMap fs)) fs.sb.sb_slot_table.capacity slot_id
  generalize bmFind _ _ _ _ _ _ = r at h hfind
  cases hfind with
  | outside hout hall => simp at h
  | full hall =>
    exact Or.inl ⟨hexit (by simpa using h), .no_clear_bit fun k => hall k (Nat.zero_le k)⟩
  | found addr _ hin hinside hclear hfirst =>
    right
    -- none of the exits was taken, and the search has found a clear bit
    refine ⟨?_, addr, ⟨hin, hinside, hclear, fun k => hfirst k (Nat.zero_le k)⟩, ?_⟩
    · intro hex
      cases hex with
      | inactive hex => exact hactive hex
      | all_used hex => exact hused hex
      | no_pages hex => exact hpages hex
      | magic hex => exact hmagic hex
      | header_used hex => exact hheader hex
      | no_clear_bit hex => simp [hex addr hin] at hclear
    · simp only [Option.bind_eq_bind, Option.bind_some, ne_eq, not_true_eq_false, if_false,
        Option.bind_eq_some_iff, Option.some.injEq, Prod.mk.injEq] at h
      rcases h with ⟨p, hp, ⟨rc', fs₁⟩, hupdate, rfl, rfl, rfl⟩
      exact ⟨rfl, p, by omega, hp, hupdate⟩

/-- **All that `kfs_slot_remove` can do** with routines that report success. -/
theorem remove_cases (hio : io.ReportSuccess)
    (h : kfsSlotRemove io env fs slot_id = some (rc, fs')) :
    (fs' = fs ∧ RemoveExits env fs slot_id) ∨
      ¬ RemoveExits env fs slot_id ∧
        Stores io env fs slot_id 0 (sub64 fs.sb.sb_slot_table.in_use 1) (fun _ => 0) rc fs' := by
  unfold kfsSlotRemove at h
  simp only [if_neg hio.extent_read, if_neg hio.extent_write] at h
  have hexit : ∀ {c : ℤ}, some (c, fs) = some (rc, fs') → fs' = fs := by
    intro c he
    simp only [Option.some.injEq, Prod.mk.injEq] at he
    exact he.2.symm
  split at h
  · exact Or.inl ⟨hexit h, .inactive ‹_›⟩
  rename_i hactive
  split at h
  · exact Or.inl ⟨hexit h, .beyond ‹_›⟩
  rename_i hbeyond
  split at h
  · exact Or.inl ⟨hexit h, .no_pages ‹_›⟩
  rename_i hpages
  split at h
  · simp at h
  rename_i hlen
  split at h
  · exact Or.inl ⟨hexit h, .magic ‹_›⟩
  rename_i hmagic
  right
  constructor
  · intro hex
    cases hex with
    | inactive hex => exact hactive hex
    | beyond hex => exact hbeyond hex
    | no_pages hex => exact hpages hex
    | magic hex => exact hmagic hex
  · simp only [Option.bind_eq_bind, Option.bind_eq_some_iff] at h
    rcases h with ⟨p, hp, hupdate⟩
    exact ⟨p, by omega, hp, hupdate⟩

/-- `__sb` changes in the count only. -/
lemma Stores.sb {c : ℤ} {in_use : ℕ} {flags : ℕ → ℕ}
    (h : Stores io env fs slot_id c in_use flags rc fs') :
    fs'.sb = { fs.sb with sb_slot_table := { fs.sb.sb_slot_table with in_use := in_use } } := by
  rcases h with ⟨p, -, -, hupdate⟩
  exact (updateSlot_frame hupdate).sb

/-- A call that takes none of the exits goes on to the record of the lowest clear bit. -/
theorem kfsSlotReserve_eq (hio : io.ReportSuccess) {addr : ℕ} {p : List Byte} (slot_id : ℕ)
    (hno : ¬ ReserveExits env fs) (hlen : ExtentHeader.size ≤ (slotMap fs).length)
    (haddr : LowestClear fs addr)
    (hp : onBitmap (slotMap fs)
      (fun bitmap => bmSetBit bitmap fs.sb.sb_slot_table.capacity (u64 addr) 1) = some p) :
    kfsSlotReserve io env fs slot_id =
      (updateSlot io env (storeSlotMap fs p (u64 (fs.sb.sb_slot_table.in_use + 1))) (u64 addr)
        (· ||| slotInUse)).map fun r => (r.1, u64 addr, r.2) := by
  have hfind : bmFind (bitmapOf (slotMap fs)) fs.sb.sb_slot_table.capacity 0
      fs.sb.sb_slot_table.capacity 1 slot_id = some (0, u64 addr) := by
    have hone := bmFind_one_all (bitmapOf (slotMap fs)) fs.sb.sb_slot_table.capacity slot_id
    have hfree := haddr.clear
    generalize bmFind _ _ _ _ _ _ = r at hone
    cases hone with
    | found addr' _ hin hinside hclear hfirst =>
      -- there is one lowest clear bit
      rcases Nat.lt_trichotomy addr addr' with hlt | rfl | hlt
      · simp [hfirst addr (Nat.zero_le addr) hlt] at hfree
      · rfl
      · simp [haddr.first addr' hlt] at hclear
    | full hall =>
      exact absurd (ReserveExits.no_clear_bit fun k => hall k (Nat.zero_le k)) hno
    | outside hout hall => simp [hall addr (Nat.zero_le addr) haddr.inside] at hfree
  have hactive : ¬ kfsActive fs ≠ 0 := fun he => hno (.inactive he)
  have hused : ¬ fs.sb.sb_slot_table.in_use > fs.sb.sb_slot_table.capacity :=
    fun he => hno (.all_used he)
  have hpages : ¬ env.map_pages = false := fun he => hno (.no_pages he)
  have hmagic : ¬ ExtentHeader.eh_magic.get (slotMap fs) ≠ kfsSlotsBitmapMagic :=
    fun he => hno (.magic he)
  have hheader : ¬ ExtentHeader.eh_entries_in_use.get (slotMap fs) >
      ExtentHeader.eh_entries_capacity.get (slotMap fs) := fun he => hno (.header_used he)
  have hshort : ¬ (slotMap fs).length < ExtentHeader.size := by omega
  simp only [kfsSlotReserve, if_neg hactive, if_neg hused, if_neg hpages, if_neg hio.extent_read,
    if_neg hshort, if_neg hmagic, if_neg hheader, hfind, hp, if_neg hio.extent_write,
    Option.bind_eq_bind, Option.bind_some, ne_eq, not_true_eq_false, if_false]
  cases updateSlot io env _ (u64 addr) _ <;> rfl

theorem kfsSlotRemove_eq (hio : io.ReportSuccess) {p : List Byte}
    (hno : ¬ RemoveExits env fs slot_id) (hlen : ExtentHeader.size ≤ (slotMap fs).length)
    (hp : onBitmap (slotMap fs)
      (fun bitmap => bmSetBit bitmap fs.sb.sb_slot_table.capacity slot_id 0) = some p) :
    kfsSlotRemove io env fs slot_id =
      updateSlot io env (storeSlotMap fs p (sub64 fs.sb.sb_slot_table.in_use 1)) slot_id
        (fun _ => 0) := by
  have hactive : ¬ kfsActive fs ≠ 0 := fun he => hno (.inactive he)
  have hbeyond : ¬ slot_id > fs.sb.sb_slot_table.capacity := fun he => hno (.beyond he)
  have hpages : ¬ env.map_pages = false := fun he => hno (.no_pages he)
  have hmagic : ¬ ExtentHeader.eh_magic.get (slotMap fs) ≠ kfsSlotsBitmapMagic :=
    fun he => hno (.magic he)
  have hshort : ¬ (slotMap fs).length < ExtentHeader.size := by omega
  simp only [kfsSlotRemove, if_neg hactive, if_neg hbeyond, if_neg hpages, if_neg hio.extent_read,
    if_neg hshort, if_neg hmagic, hp, if_neg hio.extent_write, Option.bind_eq_bind,
    Option.bind_some]

end Cases

end KanekFs.Slots
