import KanekFs.Mkfs.Run
import KanekFs.Super.Codec

/-!
# The checker accepts what mkfs writes

`kfs_verify` of `kfs_super.c` on the image that the builders leave.

* `get_putIds` and `exists_mem_tableBlocks` describe the records of a table: the ids run on
  from block to block, so the last record of the last block holds the number of records
  minus one, although the first block is shaped differently.
* `get_image` reads a field of a block that the run writes: no later builder overwrites it.
* `kfsVerify_eq_zero_iff`: what `kfs_verify` accepts is what passes all its checks.
* `kfsVerify_image`: the image does.
-/

namespace KanekFs.Super

open Bytes Word Mkfs

/-! ## Definitions -/

/-- What `kfs_verify` gets from the system. -/
structure VerifyEnv where
  stat_rc : ℤ
  is_reg : Bool
  is_blk : Bool
  malloc_p : Bool
  fd : ℤ
  malloc_pex : Bool
  /-- `localtime` makes a date of a time, and `strftime` a text of fewer than 20 characters of the
  date. -/
  dated : ℕ → Bool

/-- The magic of the extent at block `addr`. -/
def extentMagic (d : Disk) (addr : ℕ) : ℕ := ExtentHeader.eh_magic.get (blockRead d addr)

/-- The id in the last record of the last block of a table. The records of a block are counted
without its header. -/
def lastId (d : Disk) (id : CField) (size : ℕ) (table_extent : Ex) : ℕ :=
  let addr := sub64 (u64 (table_extent.ex_block_addr + table_extent.ex_block_size)) 1
  (id.shift (size * (kfsBlocksize / size - 1))).get (blockRead d addr)

/-- The part of `kfs_verify` behind `extra_verification`. -/
def verifyExtents (d : Disk) (sb : List Byte) : ℤ :=
  let si_table := kfstableToTable sb Superblock.sb_si_table
  let slot_table := kfstableToTable sb Superblock.sb_slot_table
  let blockmap := kfstableToTable sb Superblock.sb_blockmap
  if extentMagic d si_table.table_extent.ex_block_addr ≠ kfsSinodeTableMagic then -1
  else if lastId d Sinode.si_id Sinode.size si_table.table_extent ≠ sub64 si_table.capacity 1 then
    -1
  else if extentMagic d slot_table.table_extent.ex_block_addr ≠ kfsSlotsTableMagic then -1
  else if lastId d Slot.slot_id Slot.size slot_table.table_extent ≠ sub64 slot_table.capacity 1 then
    -1
  else if extentMagic d si_table.bitmap_extent.ex_block_addr ≠ kfsSinodeBitmapMagic then -1
  else if extentMagic d slot_table.bitmap_extent.ex_block_addr ≠ kfsSlotsBitmapMagic then -1
  else if extentMagic d blockmap.bitmap_extent.ex_block_addr ≠ kfsBlockmapMagic then -1
  else 0

/-- The times of a superblock can be printed. -/
def VerifyEnv.prints (env : VerifyEnv) (sb : List Byte) : Bool :=
  [Superblock.sb_c_time, Superblock.sb_a_time, Superblock.sb_m_time].all fun f =>
    env.dated (f.get sb)

/-- `kfs_verify`. With `verbose` it prints the superblock, and has no result where one of the times
cannot be printed; what it prints later is left out. -/
def kfsVerify (env : VerifyEnv) (d : Disk) (verbose extra_verification : ℤ) : Option ℤ :=
  if env.stat_rc ≠ 0 then some (-1)
  else if env.is_reg = false ∧ env.is_blk = false then some (-1)
  else if env.malloc_p = false then some (-1)
  else if env.fd < 0 then some (-1)
  else
    let sb := blockRead d 0
    if Superblock.sb_magic.get sb ≠ kfsMagic then some (-1)
    -- `strftime` of what `localtime` returns
    else if verbose ≠ 0 ∧ env.prints sb = false then none
    else if extra_verification = 0 then some 0
    else if env.malloc_pex = false then some (-1)
    else some (verifyExtents d sb)

/-! ## What is accepted -/

/-- The extents that the superblock `sb` describes are what they should be. -/
structure ExtentsOk (d : Disk) (sb : List Byte) : Prop where
  sinode_table : extentMagic d
    (kfstableToTable sb Superblock.sb_si_table).table_extent.ex_block_addr = kfsSinodeTableMagic
  last_sinode : lastId d Sinode.si_id Sinode.size
    (kfstableToTable sb Superblock.sb_si_table).table_extent =
      sub64 (kfstableToTable sb Superblock.sb_si_table).capacity 1
  slot_table : extentMagic d
    (kfstableToTable sb Superblock.sb_slot_table).table_extent.ex_block_addr = kfsSlotsTableMagic
  last_slot : lastId d Slot.slot_id Slot.size
    (kfstableToTable sb Superblock.sb_slot_table).table_extent =
      sub64 (kfstableToTable sb Superblock.sb_slot_table).capacity 1
  sinode_map : extentMagic d
    (kfstableToTable sb Superblock.sb_si_table).bitmap_extent.ex_block_addr = kfsSinodeBitmapMagic
  slot_map : extentMagic d
    (kfstableToTable sb Superblock.sb_slot_table).bitmap_extent.ex_block_addr = kfsSlotsBitmapMagic
  block_map : extentMagic d
    (kfstableToTable sb Superblock.sb_blockmap).bitmap_extent.ex_block_addr = kfsBlockmapMagic

/-- The calls up to `open` succeed, on a regular file or a block device. -/
structure VerifyEnv.Opens (env : VerifyEnv) : Prop where
  stat : env.stat_rc = 0
  type : env.is_reg = true ∨ env.is_blk = true
  malloc : env.malloc_p = true
  fd : 0 ≤ env.fd

section Accepted

variable {env : VerifyEnv} {d : Disk} {sb : List Byte} {verbose extra_verification : ℤ}

lemma verifyExtents_eq_zero_iff : verifyExtents d sb = 0 ↔ ExtentsOk d sb := by
  constructor
  · intro h
    simp only [verifyExtents] at h
    split_ifs at h with h₁ h₂ h₃ h₄ h₅ h₆ h₇
    exact ⟨not_not.mp h₁, not_not.mp h₂, not_not.mp h₃, not_not.mp h₄, not_not.mp h₅,
      not_not.mp h₆, not_not.mp h₇⟩
  · intro h
    simp only [verifyExtents, h.sinode_table, h.last_sinode, h.slot_table, h.last_slot,
      h.sinode_map, h.slot_map, h.block_map, ne_eq, not_true_eq_false, if_false]

/-- Once the device is open, the magic, the printing and the extents decide. -/
lemma kfsVerify_of_opens (h : env.Opens) : kfsVerify env d verbose extra_verification =
    if Superblock.sb_magic.get (blockRead d 0) ≠ kfsMagic then some (-1)
    else if verbose ≠ 0 ∧ env.prints (blockRead d 0) = false then none
    else if extra_verification = 0 then some 0
    else if env.malloc_pex = false then some (-1)
    else some (verifyExtents d (blockRead d 0)) := by
  have htype : ¬ (env.is_reg = false ∧ env.is_blk = false) := by
    rintro ⟨hreg, hblk⟩
    simpa [hreg, hblk] using h.type
  rw [kfsVerify, if_neg (not_not.mpr h.stat), if_neg htype, if_neg (by simp [h.malloc]),
    if_neg (not_lt.mpr h.fd)]

lemma kfsVerify_of_not_opens (h : ¬ env.Opens) :
    kfsVerify env d verbose extra_verification = some (-1) := by
  unfold kfsVerify
  split_ifs with hstat htype hmalloc hfd <;> try rfl
  all_goals
    refine absurd ⟨not_not.mp hstat, ?_, by simpa using hmalloc, not_lt.mp hfd⟩ h
    by_contra hnone
    exact htype (by simpa using hnone)

/-- **What `kfs_verify` accepts**: it returns 0 exactly when the device can be opened and read, the
superblock has the magic and can be printed where it is to be, and every table and map, where they
are looked at, has its magic, and the last record of each table the id of a full table. -/
theorem kfsVerify_eq_zero_iff : kfsVerify env d verbose extra_verification = some 0 ↔
    env.Opens ∧ Superblock.sb_magic.get (blockRead d 0) = kfsMagic ∧
      (verbose = 0 ∨ env.prints (blockRead d 0) = true) ∧
      (extra_verification = 0 ∨ env.malloc_pex = true ∧ ExtentsOk d (blockRead d 0)) := by
  by_cases hopens : env.Opens
  swap
  · simp [kfsVerify_of_not_opens hopens, hopens]
  rw [kfsVerify_of_opens hopens, ← verifyExtents_eq_zero_iff]
  constructor
  · intro h
    split_ifs at h with hmagic hprints hextra hpex
    · simp at h
    · exact ⟨hopens, not_not.mp hmagic, by simpa [or_iff_not_imp_left] using hprints, .inl hextra⟩
    · simp at h
    · exact ⟨hopens, not_not.mp hmagic, by simpa [or_iff_not_imp_left] using hprints,
        .inr ⟨by simpa using hpex, Option.some.inj h⟩⟩
  · rintro ⟨-, hmagic, hprints, hextra⟩
    rw [if_neg (not_not.mpr hmagic), if_neg (by simpa [or_iff_not_imp_left] using hprints)]
    rcases hextra with hextra | ⟨hpex, hextents⟩
    · rw [if_pos hextra]
    · split_ifs with hextra hmalloc
      · rfl
      · simp [hpex] at hmalloc
      · rw [hextents]

/-- With `verbose` it returns the same, or nothing. -/
lemma kfsVerify_verbose {rc : ℤ}
    (h : kfsVerify env d verbose extra_verification = some rc) :
    kfsVerify env d 0 extra_verification = some rc := by
  by_cases hopens : env.Opens
  · rw [kfsVerify_of_opens hopens] at h ⊢
    by_cases hprints : verbose ≠ 0 ∧ env.prints (blockRead d 0) = false
    · rw [if_pos hprints] at h
      split_ifs at h ⊢ with hmagic
      exact h
    · rw [if_neg hprints] at h
      rwa [if_neg (fun h : (0 : ℤ) ≠ 0 ∧ _ => h.1 rfl)]
  · rwa [kfsVerify_of_not_opens hopens] at h ⊢

/-- Where the times can be printed, `verbose` makes no difference. -/
lemma kfsVerify_prints (h : verbose = 0 ∨ env.prints (blockRead d 0) = true) :
    kfsVerify env d verbose extra_verification = kfsVerify env d 0 extra_verification := by
  have hprints : ¬ (verbose ≠ 0 ∧ env.prints (blockRead d 0) = false) := by
    simpa [or_iff_not_imp_left] using h
  by_cases hopens : env.Opens
  · rw [kfsVerify_of_opens hopens, kfsVerify_of_opens hopens, if_neg hprints,
      if_neg (fun h : (0 : ℤ) ≠ 0 ∧ _ => h.1 rfl)]
  · rw [kfsVerify_of_not_opens hopens, kfsVerify_of_not_opens hopens]

/-- Without `verbose` there is always a result. -/
lemma exists_kfsVerify (env : VerifyEnv) (d : Disk) (extra_verification : ℤ) :
    ∃ rc, kfsVerify env d 0 extra_verification = some rc := by
  by_cases hopens : env.Opens
  · rw [kfsVerify_of_opens hopens]
    split_ifs with hmagic hprints
    all_goals first | exact ⟨_, rfl⟩ | exact absurd rfl hprints.1
  · exact ⟨-1, kfsVerify_of_not_opens hopens⟩

end Accepted

/-! ## The records of a table -/

section Records

variable {id : CField} {size : ℕ}

@[simp] lemma length_putIds (n : ℕ) (p : List Byte) (off num : ℕ) :
    (putIds id size n p off num).length = p.length := by
  induction n generalizing p off num with
  | zero => rfl
  | succ n ih => rw [putIds, ih, CField.length_put]

/-- A field before the records keeps its value. -/
lemma get_putIds_of_le {f : CField} (n : ℕ) (p : List Byte) {off num : ℕ}
    (hf : f.off + f.width ≤ off) : f.get (putIds id size n p off num) = f.get p := by
  induction n generalizing p off num with
  | zero => rfl
  | succ n ih =>
    -- the records of a block start behind the field
    rw [putIds, ih _ (by omega), CField.get_put_of_apart]
    left
    simp only [CField.shift]
    omega

/-- Record `k` gets the id `num + k`. -/
lemma get_putIds {n k : ℕ} (p : List Byte) (off num : ℕ) (hk : k < n)
    (hid : id.off + id.width ≤ size) (hfit : off + size * (k + 1) ≤ p.length) :
    (id.shift (off + size * k)).get (putIds id size n p off num) =
      (num + k) % 256 ^ id.width := by
  induction n generalizing p off num k with
  | zero => omega
  | succ n ih =>
    rw [putIds]
    cases k with
    -- the first record; the stores behind it leave it alone
    | zero =>
      rw [get_putIds_of_le _ _ (by simp only [CField.shift]; omega)]
      exact CField.get_put_same _ (by simp only [CField.shift]; omega)
    -- the others are a run of their own
    | succ k =>
      have hoff : off + size * (k + 1) = off + size + size * k := by ring
      have hnum : num + (k + 1) = num + 1 + k := by omega
      rw [hoff, hnum]
      refine ih _ _ _ (by omega) ?_
      rw [CField.length_put]
      calc off + size + size * (k + 1) = off + size * (k + 1 + 1) := by ring
        _ ≤ p.length := hfit

/-- The ids run on from block to block: record `k` of the `i`-th remaining block of a table
holds `num + per_block * i + k`. -/
lemma exists_mem_tableBlocks {per_block n i : ℕ} (p : List Byte) (block_num num : ℕ) (hi : i < n)
    (hid : id.off + id.width ≤ size) (hfit : size * per_block ≤ p.length) :
    ∃ p', ⟨block_num + i, p'⟩ ∈ tableBlocks id size per_block n p block_num num ∧
      ∀ k < per_block, (id.shift (size * k)).get p' =
        (num + per_block * i + k) % 256 ^ id.width := by
  induction n generalizing p block_num num i with
  | zero => omega
  | succ n ih =>
    rw [tableBlocks]
    -- the block written first
    cases i with
    | zero =>
      refine ⟨_, List.mem_cons_self, ?_⟩
      intro k hk
      have hrec : size * (k + 1) ≤ size * per_block := Nat.mul_le_mul_left _ hk
      have hget := get_putIds (fill p 0 kfsBlocksize 0#8) 0 num hk hid
        (by rw [length_fill]; omega)
      simpa using hget
    -- a later block: its page starts from the one before, which is zeroed
    | succ i =>
      obtain ⟨p', hmem, hids⟩ := ih (putIds id size per_block (fill p 0 kfsBlocksize 0#8) 0 num)
        (block_num + 1) (num + per_block) (show i < n by omega)
        (by rw [length_putIds, length_fill]; exact hfit)
      refine ⟨p', ?_, ?_⟩
      · rw [show block_num + (i + 1) = block_num + 1 + i by omega]
        exact List.mem_cons_of_mem _ hmem
      · intro k hk
        rw [hids k hk, show num + per_block * (i + 1) = num + per_block + per_block * i by ring]

end Records

/-! ## The image -/

lemma get_take {f : CField} {p : List Byte} {n : ℕ} (hf : f.off + f.width ≤ n) :
    f.get (p.take n) = f.get p := by
  apply loadLE_congr
  intro i _ hi
  rw [List.getD_eq_getElem?_getD, List.getD_eq_getElem?_getD,
    List.getElem?_take_of_lt (by omega)]

section Image

variable {bc : BlocksCalc} {sb_time sinodes_time : ℕ} {p map : List Byte}

/-- A field of a block reads as the builder wrote it: no later builder overwrites it. -/
lemma get_image (h : InRange bc) (happart : (regions bc).Pairwise Region.Apart) {addr : ℕ}
    {page : List Byte} (hmem : ⟨addr, page⟩ ∈ (written bc sb_time sinodes_time p map).all)
    {f : CField} (hf : f.off + f.width ≤ kfsBlocksize) :
    f.get (blockRead (image (written bc sb_time sinodes_time p map)) addr) = f.get page := by
  -- the writes are to different blocks, so the last write to the block is this one
  have hread := applyWrites_of_written (d := fun _ => pagesAlloc 1) hmem
    (nodup_written h happart sb_time sinodes_time p map)
  simp only at hread
  rw [blockRead, image, hread, get_take hf]

/-- How many records the tables are said to have. -/
structure ItemCounts (bc : BlocksCalc) : Prop where
  sinodes_per_block : bc.out_sinodes_per_block = 85
  slots_per_block : bc.out_slots_per_block = 204
  sinodes_num : bc.out_sinodes_num = u64 (bc.out_sinodes_table_in_blocks * 85)
  slots_num : bc.out_slots_num = u64 (bc.out_slots_table_in_blocks * 204)

/-- The two tables have between 2 and 65535 blocks. -/
structure TableSizes (bc : BlocksCalc) : Prop where
  sinodes_lo : 2 ≤ bc.out_sinodes_table_in_blocks
  sinodes_hi : bc.out_sinodes_table_in_blocks ≤ 65535
  slots_lo : 2 ≤ bc.out_slots_table_in_blocks
  slots_hi : bc.out_slots_table_in_blocks ≤ 65535

variable (h : InRange bc) (happart : (regions bc).Pairwise Region.Apart)
include h happart

/-- Block 0 is the superblock. -/
lemma superblock_image :
    blockRead (image (written bc sb_time sinodes_time p map)) 0 = superblockPage bc sb_time := by
  have hmem : (⟨0, superblockPage bc sb_time⟩ : Write) ∈
      (written bc sb_time sinodes_time p map).all := by
    simp [Written.all, Written.extents, written, buildSuperblock]
  have hread := applyWrites_of_written (d := fun _ => pagesAlloc 1) hmem
    (nodup_written h happart sb_time sinodes_time p map)
  simp only at hread
  rw [blockRead, image, hread, ← length_superblockPage bc sb_time, List.take_length]

/-- The last record of a table whose blocks behind the first are written by `tableBlocks`. -/
lemma lastId_image {id : CField} {size per_block addr blocks units log_addr : ℕ}
    (first : List Byte)
    (hmem : ∀ w ∈ tableBlocks id size per_block (blocks - 1) first (addr + 1) per_block,
      w ∈ (written bc sb_time sinodes_time p map).all)
    (hid : id.off + id.width ≤ size) (hper : per_block = kfsBlocksize / size) (hpos : 1 ≤ per_block)
    (hlen : first.length = kfsBlocksize) (hblocks : 2 ≤ blocks) (haddr : addr + blocks < 2 ^ 51) :
    lastId (image (written bc sb_time sinodes_time p map)) id size
        ⟨addr, blocks, units, log_addr⟩ = (per_block * blocks - 1) % 256 ^ id.width := by
  have hfit : size * per_block ≤ kfsBlocksize := by
    rw [hper]
    exact Nat.mul_div_le _ _
  -- the last block is the one of index `n` among those of `tableBlocks`
  obtain ⟨n, rfl⟩ : ∃ n, blocks = n + 2 := ⟨blocks - 2, by omega⟩
  obtain ⟨page, hpage, hids⟩ := exists_mem_tableBlocks first (addr + 1) per_block
    (show n < n + 2 - 1 by omega) hid (hlen.symm ▸ hfit)
  have hlast : sub64 (u64 (addr + (n + 2))) 1 = addr + 1 + n := by
    rw [u64_of_lt (by omega), sub64_of_le (by omega) (by omega)]
    omega
  have hrec : size * (per_block - 1 + 1) ≤ kfsBlocksize := by
    rwa [Nat.sub_add_cancel hpos]
  have hread := get_image h happart (hmem _ hpage) (f := id.shift (size * (per_block - 1)))
    (by rw [Nat.mul_succ] at hrec; simp only [CField.shift]; omega)
  -- it holds the last records, the numbers run on from the first block
  have hnum : per_block + per_block * n + (per_block - 1) = per_block * (n + 2) - 1 := by
    rw [Nat.mul_add]
    omega
  rw [hids _ (by omega), hnum] at hread
  simp only [lastId, hlast, ← hper]
  exact hread

end Image

/-! ## The checks -/

lemma mem_writeBlocks_first {p : List Byte} {addr n : ℕ} (hn : 1 ≤ n) (haddr : addr < 2 ^ 64) :
    ⟨addr, p⟩ ∈ writeBlocks p addr n := by
  have hfirst : (⟨addr, p⟩ : Write) = ⟨u64 (addr + 0), p.drop (kfsBlocksize * 0)⟩ := by
    rw [Nat.add_zero, u64_of_lt haddr]
    rfl
  rw [hfirst]
  exact List.mem_map_of_mem (List.mem_range.mpr hn)

lemma magic_sinodesFirstBlock (bc : BlocksCalc) (current_time : ℕ) :
    ExtentHeader.eh_magic.get (sinodesFirstBlock bc current_time) = kfsSinodeTableMagic := by
  -- the root super inode stands behind the header
  have hroot : ∀ g ∈ (rootSinodeFields current_time).map Prod.fst,
      ExtentHeader.eh_magic.Apart g := by
    have hfields : (rootSinodeFields current_time).map Prod.fst =
        (rootSinodeFields 0).map Prod.fst := rfl
    rw [hfields]
    decide
  rw [sinodesFirstBlock, get_putIds_of_le _ _ (by decide), CField.get_putAll_of_apart _ hroot,
    get_magic_putAll_headerFields _ _ _ (by rw [length_pagesAlloc]; decide)]
  decide

lemma magic_slotsFirstBlock (bc : BlocksCalc) :
    ExtentHeader.eh_magic.get (slotsFirstBlock bc) = kfsSlotsTableMagic := by
  rw [slotsFirstBlock, get_putIds_of_le _ _ (by decide),
    get_magic_putAll_headerFields _ _ _ (by rw [length_pagesAlloc]; decide)]
  decide

/-- The three times of a new superblock are the same. -/
lemma prints_superblockPage (env : VerifyEnv) (bc : BlocksCalc) (sb_time : ℕ) :
    env.prints (superblockPage bc sb_time) = env.dated (sb_time % 2 ^ 64) := by
  have hc : Superblock.sb_c_time.get (superblockPage bc sb_time) = sb_time % 2 ^ 64 :=
    get_superblockPage (by simp [superblockFields]) (by decide)
  have ha : Superblock.sb_a_time.get (superblockPage bc sb_time) = sb_time % 2 ^ 64 :=
    get_superblockPage (by simp [superblockFields]) (by decide)
  have hm : Superblock.sb_m_time.get (superblockPage bc sb_time) = sb_time % 2 ^ 64 :=
    get_superblockPage (by simp [superblockFields]) (by decide)
  simp [VerifyEnv.prints, hc, ha, hm]

section Checks

variable {bc : BlocksCalc} {sb_time sinodes_time : ℕ} {p map : List Byte}
  (h : InRange bc) (happart : (regions bc).Pairwise Region.Apart)
include h happart

lemma magic_sinodes_table :
    extentMagic (image (written bc sb_time sinodes_time p map)) 1 = kfsSinodeTableMagic := by
  have hmem : (⟨1, sinodesFirstBlock bc sinodes_time⟩ : Write) ∈
      (written bc sb_time sinodes_time p map).all := by
    simp [Written.all, Written.extents, written, sinodesTable]
  rw [extentMagic, get_image h happart hmem (by decide), magic_sinodesFirstBlock]

lemma magic_slots_table :
    extentMagic (image (written bc sb_time sinodes_time p map)) (slotTableBlock bc) =
      kfsSlotsTableMagic := by
  have hmem : (⟨slotTableBlock bc, slotsFirstBlock bc⟩ : Write) ∈
      (written bc sb_time sinodes_time p map).all := by
    simp [Written.all, Written.extents, written, slotsTable]
  rw [extentMagic, get_image h happart hmem (by decide), magic_slotsFirstBlock]

lemma magic_sinodes_bitmap (hp : ExtentHeader.eh_magic.get p = kfsSinodeBitmapMagic) :
    extentMagic (image (written bc sb_time sinodes_time p map)) (sinodeMapBlock bc) =
      kfsSinodeBitmapMagic := by
  have hfirst := mem_writeBlocks_first (p := p) h.sinodes_map (sinodeMapBlock_lt bc)
  have hmem : (⟨sinodeMapBlock bc, p⟩ : Write) ∈ (written bc sb_time sinodes_time p map).all := by
    simp [Written.all, Written.extents, written, hfirst]
  rw [extentMagic, get_image h happart hmem (by decide), hp]

lemma magic_slots_bitmap :
    extentMagic (image (written bc sb_time sinodes_time p map)) (slotMapBlock bc) =
      kfsSlotsBitmapMagic := by
  have hpos := h.slots_map
  let q := CField.putAll (fill (pagesAlloc bc.out_slots_bitmap_blocks_num) 0 kfsBlocksize 0#8)
    (headerFields kfsSlotsBitmapMagic 0 bc.out_slots_num)
  have hfirst := mem_writeBlocks_first (p := q) hpos (slotMapBlock_lt bc)
  have hmem : (⟨slotMapBlock bc, q⟩ : Write) ∈ (written bc sb_time sinodes_time p map).all := by
    simp [Written.all, Written.extents, written, slotsBitmap, q, hfirst]
  rw [extentMagic, get_image h happart hmem (by decide), get_magic_putAll_headerFields _ _ _ (by
    rw [length_fill, length_pagesAlloc, kfsBlocksize]; omega)]
  decide

lemma magic_block_map (hmap : ExtentHeader.eh_magic.get map = kfsBlockmapMagic) :
    extentMagic (image (written bc sb_time sinodes_time p map)) (fsMapBlock bc) =
      kfsBlockmapMagic := by
  have hfirst := mem_writeBlocks_first (p := map) h.block_map (fsMapBlock_lt bc)
  have hmem : (⟨fsMapBlock bc, map⟩ : Write) ∈ (written bc sb_time sinodes_time p map).all := by
    simp [Written.all, Written.extents, written, hfirst]
  rw [extentMagic, get_image h happart hmem (by decide), hmap]

/-- The last super inode has the id that the verifier expects. -/
lemma last_sinode (hcounts : ItemCounts bc) (hsizes : TableSizes bc) (units : ℕ) :
    lastId (image (written bc sb_time sinodes_time p map)) Sinode.si_id Sinode.size
        ⟨1, bc.out_sinodes_table_in_blocks, units, 0⟩ = sub64 (bc.out_sinodes_num % 2 ^ 64) 1 := by
  have hlo := hsizes.sinodes_lo
  have hhi := hsizes.sinodes_hi
  have hmem : ∀ w ∈ tableBlocks Sinode.si_id Sinode.size 85 (bc.out_sinodes_table_in_blocks - 1)
      (sinodesFirstBlock bc sinodes_time) 2 85,
        w ∈ (written bc sb_time sinodes_time p map).all := by
    intro w hw
    have htable : w ∈ sinodesTable bc sinodes_time := by
      rw [sinodesTable_eq _ (by omega), hcounts.sinodes_per_block]
      exact List.mem_cons_of_mem _ hw
    simp [Written.all, Written.extents, written, htable]
  have hnum : u64 (bc.out_sinodes_table_in_blocks * 85) = bc.out_sinodes_table_in_blocks * 85 :=
    u64_of_lt (by omega)
  have hlast : lastId (image (written bc sb_time sinodes_time p map)) Sinode.si_id Sinode.size
      ⟨1, bc.out_sinodes_table_in_blocks, units, 0⟩ =
        (85 * bc.out_sinodes_table_in_blocks - 1) % 2 ^ 64 :=
    lastId_image h happart (sinodesFirstBlock bc sinodes_time) hmem (by decide) (by decide)
      (by decide) (by simp [sinodesFirstBlock]) hlo (by omega)
  rw [hlast, hcounts.sinodes_num, hnum]
  unfold sub64
  omega

/-- The last slot has the id that the verifier expects. -/
lemma last_slot (hcounts : ItemCounts bc) (hsizes : TableSizes bc) (units : ℕ) :
    lastId (image (written bc sb_time sinodes_time p map)) Slot.slot_id Slot.size
        ⟨slotTableBlock bc, bc.out_slots_table_in_blocks, units, 0⟩ =
      sub64 (bc.out_slots_num % 2 ^ 64) 1 := by
  have hlo := hsizes.slots_lo
  have hhi := hsizes.slots_hi
  have hfirst := h.slotTableBlock_eq
  have hsinodes := hsizes.sinodes_hi
  have hmem : ∀ w ∈ tableBlocks Slot.slot_id Slot.size 204 (bc.out_slots_table_in_blocks - 1)
      (slotsFirstBlock bc) (slotTableBlock bc + 1) 204,
        w ∈ (written bc sb_time sinodes_time p map).all := by
    intro w hw
    have htable : w ∈ slotsTable bc := by
      rw [slotsTable_eq h.slots (by omega), hcounts.slots_per_block]
      exact List.mem_cons_of_mem _ hw
    simp [Written.all, Written.extents, written, htable]
  have hnum : u64 (bc.out_slots_table_in_blocks * 204) = bc.out_slots_table_in_blocks * 204 :=
    u64_of_lt (by omega)
  have hlast : lastId (image (written bc sb_time sinodes_time p map)) Slot.slot_id Slot.size
      ⟨slotTableBlock bc, bc.out_slots_table_in_blocks, units, 0⟩ =
        (204 * bc.out_slots_table_in_blocks - 1) % 2 ^ 64 :=
    lastId_image h happart (slotsFirstBlock bc) hmem (by decide) (by decide)
      (by decide) (by simp [slotsFirstBlock]) hlo (by omega)
  rw [hlast, hcounts.slots_num, hnum]
  unfold sub64
  omega

/-- Every check of `kfs_verify` succeeds. -/
lemma verifyExtents_image (sb_time sinodes_time : ℕ) (hcounts : ItemCounts bc)
    (hsizes : TableSizes bc) (hp : ExtentHeader.eh_magic.get p = kfsSinodeBitmapMagic)
    (hmap : ExtentHeader.eh_magic.get map = kfsBlockmapMagic) :
    verifyExtents (image (written bc sb_time sinodes_time p map))
      (superblockPage bc sb_time) = 0 := by
  -- the superblock has the sizes of the tables in 16 bits, which is enough here
  have hsi : bc.out_sinodes_table_in_blocks % 2 ^ 16 = bc.out_sinodes_table_in_blocks :=
    Nat.mod_eq_of_lt (by have := hsizes.sinodes_hi; omega)
  have hsl : bc.out_slots_table_in_blocks % 2 ^ 16 = bc.out_slots_table_in_blocks :=
    Nat.mod_eq_of_lt (by have := hsizes.slots_hi; omega)
  simp only [verifyExtents, si_table_superblockPage, slot_table_superblockPage,
    blockmap_superblockPage, hsi, hsl, Nat.mod_eq_of_lt (sinodeMapBlock_lt bc),
    Nat.mod_eq_of_lt (slotMapBlock_lt bc), Nat.mod_eq_of_lt (fsMapBlock_lt bc),
    Nat.mod_eq_of_lt (slotTableBlock_lt bc), Nat.mod_eq_of_lt (show 1 < 2 ^ 64 by decide)]
  rw [magic_sinodes_table h happart, last_sinode h happart hcounts hsizes,
    magic_slots_table h happart, last_slot h happart hcounts hsizes,
    magic_sinodes_bitmap h happart hp, magic_slots_bitmap h happart, magic_block_map h happart hmap]
  simp

end Checks

/-! ## Layouts of `compute_values` -/

/-- The extents of a layout are pairwise disjoint and lie inside the file. -/
structure Separate (bc : BlocksCalc) : Prop where
  apart : (regions bc).Pairwise Region.Apart
  fits : ∀ r ∈ regions bc, r.addr + r.blocks ≤ bc.in_file_size_in_blocks

section Layout

variable {options : Options} {items_blocks : ℕ} {device_blocks : ℕ → ℕ}

/-- With `-s` there is no slot table, with `-i` no super inode table. -/
lemma plain_of_tables (hkfs : options.has cmdKfs)
    (hsizes : TableSizes (computeValuesWith options items_blocks device_blocks)) :
    options.Plain := by
  refine ⟨Or.inl hkfs, ?_, ?_⟩
  · intro hs
    have hslots := hsizes.slots_lo
    revert hslots
    by_cases hi : options.has optI <;>
      simp [computeValuesWith, slotsByBudget, sinodesByBudget, Options.has_or, hkfs, hs, hi,
        inValues]
  · intro hi
    have hsinodes := hsizes.sinodes_lo
    revert hsinodes
    by_cases hs : options.has optS <;>
      simp [computeValuesWith, slotsByBudget, sinodesByBudget, Options.has_or, hkfs, hs, hi,
        inValues]

lemma itemCounts_of_plain (h : options.Plain) (hitems : items_blocks < 2 ^ 64) :
    ItemCounts (computeValuesWith options items_blocks device_blocks) := by
  rw [computeValuesWith_plain h hitems]
  exact ⟨rfl, rfl, rfl, rfl⟩

/-- Extents that fit the file make the address formulas free of wraps. -/
lemma inRange_of_separate (h : options.Plain) (hsize : options.size < 2 ^ 64)
    (hitems : items_blocks < 2 ^ 64)
    (hsizes : TableSizes (computeValuesWith options items_blocks device_blocks))
    (hsep : Separate (computeValuesWith options items_blocks device_blocks)) :
    InRange (computeValuesWith options items_blocks device_blocks) := by
  have hF : options.size / kfsBlocksize < 2 ^ 51 := by
    unfold kfsBlocksize
    omega
  rcases hsizes with ⟨hlo, hhi, hlo', hhi'⟩
  have hfits := hsep.fits
  have hB := ceilBlocks_bitsPerBlock (options.size / kfsBlocksize)
  have hm := ceilBlocks_bitsPerBlock items_blocks
  simp only [regions, fsMapBlock, slotMapBlock, sinodeMapBlock, slotTableBlock,
    computeValuesWith_plain h hitems, List.forall_mem_cons, List.not_mem_nil, false_implies,
    implies_true, and_true, inValues] at hlo hhi hlo' hhi' hfits ⊢
  rcases hfits with ⟨-, htable, hsino, hslots, hslot, hmap⟩
  generalize options.size / kfsBlocksize = F at *
  generalize ceilBlocks items_blocks bitsPerBlock = m at *
  generalize ceilBlocks F bitsPerBlock = B at *
  rw [u64_of_lt (by omega)] at hslots
  have hFB : sub64 F B = F - B := sub64_of_le (by omega) (by omega)
  -- an address that wraps would put the extent beyond the file
  have hslot' : m ≤ F - B := by
    by_contra hwrap
    rw [hFB] at hslot
    unfold sub64 at hslot
    omega
  have hslotm : sub64 (sub64 F B) m = F - B - m := by
    rw [hFB]
    exact sub64_of_le hslot' (by omega)
  have hsino' : m ≤ F - B - m := by
    by_contra hwrap
    rw [hslotm] at hsino
    unfold sub64 at hsino
    omega
  constructor <;> dsimp only <;> omega

end Layout

/-- **The checker accepts what mkfs writes**: on the image of a layout of the kfs command with
`-p` whose extents are disjoint, fit the file and have tables of 2 to 65535 blocks,
`kfs_verify` with the extra verification returns 0; where it is to print the superblock, `time` has
given the builder a time that can be printed. -/
theorem kfsVerify_image (options : Options) (items_blocks : ℕ) (device_blocks : ℕ → ℕ)
    (sb_time sinodes_time : ℕ) (env : VerifyEnv) (hkfs : options.has cmdKfs)
    (hsize : options.size < 2 ^ 64) (hitems : items_blocks < 2 ^ 64)
    (hsep : Separate (computeValuesWith options items_blocks device_blocks))
    (hsizes : TableSizes (computeValuesWith options items_blocks device_blocks))
    (henv : env.stat_rc = 0 ∧ (env.is_reg ∨ env.is_blk) ∧ env.malloc_p ∧ 0 ≤ env.fd ∧
      env.malloc_pex) :
    ∃ w, buildFilesystem (computeValuesWith options items_blocks device_blocks)
        sb_time sinodes_time = some w ∧
      ∀ verbose, verbose = 0 ∨ env.dated (sb_time % 2 ^ 64) = true →
        kfsVerify env (image w) verbose 1 = some 0 := by
  have hplain := plain_of_tables hkfs hsizes
  have hrange := inRange_of_separate hplain hsize hitems hsizes hsep
  have hcounts : ItemCounts (computeValuesWith options items_blocks device_blocks) :=
    itemCounts_of_plain hplain hitems
  rcases buildFilesystem_spec hrange sb_time sinodes_time with ⟨p, map, hrun, hp, hmap⟩
  refine ⟨_, hrun, ?_⟩
  intro verbose hverbose
  have hsuper : blockRead (image (written _ sb_time sinodes_time p map)) 0 =
      superblockPage (computeValuesWith options items_blocks device_blocks) sb_time :=
    superblock_image hrange hsep.apart
  have hmagic : Superblock.sb_magic.get (superblockPage
      (computeValuesWith options items_blocks device_blocks) sb_time) = kfsMagic :=
    get_superblockPage (v := kfsMagic) (by simp [superblockFields]) (by decide)
  have hchecks := verifyExtents_image hrange hsep.apart sb_time sinodes_time hcounts hsizes hp
    hmap.magic_eq
  rcases henv with ⟨hstat, htype, hmalloc, hfd, hpex⟩
  refine kfsVerify_eq_zero_iff.mpr ⟨⟨hstat, htype, hmalloc, hfd⟩, ?_, ?_, .inr ⟨hpex, ?_⟩⟩
  · rw [hsuper, hmagic]
  · rw [hsuper, prints_superblockPage]
    exact hverbose
  · rw [hsuper]
    exact verifyExtents_eq_zero_iff.mp hchecks

/-- The smallest file system with the default percentage. -/
theorem kfsVerify_image_min :
    ∃ w, buildFilesystem (computeValuesWith (kfsOptions minFs 10) 64 id) 0 0 = some w ∧
      ∀ verbose, kfsVerify ⟨0, true, false, true, 3, true, fun _ => true⟩ (image w) verbose 1 =
        some 0 := by
  rcases kfsVerify_image (kfsOptions minFs 10) 64 id 0 0
    ⟨0, true, false, true, 3, true, fun _ => true⟩ (by decide) (by decide) (by decide)
    ⟨by decide, by decide⟩ ⟨by decide, by decide, by decide, by decide⟩ (by decide) with
    ⟨w, hrun, hverify⟩
  exact ⟨w, hrun, fun verbose => hverify verbose (.inr rfl)⟩

end KanekFs.Super
