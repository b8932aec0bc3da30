import KanekFs.Map.SetExtent
import KanekFs.Mkfs.ComputeValues

/-!
# Building a file system

The builders of `kfs_mkfs.c`. Each of them is described by the `block_write` calls it makes,
in order, and by what it leaves in `pages[PG_MAP]`, the block map that all of them update and
`write_map` writes out last. A builder that touches memory outside a bitmap has no result.

The tables grow upward from block 1, the bitmaps downward from the end of the file; every
builder computes the addresses with the same formulas (`fsMapBlock`, `slotMapBlock`,
`sinodeMapBlock`).
-/

namespace KanekFs.Mkfs

open Bytes Word Map

/-! ## Addresses -/

def fsMapBlock (bc : BlocksCalc) : ℕ :=
  sub64 bc.in_file_size_in_blocks bc.out_bitmap_size_in_blocks

def slotMapBlock (bc : BlocksCalc) : ℕ := sub64 (fsMapBlock bc) bc.out_slots_bitmap_blocks_num

def sinodeMapBlock (bc : BlocksCalc) : ℕ :=
  sub64 (slotMapBlock bc) bc.out_sinodes_bitmap_blocks_num

def slotTableBlock (bc : BlocksCalc) : ℕ := u64 (bc.out_sinodes_table_in_blocks + 1)

lemma fsMapBlock_lt (bc : BlocksCalc) : fsMapBlock bc < 2 ^ 64 := sub64_lt _ _

lemma slotMapBlock_lt (bc : BlocksCalc) : slotMapBlock bc < 2 ^ 64 := sub64_lt _ _

lemma sinodeMapBlock_lt (bc : BlocksCalc) : sinodeMapBlock bc < 2 ^ 64 := sub64_lt _ _

lemma slotTableBlock_lt (bc : BlocksCalc) : slotTableBlock bc < 2 ^ 64 := u64_lt _

/-! ## The superblock -/

/-- The assignments to a `kfs_extent_t` at `base`. -/
def extentFields (base ee_block_addr ee_block_size ee_log_size ee_log_addr : ℕ) :
    List (CField × ℕ) :=
  [(Extent.ee_block_addr.shift base, ee_block_addr),
   (Extent.ee_block_size.shift base, ee_block_size),
   (Extent.ee_log_size.shift base, ee_log_size),
   (Extent.ee_log_addr.shift base, ee_log_addr)]

/-- The assignments of `build_superblock`, in order. -/
def superblockFields (bc : BlocksCalc) (current_time : ℕ) : List (CField × ℕ) :=
  [(Superblock.kfs_magic, kfsMagic),
   (Superblock.sb_magic, kfsMagic),
   (Superblock.sb_flags, 0x0000),
   (Superblock.sb_blocksize, kfsBlocksize),
   (Superblock.sb_root_super_inode, 0),
   (Superblock.sb_c_time, current_time),
   (Superblock.sb_m_time, current_time),
   (Superblock.sb_a_time, current_time),
   (Table.capacity.shift Superblock.sb_si_table, bc.out_sinodes_num),
   (Table.in_use.shift Superblock.sb_si_table, 1)] ++
  extentFields (Superblock.sb_si_table + Table.table_extent)
    1 bc.out_sinodes_table_in_blocks bc.out_sinodes_num 0 ++
  extentFields (Superblock.sb_si_table + Table.bitmap_extent)
    (sinodeMapBlock bc) bc.out_sinodes_bitmap_blocks_num bc.out_sinodes_bitmap_blocks_num 0 ++
  [(Table.capacity.shift Superblock.sb_slot_table, bc.out_slots_num),
   (Table.in_use.shift Superblock.sb_slot_table, 0)] ++
  extentFields (Superblock.sb_slot_table + Table.table_extent)
    (slotTableBlock bc) bc.out_slots_table_in_blocks bc.out_slots_num 0 ++
  extentFields (Superblock.sb_slot_table + Table.bitmap_extent)
    (slotMapBlock bc) bc.out_slots_bitmap_blocks_num bc.out_slots_bitmap_blocks_num 0 ++
  extentFields (Superblock.sb_blockmap + Table.bitmap_extent)
    (fsMapBlock bc) bc.out_bitmap_size_in_blocks bc.in_file_size_in_blocks 0 ++
  extentFields (Superblock.sb_blockmap + Table.table_extent) 0 0 0 0

def secret : String := "Good! U found the secret message!! 1234567890"

/-- `strcpy(p + 512, secret)`, byte by byte, with the terminator. -/
def secretFields : List (CField × ℕ) :=
  (secret.toList.map Char.toNat ++ [0]).zipIdx.map fun c : ℕ × ℕ => (⟨512 + c.2, 1⟩, c.1)

/-- The superblock page: `sb` is `pages[PG_SB]`, one zeroed block. -/
def superblockPage (bc : BlocksCalc) (current_time : ℕ) : List Byte :=
  let sb := fill (pagesAlloc 1) 0 Superblock.size 0#8
  CField.putAll (CField.putAll sb (superblockFields bc current_time)) secretFields

def buildSuperblock (bc : BlocksCalc) (current_time : ℕ) : List Write :=
  [⟨0, superblockPage bc current_time⟩]

/-! ## Extent headers and the block map -/

/-- The assignments to the `kfs_extent_header_t` at the start of an extent. -/
def headerFields (eh_magic eh_entries_in_use eh_entries_capacity : ℕ) : List (CField × ℕ) :=
  [(ExtentHeader.eh_magic, eh_magic),
   (ExtentHeader.eh_entries_in_use, eh_entries_in_use),
   (ExtentHeader.eh_entries_capacity, eh_entries_capacity),
   (ExtentHeader.eh_flags, kfsEntriesRoot ||| kfsEntriesLeaf)]

/-- The bitmap of an extent stands behind its header. -/
def bitmapOf (p : List Byte) : List Byte := p.drop ExtentHeader.size

/-- Run a bitmap function on the bitmap of an extent. -/
def onBitmap (p : List Byte) (f : List Byte → Option (ℤ × List Byte)) : Option (List Byte) := do
  let r ← f (bitmapOf p)
  some (p.take ExtentHeader.size ++ r.2)

def buildMap (bc : BlocksCalc) : Option (List Byte) := do
  let p := CField.putAll (pagesAlloc bc.out_bitmap_size_in_blocks)
    (headerFields kfsBlockmapMagic 0 bc.in_file_size_in_blocks)
  let p ← onBitmap p fun bitmap => bmSetBit bitmap bc.in_file_size_in_blocks 0 1
  -- the count is stored after bit 0, the superblock, is set
  some (ExtentHeader.eh_entries_in_use.put p 1)

/-- Mark `n` blocks from `addr` on in the block map, and count them. Every builder does this
for each of its extents; none looks at the return code. -/
def markBlocks (bc : BlocksCalc) (map : List Byte) (addr n : ℕ) : Option (List Byte) := do
  let map ← onBitmap map fun bitmap => bmSetExtent bitmap bc.in_file_size_in_blocks addr n 1
  some (ExtentHeader.eh_entries_in_use.put map (ExtentHeader.eh_entries_in_use.get map + n))

/-! ## Tables -/

/-- Give `n` records of `size` bytes from `off` on the ids `num`, `num + 1`, ... A store past
the end of the block is lost. -/
def putIds (id : CField) (size : ℕ) : ℕ → List Byte → ℕ → ℕ → List Byte
  | 0, p, _, _ => p
  | n + 1, p, off, num => putIds id size n ((id.shift off).put p num) (off + size) (num + 1)

/-- The remaining blocks of a table: `n` blocks of `per_block` records each. -/
def tableBlocks (id : CField) (size per_block : ℕ) : ℕ → List Byte → ℕ → ℕ → List Write
  | 0, _, _, _ => []
  | n + 1, p, block_num, num =>
    -- the page of the block before is zeroed and used again
    let p := putIds id size per_block (fill p 0 kfsBlocksize 0#8) 0 num
    ⟨block_num, p⟩ :: tableBlocks id size per_block n p (block_num + 1) (num + per_block)

/-- The assignments to the root super inode, the record right behind the header. -/
def rootSinodeFields (current_time : ℕ) : List (CField × ℕ) :=
  [(Sinode.si_a_time.shift ExtentHeader.size, current_time),
   (Sinode.si_c_time.shift ExtentHeader.size, current_time),
   (Sinode.si_m_time.shift ExtentHeader.size, current_time),
   (Sinode.si_slot_id.shift ExtentHeader.size, 0xfffffffe),
   (Sinode.si_id.shift ExtentHeader.size, 0)]

/-- The first block of the super inode table. The loop over the other super inodes starts at
the record of the root. -/
def sinodesFirstBlock (bc : BlocksCalc) (current_time : ℕ) : List Byte :=
  let p := CField.putAll (pagesAlloc 1)
    (headerFields kfsSinodeTableMagic 1 bc.out_sinodes_num)
  let p := CField.putAll p (rootSinodeFields current_time)
  putIds Sinode.si_id Sinode.size (bc.out_sinodes_per_block - 1) p ExtentHeader.size 1

def sinodesTable (bc : BlocksCalc) (current_time : ℕ) : List Write :=
  let p := sinodesFirstBlock bc current_time
  let limsup := u64 (1 + bc.out_sinodes_table_in_blocks)
  ⟨1, p⟩ :: tableBlocks Sinode.si_id Sinode.size bc.out_sinodes_per_block (limsup - 2) p 2
    (max bc.out_sinodes_per_block 1)

def sinodesBitmap (bc : BlocksCalc) : Option (List Write) := do
  let p := CField.putAll (fill (pagesAlloc bc.out_sinodes_bitmap_blocks_num) 0 kfsBlocksize 0#8)
    (headerFields kfsSinodeBitmapMagic 1 bc.out_sinodes_num)
  let p ← onBitmap p fun bitmap => bmSetBit bitmap bc.out_sinodes_num 0 1
  some (writeBlocks p (sinodeMapBlock bc) bc.out_sinodes_bitmap_blocks_num)

/-- The writes of a builder of an item table: the table, then its bitmap. -/
structure ItemWrites where
  table : List Write
  bitmap : List Write

def buildSinodes (bc : BlocksCalc) (current_time : ℕ) (map : List Byte) :
    Option (ItemWrites × List Byte) := do
  let bitmap ← sinodesBitmap bc
  let map ← markBlocks bc map 1 bc.out_sinodes_table_in_blocks
  let map ← markBlocks bc map (sinodeMapBlock bc) bc.out_sinodes_bitmap_blocks_num
  some (⟨sinodesTable bc current_time, bitmap⟩, map)

/-- The first block of the slot table. `slot` is advanced by the size of the header in
*records*, so the first record stands at byte 1280. -/
def slotsFirstBlock (bc : BlocksCalc) : List Byte :=
  let p := CField.putAll (pagesAlloc 1) (headerFields kfsSlotsTableMagic 0 bc.out_slots_num)
  putIds Slot.slot_id Slot.size bc.out_slots_per_block p (ExtentHeader.size * Slot.size) 0

def slotsTable (bc : BlocksCalc) : List Write :=
  let p := slotsFirstBlock bc
  let liminf := slotTableBlock bc
  let limsup := u64 (liminf + bc.out_slots_table_in_blocks)
  ⟨liminf, p⟩ :: tableBlocks Slot.slot_id Slot.size bc.out_slots_per_block
    (limsup - u64 (liminf + 1)) p (u64 (liminf + 1)) bc.out_slots_per_block

def slotsBitmap (bc : BlocksCalc) : List Write :=
  let p := CField.putAll (fill (pagesAlloc bc.out_slots_bitmap_blocks_num) 0 kfsBlocksize 0#8)
    (headerFields kfsSlotsBitmapMagic 0 bc.out_slots_num)
  writeBlocks p (slotMapBlock bc) bc.out_slots_bitmap_blocks_num

def buildSlots (bc : BlocksCalc) (map : List Byte) : Option (ItemWrites × List Byte) := do
  let map ← markBlocks bc map (slotTableBlock bc) bc.out_slots_table_in_blocks
  let map ← markBlocks bc map (slotMapBlock bc) bc.out_slots_bitmap_blocks_num
  some (⟨slotsTable bc, slotsBitmap bc⟩, map)

def writeMap (bc : BlocksCalc) (map : List Byte) : Option (List Write × List Byte) := do
  let map ← markBlocks bc map (fsMapBlock bc) bc.out_bitmap_size_in_blocks
  some (writeBlocks map (fsMapBlock bc) bc.out_bitmap_size_in_blocks, map)

/-- All writes of a run of the builders. -/
structure Written where
  superblock : List Write
  sinodes : ItemWrites
  slots : ItemWrites
  block_map : List Write

/-- The six extents, in the order in which they are written. -/
def Written.extents (w : Written) : List (List Write) :=
  [w.superblock, w.sinodes.table, w.sinodes.bitmap, w.slots.table, w.slots.bitmap, w.block_map]

def Written.all (w : Written) : List Write := w.extents.flatten

/-- The builders in the order of `build_filesystem_in_file`. The two times are the two
readings of the clock. -/
def buildFilesystem (bc : BlocksCalc) (sb_time sinodes_time : ℕ) : Option Written := do
  let map ← buildMap bc
  let (sinodes, map) ← buildSinodes bc sinodes_time map
  let (slots, map) ← buildSlots bc map
  let (block_map, _) ← writeMap bc map
  some ⟨buildSuperblock bc sb_time, sinodes, slots, block_map⟩

/-- The image on a device: `build_filesystem_in_file` zeroes it first. -/
def image (w : Written) : Disk := applyWrites (fun _ => pagesAlloc 1) w.all

end KanekFs.Mkfs
