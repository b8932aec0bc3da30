import KanekFs.Lib.Bytes
import KanekFs.Lib.Word
import Mathlib.Data.Set.Function
import Mathlib.Logic.Function.Basic

/-!
# Blocks and block I/O

The block device of `eio.c` and the on-disk record layouts of `kfs_disk.h`.

* A `Disk` gives the content of every block. `blockRead` and `blockWrite` are `block_read`
  and `block_write` when the system calls succeed; the byte offset is computed in 64 bits.
* `extentRead` and `extentWrite` transfer several blocks at once, to and from a buffer that is
  a list of blocks.
* A program that only writes is described by the list of its `block_write` calls, and
  `applyWrites` is the image these calls leave.
* The record layouts are the field offsets that the C compiler gives the structures.
-/

namespace KanekFs

open Bytes Word

/-! ## Blocks -/

def kfsBlocksize : ℕ := 8192

/-- The content of every block of a device. -/
abbrev Disk := ℕ → List Byte

/-- The block that `lseek(fd, addr * KFS_BLOCKSIZE, SEEK_SET)` moves to. -/
def blockIndex (addr : ℕ) : ℕ := u64 (addr * kfsBlocksize) / kfsBlocksize

def blockRead (d : Disk) (addr : ℕ) : List Byte := d (blockIndex addr)

/-- `block_write`: the first `KFS_BLOCKSIZE` bytes of `page` become block `addr`. -/
def blockWrite (d : Disk) (page : List Byte) (addr : ℕ) : Disk :=
  Function.update d (blockIndex addr) (page.take kfsBlocksize)

/-- `pages_alloc(n)`: `n` zeroed blocks. -/
def pagesAlloc (n : ℕ) : List Byte := List.replicate (kfsBlocksize * n) 0#8

@[simp] lemma length_pagesAlloc (n : ℕ) : (pagesAlloc n).length = kfsBlocksize * n := by
  simp [pagesAlloc]

@[simp] lemma blockIndex_u64 (addr : ℕ) : blockIndex (u64 addr) = blockIndex addr := by
  unfold blockIndex u64 kfsBlocksize
  omega

/-- Below the largest device the byte offset of a block does not wrap. -/
lemma blockIndex_of_lt {addr : ℕ} (h : addr < 2 ^ 51) : blockIndex addr = addr := by
  unfold blockIndex kfsBlocksize
  rw [u64_of_lt (by omega)]
  omega

/-! ## Sequences of writes -/

/-- One call of `block_write`. -/
structure Write where
  addr : ℕ
  page : List Byte

/-- The image a sequence of `block_write` calls leaves. -/
def applyWrites (d : Disk) (ws : List Write) : Disk :=
  ws.foldl (fun d w => blockWrite d w.page w.addr) d

@[simp] lemma applyWrites_cons (d : Disk) (w : Write) (ws : List Write) :
    applyWrites d (w :: ws) = applyWrites (blockWrite d w.page w.addr) ws := rfl

@[simp] lemma applyWrites_append (d : Disk) (ws ws' : List Write) :
    applyWrites d (ws ++ ws') = applyWrites (applyWrites d ws) ws' :=
  List.foldl_append

/-- A block that is not written keeps its content. -/
lemma applyWrites_of_not_written {d : Disk} {ws : List Write} {k : ℕ}
    (h : ∀ w ∈ ws, blockIndex w.addr ≠ k) : applyWrites d ws k = d k := by
  induction ws generalizing d with
  | nil => rfl
  | cons w ws ih =>
    have hw : k ≠ blockIndex w.addr := fun e => h w (by simp) e.symm
    rw [applyWrites_cons, ih fun w' hw' => h w' (by simp [hw']), blockWrite,
      Function.update_of_ne hw]

/-- A block written once holds what was written to it. -/
theorem applyWrites_of_written {d : Disk} {ws : List Write} {w : Write} (hmem : w ∈ ws)
    (honce : (ws.map fun w => blockIndex w.addr).Nodup) :
    applyWrites d ws (blockIndex w.addr) = w.page.take kfsBlocksize := by
  induction ws generalizing d with
  | nil => simp at hmem
  | cons w' ws ih =>
    rw [List.map_cons, List.nodup_cons] at honce
    rcases List.mem_cons.mp hmem with rfl | hmem
    · have hlater : ∀ w' ∈ ws, blockIndex w'.addr ≠ blockIndex w.addr := fun w' hw' heq =>
        honce.1 (heq ▸ List.mem_map_of_mem hw')
      rw [applyWrites_cons, applyWrites_of_not_written hlater, blockWrite, Function.update_self]
    · rw [applyWrites_cons]
      exact ih hmem honce.2

/-- The blocks of a buffer, written one after the other from block `addr` on. -/
def writeBlocks (p : List Byte) (addr n : ℕ) : List Write :=
  (List.range n).map fun i => ⟨u64 (addr + i), p.drop (kfsBlocksize * i)⟩

/-- The `n` blocks from `addr` on, read one after the other. -/
def readBlocks (d : Disk) (addr n : ℕ) : List Byte :=
  (List.range n).flatMap fun i => blockRead d (u64 (addr + i))

/-- Cutting a buffer into blocks and putting them together again. -/
lemma flatMap_take_drop (p : List Byte) (k n : ℕ) :
    ((List.range n).flatMap fun i => (p.drop (k * i)).take k) = p.take (k * n) := by
  induction n with
  | zero => simp
  | succ n ih =>
    rw [List.range_succ, List.flatMap_append, ih, List.flatMap_singleton, Nat.mul_succ,
      List.take_add]

lemma writeBlocks_addrs {addr n : ℕ} (p : List Byte) (h : addr + n ≤ 2 ^ 64) :
    (writeBlocks p addr n).map Write.addr = List.range' addr n := by
  rw [List.range'_eq_map_range, writeBlocks, List.map_map]
  apply List.map_congr_left
  intro i hi
  have hlt := List.mem_range.mp hi
  exact u64_of_lt (by omega)

/-- Distinct addresses below the largest device are distinct blocks. -/
lemma nodup_blockIndex {ws : List Write} (hnodup : (ws.map Write.addr).Nodup)
    (hlt : ∀ k ∈ ws.map Write.addr, k < 2 ^ 51) :
    (ws.map fun w => blockIndex w.addr).Nodup := by
  have heq : (ws.map fun w => blockIndex w.addr) = ws.map Write.addr := by
    apply List.map_congr_left
    intro w hw
    exact blockIndex_of_lt (hlt _ (List.mem_map_of_mem hw))
  rw [heq]
  exact hnodup

/-- The first `m` of the blocks that were written read back as the first part of the buffer. -/
theorem readBlocks_writeBlocks_take (d : Disk) (p : List Byte) {addr n m : ℕ}
    (hend : addr + n ≤ 2 ^ 51) (hm : m ≤ n) :
    readBlocks (applyWrites d (writeBlocks p addr n)) addr m = p.take (kfsBlocksize * m) := by
  have haddrs := writeBlocks_addrs p (show addr + n ≤ 2 ^ 64 by omega)
  have honce := nodup_blockIndex (haddrs ▸ List.nodup_range') fun k hk => by
    rw [haddrs, List.mem_range'_1] at hk
    omega
  have hblock : ∀ i ∈ List.range m,
      blockRead (applyWrites d (writeBlocks p addr n)) (u64 (addr + i)) =
        (p.drop (kfsBlocksize * i)).take kfsBlocksize := by
    intro i hi
    have hin : i ∈ List.range n := List.mem_range.mpr (by have := List.mem_range.mp hi; omega)
    have hread := applyWrites_of_written (d := d) (List.mem_map_of_mem hin) honce
    exact hread
  rw [readBlocks, List.flatMap_congr hblock, flatMap_take_drop]

/-- What was written as blocks reads back as the buffer. -/
theorem readBlocks_writeBlocks (d : Disk) {p : List Byte} {addr n : ℕ}
    (hend : addr + n ≤ 2 ^ 51) (hlen : p.length = kfsBlocksize * n) :
    readBlocks (applyWrites d (writeBlocks p addr n)) addr n = p := by
  rw [readBlocks_writeBlocks_take d p hend le_rfl, ← hlen, List.take_length]

/-! ## Extents -/

/-- The whole blocks in `block_num * KFS_BLOCKSIZE` bytes, the product taken in an `int`. A
negative product is no size that the allocator or the kernel accepts. -/
def intBlocks (block_num : ℤ) : ℕ :=
  (Int.bmod (block_num * kfsBlocksize) (2 ^ 32)).toNat / kfsBlocksize

/-- The product `block_num * KFS_BLOCKSIZE` is in the range of `int`. -/
def FitsInt (block_num : ℤ) : Prop :=
  -2 ^ 31 ≤ block_num * kfsBlocksize ∧ block_num * kfsBlocksize < 2 ^ 31

lemma intBlocks_of_fits {n : ℤ} (h : FitsInt n) : intBlocks n = n.toNat := by
  unfold FitsInt kfsBlocksize at h
  have hmod : Int.bmod (n * (8192 : ℕ)) (2 ^ 32) = n * (8192 : ℕ) :=
    Int.bmod_eq_of_le (by omega) (by omega)
  rw [intBlocks, kfsBlocksize, hmod]
  omega

/-- The block counts of the superblock are in range. -/
lemma intBlocks_toInt32 {n : ℕ} (h : n < 2 ^ 16) : intBlocks (toInt32 n) = n := by
  rw [toInt32_of_lt (by omega), intBlocks_of_fits (by unfold FitsInt kfsBlocksize; omega),
    Int.toNat_natCast]

/-- `extent_read`: the blocks from `addr` on, block by block. -/
def extentRead (d : Disk) (addr : ℕ) (block_num : ℤ) : List (List Byte) :=
  (List.range (intBlocks block_num)).map fun i => d (blockIndex addr + i)

/-- `extent_write`: the blocks of a buffer become the blocks from `addr` on. -/
def extentWrite (d : Disk) (extent : List (List Byte)) (addr : ℕ) (block_num : ℤ) : Disk :=
  fun b =>
    if blockIndex addr ≤ b ∧ b < blockIndex addr + intBlocks block_num then
      extent.getD (b - blockIndex addr) (d b)
    else d b

/-- The blocks of the device that an extent names. -/
def extentBlocks (addr : ℕ) (block_num : ℤ) : Set ℕ :=
  Set.Ico (blockIndex addr) (blockIndex addr + block_num.toNat)

@[simp] lemma length_extentRead (d : Disk) (addr : ℕ) (n : ℤ) :
    (extentRead d addr n).length = intBlocks n := by simp [extentRead]

/-- Two devices that agree on an extent read the same from it. -/
lemma extentRead_congr {d d' : Disk} {addr : ℕ} {n : ℤ} (hn : FitsInt n)
    (h : ∀ b ∈ extentBlocks addr n, d b = d' b) : extentRead d addr n = extentRead d' addr n := by
  apply List.map_congr_left
  intro i hi
  have hlt := List.mem_range.mp hi
  rw [intBlocks_of_fits hn] at hlt
  exact h _ ⟨Nat.le_add_right _ _, by omega⟩

lemma mem_extentBlocks {addr b : ℕ} {n : ℤ} (hn : FitsInt n) :
    b ∈ extentBlocks addr n ↔ blockIndex addr ≤ b ∧ b < blockIndex addr + intBlocks n := by
  rw [extentBlocks, Set.mem_Ico, intBlocks_of_fits hn]

/-- What `extent_write` does outside its extent: nothing. -/
lemma extentWrite_of_notMem {d : Disk} {l : List (List Byte)} {addr b : ℕ} {n : ℤ}
    (hn : FitsInt n) (hb : b ∉ extentBlocks addr n) : extentWrite d l addr n b = d b :=
  if_neg (fun hin => hb ((mem_extentBlocks hn).mpr hin))

/-- Writing what was read from a device makes the written one agree with it. -/
lemma extentWrite_of_mem {d d' : Disk} {addr b : ℕ} {n : ℤ} (hn : FitsInt n)
    (hb : b ∈ extentBlocks addr n) : extentWrite d (extentRead d' addr n) addr n b = d' b := by
  have hin := (mem_extentBlocks hn).mp hb
  have hlt : b - blockIndex addr < (extentRead d' addr n).length := by
    rw [length_extentRead]
    omega
  have hblock : blockIndex addr + (b - blockIndex addr) = b := by omega
  rw [extentWrite, if_pos hin, List.getD_eq_getElem?_getD, List.getElem?_eq_getElem hlt]
  simp [extentRead, hblock]

/-- Reading the extent just written. -/
lemma extentRead_extentWrite (d : Disk) {l : List (List Byte)} (addr : ℕ) {n : ℤ}
    (hl : l.length = intBlocks n) : extentRead (extentWrite d l addr n) addr n = l := by
  apply List.ext_getElem
  · rw [length_extentRead, hl]
  · intro i hi hi'
    have hin : blockIndex addr ≤ blockIndex addr + i ∧
        blockIndex addr + i < blockIndex addr + intBlocks n := by omega
    simp only [extentRead, List.getElem_map, List.getElem_range, extentWrite, if_pos hin,
      Nat.add_sub_cancel_left]
    rw [List.getD_eq_getElem?_getD, List.getElem?_eq_getElem hi', Option.getD_some]

/-- The buffer of `n` blocks as it is transferred, block by block. -/
def cutBlocks (p : List Byte) (n : ℕ) : List (List Byte) :=
  (List.range n).map fun i => (p.drop (kfsBlocksize * i)).take kfsBlocksize

@[simp] lemma length_cutBlocks (p : List Byte) (n : ℕ) : (cutBlocks p n).length = n := by
  simp [cutBlocks]

lemma flatten_cutBlocks {p : List Byte} {n : ℕ} (h : p.length = kfsBlocksize * n) :
    (cutBlocks p n).flatten = p := by
  have hcut := flatMap_take_drop p kfsBlocksize n
  rw [List.flatMap_def] at hcut
  rw [cutBlocks, hcut, ← h, List.take_length]

/-- An extent read at once is its blocks read one after the other. -/
lemma flatten_extentRead {d : Disk} {addr : ℕ} {n : ℤ} (h : addr + intBlocks n ≤ 2 ^ 51) :
    (extentRead d addr n).flatten = readBlocks d addr (intBlocks n) := by
  rw [extentRead, readBlocks, List.flatMap_def]
  congr 1
  apply List.map_congr_left
  intro i hi
  have hlt := List.mem_range.mp hi
  rw [blockRead, u64_of_lt (by omega), blockIndex_of_lt (by omega), blockIndex_of_lt (by omega)]

/-! ## Record layouts -/

def kfsMagic : ℕ := 0x1ba7ba
def kfsSlotsBitmapMagic : ℕ := 0x1a77e
def kfsSlotsTableMagic : ℕ := 0xdecaf
def kfsSinodeBitmapMagic : ℕ := 0xbad50da
def kfsSinodeTableMagic : ℕ := 0x00cafe
def kfsBlockmapMagic : ℕ := 0xc001beb

def kfsEntriesRoot : ℕ := 0x000001
def kfsEntriesLeaf : ℕ := 0x000004

/-! `kfs_extent_header_t`. -/

namespace ExtentHeader

def size : ℕ := 32
def eh_magic : CField := ⟨0, 4⟩
def eh_entries_in_use : CField := ⟨4, 4⟩
def eh_entries_capacity : CField := ⟨8, 4⟩
def eh_flags : CField := ⟨12, 2⟩

end ExtentHeader

/-! `kfs_extent_t`. -/

namespace Extent

def size : ℕ := 16
def ee_block_addr : CField := ⟨0, 8⟩
def ee_block_size : CField := ⟨8, 2⟩
def ee_log_size : CField := ⟨10, 2⟩
def ee_log_addr : CField := ⟨12, 4⟩

end Extent

/-! `kfs_slot_t`. -/

namespace Slot

def size : ℕ := 40
def slot_id : CField := ⟨0, 8⟩
def slot_flags : CField := ⟨34, 2⟩

end Slot

/-! `kfs_sinode_t`. -/

namespace Sinode

def size : ℕ := 96
def si_id : CField := ⟨0, 8⟩
def si_a_time : CField := ⟨40, 8⟩
def si_c_time : CField := ⟨48, 8⟩
def si_m_time : CField := ⟨56, 8⟩
def si_slot_id : CField := ⟨64, 8⟩

end Sinode

/-! `kfs_table_t`. -/

namespace Table

def capacity : CField := ⟨0, 8⟩
def in_use : CField := ⟨8, 8⟩
def bitmap_extent : ℕ := 16
def table_extent : ℕ := 32

end Table

/-! `kfs_superblock_t`, with `kfs_file_header_t` at its start. -/

namespace Superblock

def size : ℕ := 224
def kfs_magic : CField := ⟨0, 4⟩
def kfs_stg_magic : CField := ⟨4, 4⟩
def key : CField := ⟨8, 8⟩
def version : CField := ⟨16, 8⟩
def sb_magic : CField := ⟨24, 4⟩
def sb_flags : CField := ⟨28, 4⟩
def sb_root_super_inode : CField := ⟨32, 8⟩
def sb_blocksize : CField := ⟨40, 8⟩
def sb_si_table : ℕ := 48
def sb_slot_table : ℕ := 96
def sb_blockmap : ℕ := 144
def sb_c_time : CField := ⟨192, 8⟩
def sb_m_time : CField := ⟨200, 8⟩
def sb_a_time : CField := ⟨208, 8⟩
def dev : CField := ⟨216, 4⟩

end Superblock

end KanekFs
