import KanekFs.Mkfs.Build

/-!
# The run of the builders

What a run of `buildFilesystem` writes and what it leaves in the block map, for any layout
whose extents lie inside the file (`InRange`); whether they overlap does not matter here.

* `regions` are the six extents of a layout; `buildFilesystem_spec` says the run has a
  result and writes exactly these blocks.
* `MapState` describes the block map between two builders by the set of its marked blocks
  and the number of counted ones. `markBlocks_spec` is the step, the six steps of a run are
  put together in `buildFilesystem_spec`.
-/

namespace KanekFs.Mkfs

open Bytes Word Map

/-! ## Regions -/

/-- A run of consecutive blocks. -/
structure Region where
  addr : ℕ
  blocks : ℕ

namespace Region

def addrs (r : Region) : List ℕ := List.range' r.addr r.blocks

/-- Block `k` belongs to the region. -/
def Has (r : Region) (k : ℕ) : Prop := r.addr ≤ k ∧ k < r.addr + r.blocks

/-- Block `k` belongs to the part of the region that `bm_set_extent` marks. -/
def Marks (r : Region) (k : ℕ) : Prop :=
  r.addr ≤ k ∧ k < r.addr + markedBits r.addr r.blocks

/-- One region ends where the other begins, or before. -/
def Apart (r s : Region) : Prop := r.addr + r.blocks ≤ s.addr ∨ s.addr + s.blocks ≤ r.addr

instance (r s : Region) : Decidable (r.Apart s) := inferInstanceAs (Decidable (_ ∨ _))

instance : Std.Symm Apart := ⟨fun _ _ h => Or.symm h⟩

@[simp] lemma mem_addrs {r : Region} {k : ℕ} : k ∈ r.addrs ↔ r.Has k :=
  List.mem_range'_1

@[simp] lemma length_addrs (r : Region) : r.addrs.length = r.blocks := List.length_range'

lemma Apart.disjoint {r s : Region} (h : r.Apart s) : r.addrs.Disjoint s.addrs := by
  intro k hr hs
  rw [mem_addrs, Has] at hr hs
  rcases h with h | h <;> omega

end Region

/-- The extents of a layout, in the order in which they are written. -/
def regions (bc : BlocksCalc) : List Region :=
  [⟨0, 1⟩,
   ⟨1, bc.out_sinodes_table_in_blocks⟩,
   ⟨sinodeMapBlock bc, bc.out_sinodes_bitmap_blocks_num⟩,
   ⟨slotTableBlock bc, bc.out_slots_table_in_blocks⟩,
   ⟨slotMapBlock bc, bc.out_slots_bitmap_blocks_num⟩,
   ⟨fsMapBlock bc, bc.out_bitmap_size_in_blocks⟩]

/-- The blocks of all extents together. -/
def regionBlocks (bc : BlocksCalc) : ℕ := ((regions bc).map Region.blocks).sum

/-- The extents are nonempty and lie inside the file, and the block map has a bit for every
block. -/
structure InRange (bc : BlocksCalc) : Prop where
  sinodes : 1 ≤ bc.out_sinodes_table_in_blocks
  slots : 1 ≤ bc.out_slots_table_in_blocks
  sinodes_map : 1 ≤ bc.out_sinodes_bitmap_blocks_num
  slots_map : 1 ≤ bc.out_slots_bitmap_blocks_num
  block_map : 1 ≤ bc.out_bitmap_size_in_blocks
  tables : 1 + bc.out_sinodes_table_in_blocks + bc.out_slots_table_in_blocks ≤
    bc.in_file_size_in_blocks
  bitmaps : bc.out_sinodes_bitmap_blocks_num + bc.out_slots_bitmap_blocks_num +
    bc.out_bitmap_size_in_blocks ≤ bc.in_file_size_in_blocks
  cover : bc.in_file_size_in_blocks ≤ 65280 * bc.out_bitmap_size_in_blocks
  small : bc.in_file_size_in_blocks < 2 ^ 51

/-- Bitmaps that fit the file stand at its end, one before the other. -/
lemma mapBlocks_eq {bc : BlocksCalc} (hbitmaps : bc.out_sinodes_bitmap_blocks_num +
      bc.out_slots_bitmap_blocks_num + bc.out_bitmap_size_in_blocks ≤ bc.in_file_size_in_blocks)
    (hsmall : bc.in_file_size_in_blocks < 2 ^ 51) :
    fsMapBlock bc = bc.in_file_size_in_blocks - bc.out_bitmap_size_in_blocks ∧
    slotMapBlock bc = bc.in_file_size_in_blocks - bc.out_bitmap_size_in_blocks -
      bc.out_slots_bitmap_blocks_num ∧
    sinodeMapBlock bc = bc.in_file_size_in_blocks - bc.out_bitmap_size_in_blocks -
      bc.out_slots_bitmap_blocks_num - bc.out_sinodes_bitmap_blocks_num := by
  have hfs : fsMapBlock bc = bc.in_file_size_in_blocks - bc.out_bitmap_size_in_blocks :=
    sub64_of_le (by omega) (by omega)
  have hslot : slotMapBlock bc = bc.in_file_size_in_blocks - bc.out_bitmap_size_in_blocks -
      bc.out_slots_bitmap_blocks_num := by
    rw [slotMapBlock, hfs]
    exact sub64_of_le (by omega) (by omega)
  refine ⟨hfs, hslot, ?_⟩
  rw [sinodeMapBlock, hslot]
  exact sub64_of_le (by omega) (by omega)

namespace InRange

variable {bc : BlocksCalc} (h : InRange bc)
include h

lemma fsMapBlock_eq : fsMapBlock bc = bc.in_file_size_in_blocks - bc.out_bitmap_size_in_blocks :=
  (mapBlocks_eq h.bitmaps h.small).1

lemma slotMapBlock_eq : slotMapBlock bc = bc.in_file_size_in_blocks -
    bc.out_bitmap_size_in_blocks - bc.out_slots_bitmap_blocks_num :=
  (mapBlocks_eq h.bitmaps h.small).2.1

lemma sinodeMapBlock_eq : sinodeMapBlock bc = bc.in_file_size_in_blocks -
    bc.out_bitmap_size_in_blocks - bc.out_slots_bitmap_blocks_num -
    bc.out_sinodes_bitmap_blocks_num :=
  (mapBlocks_eq h.bitmaps h.small).2.2

lemma slotTableBlock_eq : slotTableBlock bc = 1 + bc.out_sinodes_table_in_blocks := by
  have ht := h.tables
  have hs := h.small
  rw [slotTableBlock, u64_of_lt (by omega), Nat.add_comm]

/-- Every extent is a nonempty part of the file. -/
lemma region_fits {r : Region} (hr : r ∈ regions bc) :
    1 ≤ r.blocks ∧ r.addr + r.blocks ≤ bc.in_file_size_in_blocks := by
  -- `omega` needs the addresses without their wraps
  rcases id h with ⟨hsi, hsl, hsim, hslm, hbm, ht, hb, -, -⟩
  simp only [regions, h.fsMapBlock_eq, h.slotMapBlock_eq, h.sinodeMapBlock_eq,
    h.slotTableBlock_eq, List.mem_cons, List.not_mem_nil, or_false] at hr
  rcases hr with rfl | rfl | rfl | rfl | rfl | rfl <;> simp only <;> omega

/-- Extents that fit into the file together do not overlap: the tables grow upward, the
bitmaps downward. -/
lemma regions_apart (hfit : regionBlocks bc ≤ bc.in_file_size_in_blocks) :
    (regions bc).Pairwise Region.Apart := by
  rcases id h with ⟨hsi, hsl, hsim, hslm, hbm, ht, hb, -, -⟩
  simp only [regionBlocks, regions, List.map_cons, List.map_nil, List.sum_cons,
    List.sum_nil] at hfit
  simp only [regions, h.fsMapBlock_eq, h.slotMapBlock_eq, h.sinodeMapBlock_eq,
    h.slotTableBlock_eq, List.pairwise_cons, List.forall_mem_cons, List.not_mem_nil,
    false_implies, implies_true, and_true, List.Pairwise.nil, Region.Apart]
  refine ⟨⟨?_, ?_, ?_, ?_, ?_⟩, ⟨?_, ?_, ?_, ?_⟩, ⟨?_, ?_, ?_⟩, ⟨?_, ?_⟩, ?_⟩ <;> omega

end InRange

/-- No block belongs to two of the extents. -/
lemma nodup_region_addrs {bc : BlocksCalc} (happart : (regions bc).Pairwise Region.Apart) :
    ((regions bc).map Region.addrs).flatten.Nodup := by
  rw [List.nodup_flatten]
  refine ⟨?_, List.Pairwise.map _ (fun _ _ hrs => hrs.disjoint) happart⟩
  intro l hl
  -- an extent is a range of consecutive blocks
  rcases List.mem_map.mp hl with ⟨r, -, rfl⟩
  exact List.nodup_range'

/-! ## The block map between two builders -/

/-- The block map has the blocks of `S` marked and `count` blocks counted, in 32 bits. -/
structure MapState (bc : BlocksCalc) (map : List Byte) (S : ℕ → Prop) (count : ℕ) : Prop where
  length_eq : map.length = kfsBlocksize * bc.out_bitmap_size_in_blocks
  bit : ∀ k, bitAt (bitmapOf map) k = true ↔ S k
  count_eq : ExtentHeader.eh_entries_in_use.get map = count % 2 ^ 32
  magic_eq : ExtentHeader.eh_magic.get map = kfsBlockmapMagic

/-- Storing into the header leaves the bitmap behind it alone. -/
lemma bitmapOf_put {f : CField} (p : List Byte) (v : ℕ)
    (hf : f.off + f.width ≤ ExtentHeader.size) : bitmapOf (f.put p v) = bitmapOf p := by
  apply ext_bitAt
  · simp [bitmapOf]
  · intro k
    -- a byte of the bitmap is a byte behind the header
    unfold bitmapOf
    rw [bitAt_drop, bitAt_drop, bitAt, bitAt, CField.put, getD_storeLE_of_disjoint]
    right
    omega

lemma bitmapOf_putAll (p : List Byte) {l : List (CField × ℕ)}
    (hl : ∀ f ∈ l.map Prod.fst, f.off + f.width ≤ ExtentHeader.size) :
    bitmapOf (CField.putAll p l) = bitmapOf p := by
  induction l generalizing p with
  | nil => rfl
  | cons fv l ih =>
    have hhead := bitmapOf_put p fv.2 (hl fv.1 (by simp))
    have htail := ih (fv.1.put p fv.2) fun f hf => hl f (by simp [hf])
    exact htail.trans hhead

/-- A change of the bitmap leaves the header before it alone. -/
lemma get_take_append {f : CField} {p bitmap : List Byte}
    (hf : f.off + f.width ≤ ExtentHeader.size) (hp : ExtentHeader.size ≤ p.length) :
    f.get (p.take ExtentHeader.size ++ bitmap) = f.get p := by
  apply loadLE_congr
  intro i _ hi
  have hlt : i < ExtentHeader.size := by omega
  have htake : i < (p.take ExtentHeader.size).length := by
    rw [List.length_take]
    omega
  -- both buffers agree on the bytes of the header
  rw [List.getD_eq_getElem?_getD, List.getD_eq_getElem?_getD, List.getElem?_append_left htake,
    List.getElem?_take_of_lt hlt]

/-- What `onBitmap` does, given what the bitmap function does. -/
lemma onBitmap_spec {p bitmap : List Byte} {rc : ℤ} {f : List Byte → Option (ℤ × List Byte)}
    (hf : f (bitmapOf p) = some (rc, bitmap)) (hlen : bitmap.length = (bitmapOf p).length)
    (hp : ExtentHeader.size ≤ p.length) :
    ∃ p', onBitmap p f = some p' ∧ p'.length = p.length ∧ bitmapOf p' = bitmap ∧
      ∀ g : CField, g.off + g.width ≤ ExtentHeader.size → g.get p' = g.get p := by
  refine ⟨p.take ExtentHeader.size ++ bitmap, ?_, ?_, ?_, ?_⟩
  · simp [onBitmap, hf]
  · rw [List.length_append, hlen, bitmapOf, List.length_take, List.length_drop]
    omega
  · -- behind the header the bitmap takes over
    have htake : (p.take ExtentHeader.size).length = ExtentHeader.size := by
      rw [List.length_take]
      omega
    exact List.drop_left' htake
  · intro g hg
    exact get_take_append hg hp

section MapState

variable {bc : BlocksCalc} {map : List Byte} {S : ℕ → Prop} {count addr n : ℕ}

lemma MapState.congr {S' : ℕ → Prop} (hm : MapState bc map S count) (hS : ∀ k, S k ↔ S' k) :
    MapState bc map S' count :=
  { hm with bit := fun k => (hm.bit k).trans (hS k) }

lemma MapState.length_bitmapOf (hm : MapState bc map S count) (hrange : InRange bc) :
    bc.in_file_size_in_blocks ≤ 8 * (bitmapOf map).length := by
  have hlen := hm.length_eq
  have hcover := hrange.cover
  have hpos := hrange.block_map
  unfold kfsBlocksize at hlen
  rw [bitmapOf, List.length_drop, ExtentHeader.size]
  omega

/-- **The step of a builder**: it marks an extent, up to the bit that `bm_set_extent` loses,
and counts all of it. -/
theorem markBlocks_spec (hm : MapState bc map S count) (hrange : InRange bc) (hpos : 1 ≤ n)
    (hfit : addr + n ≤ bc.in_file_size_in_blocks) :
    ∃ map', markBlocks bc map addr n = some map' ∧
      MapState bc map' (fun k => S k ∨ Region.Marks ⟨addr, n⟩ k) (count + n) := by
  have hcov := hm.length_bitmapOf hrange
  have hsmall := hrange.small
  have hlen : ExtentHeader.size ≤ map.length := by
    have := hm.length_eq
    have := hrange.block_map
    unfold ExtentHeader.size kfsBlocksize at *
    omega
  -- what `bm_set_extent` does to the bitmap decides the new state of the map
  rcases bmSetExtent_spec hcov (by omega) hpos hfit (Or.inr rfl) with ⟨bitmap, hset, hrange'⟩
  obtain ⟨map₁, hmap₁, hlen₁, hbits₁, hget₁⟩ := onBitmap_spec
    (f := fun bitmap => bmSetExtent bitmap bc.in_file_size_in_blocks addr n 1)
    hset hrange'.length_eq hlen
  have hheader : ExtentHeader.eh_entries_in_use.off + ExtentHeader.eh_entries_in_use.width ≤
      ExtentHeader.size := by decide
  refine ⟨ExtentHeader.eh_entries_in_use.put map₁
    (ExtentHeader.eh_entries_in_use.get map₁ + n), ?_, ?_⟩
  · simp [markBlocks, hmap₁]
  · exact
      { length_eq := by rw [CField.length_put, hlen₁, hm.length_eq]
        bit := by
          intro k
          rw [bitmapOf_put _ _ hheader, hbits₁, hrange'.bit, Region.Marks]
          by_cases hk : addr ≤ k ∧ k < addr + markedBits addr n
          · simp [hk]
          · rw [if_neg hk, hm.bit]
            simp [hk]
        -- the counter gets the whole length, whatever was marked
        count_eq := by
          rw [CField.get_put_same _ (by rw [hlen₁]; exact hheader.trans hlen),
            hget₁ _ hheader, hm.count_eq, show 256 ^ ExtentHeader.eh_entries_in_use.width =
              2 ^ 32 by decide, Nat.mod_add_mod]
        magic_eq := by
          rw [CField.get_put_of_apart _ _ (by decide), hget₁ _ (by decide), hm.magic_eq] }

end MapState

/-- The assignments to an extent header are to disjoint fields. -/
lemma headerFields_apart (magic in_use capacity : ℕ) :
    ((headerFields magic in_use capacity).map Prod.fst).Pairwise CField.Apart := by
  have hfields : (headerFields magic in_use capacity).map Prod.fst =
      [ExtentHeader.eh_magic, ExtentHeader.eh_entries_in_use, ExtentHeader.eh_entries_capacity,
       ExtentHeader.eh_flags] := rfl
  rw [hfields]
  decide

lemma get_magic_putAll_headerFields {p : List Byte} (magic in_use capacity : ℕ)
    (hp : 4 ≤ p.length) :
    ExtentHeader.eh_magic.get (CField.putAll p (headerFields magic in_use capacity)) =
      magic % 2 ^ 32 :=
  CField.get_putAll (headerFields_apart _ _ _) (by simp [headerFields]) hp

/-- The zeroed map with its header: nothing is marked. -/
theorem buildMap_spec {bc : BlocksCalc} (hrange : InRange bc) :
    ∃ map, buildMap bc = some map ∧ MapState bc map (fun k => Region.Marks ⟨0, 1⟩ k) 1 := by
  have hpos := hrange.block_map
  have hcover := hrange.cover
  have htables := hrange.tables
  let p := CField.putAll (pagesAlloc bc.out_bitmap_size_in_blocks)
    (headerFields kfsBlockmapMagic 0 bc.in_file_size_in_blocks)
  have hlen : p.length = kfsBlocksize * bc.out_bitmap_size_in_blocks := by simp [p]
  have hsize : ExtentHeader.size ≤ p.length := by
    rw [hlen]
    unfold ExtentHeader.size kfsBlocksize
    omega
  have hbitmap : bitmapOf p = (pagesAlloc bc.out_bitmap_size_in_blocks).drop ExtentHeader.size := by
    apply bitmapOf_putAll
    -- the fields of the header all end before the bitmap
    intro f hf
    simp only [headerFields, List.map_cons, List.map_nil, List.mem_cons, List.not_mem_nil,
      or_false] at hf
    rcases hf with rfl | rfl | rfl | rfl <;> decide
  have hclear : ∀ k, bitAt (bitmapOf p) k = false := by
    intro k
    rw [hbitmap, bitAt_drop, pagesAlloc, bitAt_replicate_zero]
  have hcov : bc.in_file_size_in_blocks ≤ 8 * (bitmapOf p).length := by
    unfold kfsBlocksize at hlen
    rw [bitmapOf, List.length_drop, ExtentHeader.size]
    omega
  -- bit 0, the superblock, is in the map
  obtain ⟨bitmap, hset, hone⟩ :=
    bmSetBit_spec (bitmapOf p) bc.in_file_size_in_blocks 0 1 hcov (by omega)
  obtain ⟨p₁, hp₁, hlen₁, hbits₁, hget₁⟩ := onBitmap_spec
    (f := fun bitmap => bmSetBit bitmap bc.in_file_size_in_blocks 0 1) hset hone.length_eq hsize
  have hheader : ExtentHeader.eh_entries_in_use.off + ExtentHeader.eh_entries_in_use.width ≤
      ExtentHeader.size := by decide
  refine ⟨ExtentHeader.eh_entries_in_use.put p₁ 1, ?_, ?_⟩
  · simp [buildMap, p, hp₁]
  · exact
      { length_eq := by rw [CField.length_put, hlen₁, hlen]
        bit := by
          intro k
          rw [bitmapOf_put _ _ hheader, hbits₁, hone.bit, hclear]
          simp [Region.Marks, markedBits]
        count_eq := by
          rw [CField.get_put_same _ (by rw [hlen₁]; exact hheader.trans hsize)]
          decide
        magic_eq := by
          rw [CField.get_put_of_apart _ _ (by decide), hget₁ _ (by decide),
            get_magic_putAll_headerFields _ _ _ (by
              rw [length_pagesAlloc, kfsBlocksize]; omega)]
          decide }

/-! ## The tables and the item bitmaps -/

lemma tableBlocks_addrs (id : CField) (size per_block n : ℕ) (p : List Byte) (block_num num : ℕ) :
    (tableBlocks id size per_block n p block_num num).map Write.addr =
      List.range' block_num n := by
  induction n generalizing p block_num num with
  | zero => rfl
  | succ n ih => rw [tableBlocks, List.map_cons, ih, List.range'_succ]

/-- The first block of a table is written apart from the others. -/
lemma table_addrs (id : CField) (size per_block num : ℕ) (p : List Byte) {addr n : ℕ}
    (hn : 1 ≤ n) :
    ((⟨addr, p⟩ : Write) :: tableBlocks id size per_block (n - 1) p (addr + 1) num).map Write.addr =
      Region.addrs ⟨addr, n⟩ := by
  obtain ⟨k, rfl⟩ : ∃ k, n = k + 1 := ⟨_, (Nat.sub_add_cancel hn).symm⟩
  rw [List.map_cons, tableBlocks_addrs, Region.addrs, List.range'_succ]
  rfl

/-- `build_sinodes` counts the blocks from 2 up to the end of the table. -/
lemma sinodesTable_eq {bc : BlocksCalc} (current_time : ℕ)
    (hlim : 1 + bc.out_sinodes_table_in_blocks < 2 ^ 64) :
    sinodesTable bc current_time = ⟨1, sinodesFirstBlock bc current_time⟩ ::
      tableBlocks Sinode.si_id Sinode.size bc.out_sinodes_per_block
        (bc.out_sinodes_table_in_blocks - 1) (sinodesFirstBlock bc current_time) 2
        (max bc.out_sinodes_per_block 1) := by
  have hrest : 1 + bc.out_sinodes_table_in_blocks - 2 = bc.out_sinodes_table_in_blocks - 1 := by
    omega
  rw [sinodesTable, u64_of_lt hlim, hrest]

/-- `build_slots` counts from the block behind the first. -/
lemma slotsTable_eq {bc : BlocksCalc} (hpos : 1 ≤ bc.out_slots_table_in_blocks)
    (hlim : slotTableBlock bc + bc.out_slots_table_in_blocks < 2 ^ 64) :
    slotsTable bc = ⟨slotTableBlock bc, slotsFirstBlock bc⟩ ::
      tableBlocks Slot.slot_id Slot.size bc.out_slots_per_block (bc.out_slots_table_in_blocks - 1)
        (slotsFirstBlock bc) (slotTableBlock bc + 1) bc.out_slots_per_block := by
  have hrest : slotTableBlock bc + bc.out_slots_table_in_blocks - (slotTableBlock bc + 1) =
      bc.out_slots_table_in_blocks - 1 := by omega
  rw [slotsTable, u64_of_lt hlim, u64_of_lt (by omega), hrest]

section Extents

variable {bc : BlocksCalc} (h : InRange bc)
include h

lemma sinodesTable_addrs (current_time : ℕ) :
    (sinodesTable bc current_time).map Write.addr =
      Region.addrs ⟨1, bc.out_sinodes_table_in_blocks⟩ := by
  have ht := h.tables
  have hs := h.small
  rw [sinodesTable_eq current_time (by omega)]
  exact table_addrs _ _ _ _ _ h.sinodes

lemma slotsTable_addrs :
    (slotsTable bc).map Write.addr =
      Region.addrs ⟨slotTableBlock bc, bc.out_slots_table_in_blocks⟩ := by
  have ht := h.tables
  have hs := h.small
  have haddr := h.slotTableBlock_eq
  rw [slotsTable_eq h.slots (by omega)]
  exact table_addrs _ _ _ _ _ h.slots

/-- The bitmap of the super inodes: its header and the bit of the root super inode. -/
lemma sinodesBitmap_spec :
    ∃ p, sinodesBitmap bc =
        some (writeBlocks p (sinodeMapBlock bc) bc.out_sinodes_bitmap_blocks_num) ∧
      p.length = kfsBlocksize * bc.out_sinodes_bitmap_blocks_num ∧
      ExtentHeader.eh_magic.get p = kfsSinodeBitmapMagic := by
  have hpos := h.sinodes_map
  let p := CField.putAll (fill (pagesAlloc bc.out_sinodes_bitmap_blocks_num) 0 kfsBlocksize 0#8)
    (headerFields kfsSinodeBitmapMagic 1 bc.out_sinodes_num)
  have hlen : p.length = kfsBlocksize * bc.out_sinodes_bitmap_blocks_num := by simp [p]
  have hsize : ExtentHeader.size + 1 ≤ p.length := by
    rw [hlen]
    unfold ExtentHeader.size kfsBlocksize
    omega
  have hfirst : 0 < (bitmapOf p).length := by
    rw [bitmapOf, List.length_drop]
    omega
  obtain ⟨rc, bitmap, hset, hlen'⟩ : ∃ rc bitmap,
      bmSetBit (bitmapOf p) bc.out_sinodes_num 0 1 = some (rc, bitmap) ∧
        bitmap.length = (bitmapOf p).length := by
    -- the function has a result whether or not the table has a super inode
    unfold bmSetBit
    split
    · exact ⟨_, _, rfl, rfl⟩
    · rw [show 0 / 8 = 0 from rfl, List.getElem?_eq_getElem hfirst]
      exact ⟨_, _, rfl, List.length_set⟩
  obtain ⟨p₁, hp₁, hlen₁, -, hget₁⟩ := onBitmap_spec
    (f := fun bitmap => bmSetBit bitmap bc.out_sinodes_num 0 1) hset hlen' (by omega)
  refine ⟨p₁, ?_, hlen₁.trans hlen, ?_⟩
  · simp [sinodesBitmap, p, hp₁]
  · rw [hget₁ _ (by decide), get_magic_putAll_headerFields _ _ _ (by
      rw [length_fill, length_pagesAlloc, kfsBlocksize]; omega)]
    decide

/-! ## The run -/

variable (bc) in
/-- What the builders write when the bitmap of the super inodes is `p` and the block map that
they leave is `map`. -/
def written (sb_time sinodes_time : ℕ) (p map : List Byte) : Written where
  superblock := buildSuperblock bc sb_time
  sinodes := ⟨sinodesTable bc sinodes_time,
    writeBlocks p (sinodeMapBlock bc) bc.out_sinodes_bitmap_blocks_num⟩
  slots := ⟨slotsTable bc, slotsBitmap bc⟩
  block_map := writeBlocks map (fsMapBlock bc) bc.out_bitmap_size_in_blocks

/-- **The run of the builders** has a result for every layout inside the file. It writes the
blocks of the six extents, and the block map it writes out has these extents marked, up to
the bits that `bm_set_extent` loses, and all their blocks counted. -/
theorem buildFilesystem_spec (sb_time sinodes_time : ℕ) :
    ∃ p map, buildFilesystem bc sb_time sinodes_time =
        some (written bc sb_time sinodes_time p map) ∧
      ExtentHeader.eh_magic.get p = kfsSinodeBitmapMagic ∧
      MapState bc map (fun k => ∃ r ∈ regions bc, r.Marks k) (regionBlocks bc) := by
  -- each extent is nonempty and inside the file, so each mark is a step of `markBlocks_spec`
  have hfits := fun r hr => h.region_fits (r := r) hr
  simp only [regions, List.forall_mem_cons, List.not_mem_nil, false_implies, implies_true,
    and_true] at hfits
  rcases hfits with ⟨-, ⟨hsi, hsi'⟩, ⟨hsim, hsim'⟩, ⟨hsl, hsl'⟩, ⟨hslm, hslm'⟩, ⟨hbm, hbm'⟩⟩
  rcases sinodesBitmap_spec h with ⟨p, hp, -, hmagic⟩
  rcases buildMap_spec h with ⟨map₀, hmap₀, hm₀⟩
  rcases markBlocks_spec hm₀ h hsi hsi' with ⟨map₁, hmap₁, hm₁⟩
  rcases markBlocks_spec hm₁ h hsim hsim' with ⟨map₂, hmap₂, hm₂⟩
  rcases markBlocks_spec hm₂ h hsl hsl' with ⟨map₃, hmap₃, hm₃⟩
  rcases markBlocks_spec hm₃ h hslm hslm' with ⟨map₄, hmap₄, hm₄⟩
  rcases markBlocks_spec hm₄ h hbm hbm' with ⟨map₅, hmap₅, hm₅⟩
  refine ⟨p, map₅, ?_, hmagic, ?_⟩
  · simp [buildFilesystem, buildSinodes, buildSlots, writeMap, written, hp, hmap₀, hmap₁, hmap₂,
      hmap₃, hmap₄, hmap₅]
  · -- the six steps have counted the blocks of the six extents
    have hcount : regionBlocks bc = 1 + bc.out_sinodes_table_in_blocks +
        bc.out_sinodes_bitmap_blocks_num + bc.out_slots_table_in_blocks +
        bc.out_slots_bitmap_blocks_num + bc.out_bitmap_size_in_blocks := by
      simp only [regionBlocks, regions, List.map_cons, List.map_nil, List.sum_cons, List.sum_nil]
      omega
    rw [hcount]
    apply hm₅.congr
    intro k
    simp only [regions, List.exists_mem_cons_iff, List.not_mem_nil, false_and, exists_false,
      or_false, or_assoc]

/-- The blocks that a run writes are the blocks of the extents, extent by extent. -/
lemma extents_addrs (sb_time sinodes_time : ℕ) (p map : List Byte) :
    (written bc sb_time sinodes_time p map).extents.map (fun ws => ws.map Write.addr) =
      (regions bc).map Region.addrs := by
  have hsmall := h.small
  -- a bitmap is written block by block
  have hwrite : ∀ (p : List Byte) (addr n : ℕ), (⟨addr, n⟩ : Region) ∈ regions bc →
      (writeBlocks p addr n).map Write.addr = Region.addrs ⟨addr, n⟩ := by
    intro p addr n hr
    have hfits := (h.region_fits hr).2
    exact writeBlocks_addrs p (by simp only at hfits; omega)
  simp only [written, Written.extents, regions, List.map_cons, List.map_nil]
  rw [sinodesTable_addrs h, slotsTable_addrs h, slotsBitmap,
    hwrite _ _ _ (by simp [regions]), hwrite _ _ _ (by simp [regions]),
    hwrite _ _ _ (by simp [regions])]
  rfl

/-- A run over disjoint extents writes every block once. -/
lemma nodup_written (happart : (regions bc).Pairwise Region.Apart) (sb_time sinodes_time : ℕ)
    (p map : List Byte) :
    ((written bc sb_time sinodes_time p map).all.map fun w => blockIndex w.addr).Nodup := by
  -- the blocks are those of the extents, and these are apart
  have haddrs : (written bc sb_time sinodes_time p map).all.map Write.addr =
      ((regions bc).map Region.addrs).flatten := by
    rw [Written.all, List.map_flatten, extents_addrs h]
  apply nodup_blockIndex
  · rw [haddrs]
    exact nodup_region_addrs happart
  · intro k hk
    rw [haddrs, List.mem_flatten] at hk
    rcases hk with ⟨l, hl, hk⟩
    rcases List.mem_map.mp hl with ⟨r, hr, rfl⟩
    have hin := Region.mem_addrs.mp hk
    have hend := (h.region_fits hr).2
    have hsmall := h.small
    unfold Region.Has at hin
    omega

end Extents

end KanekFs.Mkfs
