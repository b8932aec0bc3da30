import KanekFs.Super.Codec

/-!
# Encoding the superblock

`ex_2_kfsex` and `sb_to_kfssb` of `kfs_super.c`, and what `kfssb_to_sb` makes of the page they
leave.

* `kfssbToSb_sbToKfssb` is the exact outcome for any `__sb`: every member is cut to the field
  that stores it, and `sb_magic` and `sb_c_time` are those of the page.
* `codec_round_trip` is the case of a superblock that was decoded from the page and changed
  within the ranges of its types.
-/

namespace KanekFs.Super

open Bytes Mkfs

/-! ## Definitions -/

/-- The assignments of `ex_2_kfsex` to the on-disk record at `base`. -/
def ex2Kfsex (base : ℕ) (ex : Ex) : List (CField × ℕ) :=
  extentFields base ex.ex_block_addr ex.ex_block_size ex.ex_log_size ex.ex_log_addr

/-- What `sb_to_kfssb` does for each of the three tables. -/
def tableToKfstable (base : ℕ) (t : Tbl) : List (CField × ℕ) :=
  [(Table.capacity.shift base, t.capacity), (Table.in_use.shift base, t.in_use)] ++
    ex2Kfsex (base + Table.table_extent) t.table_extent ++
    ex2Kfsex (base + Table.bitmap_extent) t.bitmap_extent

/-- The assignments of `sb_to_kfssb` to the page. -/
def kfssbFields (sb : Sb) (now : ℕ) : List (CField × ℕ) :=
  [(Superblock.sb_m_time, now),
   (Superblock.sb_a_time, now),
   (Superblock.sb_root_super_inode, sb.sb_root_super_inode),
   (Superblock.sb_flags, sb.sb_flags)] ++
  tableToKfstable Superblock.sb_si_table sb.sb_si_table ++
  tableToKfstable Superblock.sb_slot_table sb.sb_slot_table ++
  tableToKfstable Superblock.sb_blockmap sb.sb_blockmap

/-- `sb_to_kfssb`: the page, and `__sb` with the new times. -/
def sbToKfssb (ksb : List Byte) (sb : Sb) (now : ℕ) : List Byte × Sb :=
  (CField.putAll ksb (kfssbFields sb now), { sb with sb_m_time := now, sb_a_time := now })

/-! ## Ranges

The members of the structures in memory are 64-bit words, except the sizes and the logical
address of an extent. `sb_flags` has 64 bits in memory and 32 on the disk. -/

/-- Each member is in the range of its type. -/
structure Ex.Typed (ex : Ex) : Prop where
  block_addr : ex.ex_block_addr < 2 ^ 64
  block_size : ex.ex_block_size < 2 ^ 16
  log_size : ex.ex_log_size < 2 ^ 16
  log_addr : ex.ex_log_addr < 2 ^ 32

structure Tbl.Typed (t : Tbl) : Prop where
  capacity : t.capacity < 2 ^ 64
  in_use : t.in_use < 2 ^ 64
  bitmap_extent : t.bitmap_extent.Typed
  table_extent : t.table_extent.Typed

structure Sb.Typed (sb : Sb) : Prop where
  root : sb.sb_root_super_inode < 2 ^ 64
  si_table : sb.sb_si_table.Typed
  slot_table : sb.sb_slot_table.Typed
  blockmap : sb.sb_blockmap.Typed

lemma typed_kfsex2Ex (p : List Byte) (base : ℕ) : (kfsex2Ex p base).Typed :=
  ⟨CField.get_lt _ p, CField.get_lt _ p, CField.get_lt _ p, CField.get_lt _ p⟩

lemma typed_kfstableToTable (p : List Byte) (base : ℕ) : (kfstableToTable p base).Typed :=
  ⟨CField.get_lt _ p, CField.get_lt _ p, typed_kfsex2Ex p _, typed_kfsex2Ex p _⟩

/-- What is decoded from a page is in range, whatever the page holds. -/
lemma typed_kfssbToSb (p : List Byte) : (kfssbToSb p).Typed :=
  ⟨CField.get_lt _ p, typed_kfstableToTable p _, typed_kfstableToTable p _,
    typed_kfstableToTable p _⟩

/-! ## The page after `sb_to_kfssb` -/

section Page

variable {ksb : List Byte} {sb : Sb} {now : ℕ}

/-- The fields that are assigned do not depend on `__sb`. -/
lemma kfssbFields_fst (sb : Sb) (now : ℕ) :
    (kfssbFields sb now).map Prod.fst = (kfssbFields (kfssbToSb []) 0).map Prod.fst := by
  simp only [kfssbFields, tableToKfstable, ex2Kfsex, extentFields, List.map_append,
    List.map_cons, List.map_nil]

/-- `sb_to_kfssb` assigns every field once. -/
lemma kfssbFields_apart (sb : Sb) (now : ℕ) :
    ((kfssbFields sb now).map Prod.fst).Pairwise CField.Apart := by
  rw [kfssbFields_fst]
  decide +kernel

lemma sbToKfssb_fst : (sbToKfssb ksb sb now).1 = CField.putAll ksb (kfssbFields sb now) := by
  rw [sbToKfssb]

/-- An assigned field reads back as what it was given. -/
lemma get_sbToKfssb {f : CField} {v : ℕ} (hpage : Superblock.size ≤ ksb.length)
    (hmem : (f, v) ∈ kfssbFields sb now) (hf : f.off + f.width ≤ Superblock.size) :
    f.get (sbToKfssb ksb sb now).1 = v % 256 ^ f.width := by
  rw [sbToKfssb_fst]
  exact CField.get_putAll (kfssbFields_apart sb now) hmem (hf.trans hpage)

/-- The fields that `sb_to_kfssb` does not store: the file header, and those that are fixed when
the file system is made. -/
def keptFields : List CField :=
  [Superblock.kfs_magic, Superblock.kfs_stg_magic, Superblock.key, Superblock.version,
    Superblock.sb_magic, Superblock.sb_blocksize, Superblock.sb_c_time, Superblock.dev]

lemma get_sbToKfssb_of_kept {f : CField} (hf : f ∈ keptFields) :
    f.get (sbToKfssb ksb sb now).1 = f.get ksb := by
  have hapart : ∀ f ∈ keptFields, ∀ g ∈ (kfssbFields (kfssbToSb []) 0).map Prod.fst,
      f.Apart g := by decide +kernel
  rw [sbToKfssb_fst]
  apply CField.get_putAll_of_apart
  rw [kfssbFields_fst]
  exact hapart f hf

/-- An extent as it reads back. -/
lemma kfsex2Ex_sbToKfssb {base : ℕ} {ex : Ex} (hpage : Superblock.size ≤ ksb.length)
    (hmem : ∀ fv ∈ ex2Kfsex base ex, fv ∈ kfssbFields sb now)
    (hbase : base + Extent.size ≤ Superblock.size) (hex : ex.Typed) :
    kfsex2Ex (sbToKfssb ksb sb now).1 base = ex := by
  simp only [ex2Kfsex, extentFields, List.forall_mem_cons, List.not_mem_nil, false_implies,
    implies_true, and_true] at hmem
  rcases hmem with ⟨haddr, hsize, hlog, hladdr⟩
  have hend : ∀ f : CField, f.off + f.width ≤ Extent.size →
      (f.shift base).off + (f.shift base).width ≤ Superblock.size := by
    intro f hf
    simp only [CField.shift]
    omega
  rw [kfsex2Ex, get_sbToKfssb hpage haddr (hend _ (by decide)),
    get_sbToKfssb hpage hsize (hend _ (by decide)),
    get_sbToKfssb hpage hlog (hend _ (by decide)),
    get_sbToKfssb hpage hladdr (hend _ (by decide))]
  -- no member is cut by its field
  exact congr (congr (congr (congrArg Ex.mk (Nat.mod_eq_of_lt hex.block_addr))
    (Nat.mod_eq_of_lt hex.block_size)) (Nat.mod_eq_of_lt hex.log_size))
    (Nat.mod_eq_of_lt hex.log_addr)

/-- A table as it reads back. -/
lemma kfstableToTable_sbToKfssb {base : ℕ} {t : Tbl} (hpage : Superblock.size ≤ ksb.length)
    (hmem : ∀ fv ∈ tableToKfstable base t, fv ∈ kfssbFields sb now)
    (hbase : base + 48 ≤ Superblock.size) (ht : t.Typed) :
    kfstableToTable (sbToKfssb ksb sb now).1 base = t := by
  have hend : ∀ f : CField, f.off + f.width ≤ 16 →
      (f.shift base).off + (f.shift base).width ≤ Superblock.size := by
    intro f hf
    simp only [CField.shift]
    omega
  have htable : base + Table.table_extent + Extent.size ≤ Superblock.size := hbase
  have hbitmap : base + Table.bitmap_extent + Extent.size ≤ Superblock.size := by
    simp only [Table.bitmap_extent, Extent.size]
    omega
  rw [kfstableToTable,
    get_sbToKfssb hpage (hmem (Table.capacity.shift base, t.capacity) (by simp [tableToKfstable]))
      (hend _ (by decide)),
    get_sbToKfssb hpage (hmem (Table.in_use.shift base, t.in_use) (by simp [tableToKfstable]))
      (hend _ (by decide)),
    kfsex2Ex_sbToKfssb hpage (fun fv hfv => hmem fv (by simp [tableToKfstable, hfv])) hbitmap
      ht.bitmap_extent,
    kfsex2Ex_sbToKfssb hpage (fun fv hfv => hmem fv (by simp [tableToKfstable, hfv])) htable
      ht.table_extent]
  exact congr (congr (congr (congrArg Tbl.mk (Nat.mod_eq_of_lt ht.capacity))
    (Nat.mod_eq_of_lt ht.in_use)) rfl) rfl

/-- **Encoding and decoding**: every member comes back, `sb_flags` and the times cut to their
fields, and the magic and the creation time are those of the page. -/
theorem kfssbToSb_sbToKfssb (hpage : Superblock.size ≤ ksb.length) (hsb : sb.Typed) (now : ℕ) :
    kfssbToSb (sbToKfssb ksb sb now).1 =
      { sb with
        sb_magic := Superblock.sb_magic.get ksb
        sb_c_time := Superblock.sb_c_time.get ksb
        sb_m_time := now % 2 ^ 64
        sb_a_time := now % 2 ^ 64
        sb_flags := sb.sb_flags % 2 ^ 32 } := by
  rw [kfssbToSb, Sb.mk.injEq]
  refine ⟨?_, ?_, ?_, ?_, ?_, ?_, ?_, ?_, ?_⟩
  · exact get_sbToKfssb_of_kept (by decide)
  · exact (get_sbToKfssb hpage (v := sb.sb_root_super_inode) (by simp [kfssbFields])
      (by decide)).trans (Nat.mod_eq_of_lt hsb.root)
  · exact kfstableToTable_sbToKfssb hpage (fun fv hfv => by simp [kfssbFields, hfv])
      (by decide) hsb.si_table
  · exact kfstableToTable_sbToKfssb hpage (fun fv hfv => by simp [kfssbFields, hfv])
      (by decide) hsb.slot_table
  · exact kfstableToTable_sbToKfssb hpage (fun fv hfv => by simp [kfssbFields, hfv])
      (by decide) hsb.blockmap
  · exact get_sbToKfssb_of_kept (by decide)
  · exact get_sbToKfssb hpage (v := now) (by simp [kfssbFields]) (by decide)
  · exact get_sbToKfssb hpage (v := now) (by simp [kfssbFields]) (by decide)
  · exact get_sbToKfssb hpage (v := sb.sb_flags) (by simp [kfssbFields]) (by decide)

end Page

/-! ## Round trip -/

/-- **Round trip.** A superblock that was decoded from a page and then changed, within the
ranges of its types and with flags of 32 bits, is what the page decodes to after it was encoded
into it, up to the times of the encoding; and the encoding leaves the file header, the magic, the
block size, the creation time and the device of the page as they are. -/
theorem codec_round_trip {ksb : List Byte} (hpage : ksb.length = kfsBlocksize)
    {sb_flags sb_root_super_inode : ℕ} {sb_si_table sb_slot_table sb_blockmap : Tbl}
    (hflags : sb_flags < 2 ^ 32) (hroot : sb_root_super_inode < 2 ^ 64)
    (hsi : sb_si_table.Typed) (hslot : sb_slot_table.Typed) (hmap : sb_blockmap.Typed)
    (now : Fin (2 ^ 64)) :
    let sb := { kfssbToSb ksb with
      sb_flags, sb_root_super_inode, sb_si_table, sb_slot_table, sb_blockmap }
    let r := sbToKfssb ksb sb now
    kfssbToSb r.1 = { sb with sb_m_time := now, sb_a_time := now } ∧
      ∀ f ∈ keptFields, f.get r.1 = f.get ksb := by
  intro sb r
  have hfit : Superblock.size ≤ ksb.length := by
    rw [hpage]
    decide
  have htyped : sb.Typed := ⟨hroot, hsi, hslot, hmap⟩
  refine ⟨?_, fun f hf => get_sbToKfssb_of_kept hf⟩
  rw [kfssbToSb_sbToKfssb hfit htyped, Nat.mod_eq_of_lt now.isLt]
  -- the magic and the creation time were decoded from the same page
  have hcut : sb.sb_flags % 2 ^ 32 = sb_flags := Nat.mod_eq_of_lt hflags
  rw [hcut]
  rfl

/-- A page of zeroes, with flags and counters changed. -/
theorem codec_round_trip_zeroed :
    let sb := { kfssbToSb (pagesAlloc 1) with
      sb_flags := 8, sb_root_super_inode := 5
      sb_si_table := ⟨100, 3, ⟨1, 2, 3, 4⟩, ⟨5, 6, 7, 8⟩⟩
      sb_slot_table := ⟨200, 4, ⟨9, 10, 11, 12⟩, ⟨13, 14, 15, 16⟩⟩
      sb_blockmap := ⟨300, 5, ⟨17, 18, 19, 20⟩, ⟨21, 22, 23, 24⟩⟩ }
    let r := sbToKfssb (pagesAlloc 1) sb 77
    kfssbToSb r.1 = { sb with sb_m_time := 77, sb_a_time := 77 } ∧
      ∀ f ∈ keptFields, f.get r.1 = f.get (pagesAlloc 1) :=
  codec_round_trip (length_pagesAlloc 1) (by decide) (by decide)
    ⟨by decide, by decide, ⟨by decide, by decide, by decide, by decide⟩,
      ⟨by decide, by decide, by decide, by decide⟩⟩
    ⟨by decide, by decide, ⟨by decide, by decide, by decide, by decide⟩,
      ⟨by decide, by decide, by decide, by decide⟩⟩
    ⟨by decide, by decide, ⟨by decide, by decide, by decide, by decide⟩,
      ⟨by decide, by decide, by decide, by decide⟩⟩ 77

end KanekFs.Super
