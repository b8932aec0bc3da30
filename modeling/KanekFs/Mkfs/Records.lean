import KanekFs.Super.Verify

/-!
# The records of the super inode table

Where `build_sinodes` puts the ids. `recordAt` reads a record of a table that was written;
`sinodePlace` is the place of the record at a position of the table.

* `sinodeId_eq` gives the id of the record at every position: in the first block the loop over
  the other super inodes starts at the record of the root, so the ids run ahead of the positions
  by one.
* `root_record` is the record with the creation times, at position 0 and with id 1.
* `sinodesTable_never_indexed`: whatever the size of the table, it is not indexed by id.
-/

namespace KanekFs.Mkfs

open Bytes Word Super

/-! ## Reading a table -/

/-- A field of the record that starts at byte `off` of block `block` of a table. -/
def recordAt (ws : List Write) (block off : ℕ) (f : CField) : Option ℕ :=
  (ws.find? fun w => w.addr = block).map fun w => (f.shift off).get w.page

/-- The fields that `putIds` stores to. -/
def idFields (id : CField) (size : ℕ) : ℕ → ℕ → List CField
  | 0, _ => []
  | n + 1, off => id.shift off :: idFields id size n (off + size)

/-- `putIds` is the stores to `idFields`, one id after the other. -/
lemma putIds_eq_putAll (id : CField) (size n : ℕ) (p : List Byte) (off num : ℕ) :
    putIds id size n p off num =
      CField.putAll p ((idFields id size n off).zip (List.range' num n)) := by
  induction n generalizing p off num with
  | zero => rfl
  | succ n ih =>
    rw [putIds, ih, idFields, List.range'_succ, List.zip_cons_cons]
    rfl

lemma mem_idFields {id : CField} {size n off : ℕ} {f : CField} :
    f ∈ idFields id size n off ↔ ∃ i < n, f = id.shift (off + size * i) := by
  induction n generalizing off with
  | zero => simp [idFields]
  | succ n ih =>
    rw [idFields, List.mem_cons, ih]
    constructor
    · rintro (rfl | ⟨i, hi, rfl⟩)
      · exact ⟨0, by omega, by simp⟩
      · exact ⟨i + 1, by omega, by rw [show off + size + size * i = off + size * (i + 1) by ring]⟩
    · rintro ⟨i, hi, rfl⟩
      cases i with
      | zero => exact .inl (by simp)
      | succ i =>
        refine .inr ⟨i, by omega, ?_⟩
        rw [show off + size + size * i = off + size * (i + 1) by ring]

lemma length_idFields (id : CField) (size n off : ℕ) : (idFields id size n off).length = n := by
  induction n generalizing off with
  | zero => rfl
  | succ n ih => rw [idFields, List.length_cons, ih]

/-- A field that lies apart from the ids keeps its value. -/
lemma get_putIds_of_apart {id f : CField} {size n off : ℕ} (p : List Byte) (num : ℕ)
    (h : ∀ i < n, f.Apart (id.shift (off + size * i))) :
    f.get (putIds id size n p off num) = f.get p := by
  have hfst : ((idFields id size n off).zip (List.range' num n)).map Prod.fst =
      idFields id size n off := List.map_fst_zip (by simp [length_idFields])
  rw [putIds_eq_putAll]
  refine CField.get_putAll_of_apart _ ?_
  rw [hfst]
  intro g hg
  obtain ⟨i, hi, rfl⟩ := mem_idFields.mp hg
  exact h i hi

lemma recordAt_cons_self (w : Write) (ws : List Write) (off : ℕ) (f : CField) :
    recordAt (w :: ws) w.addr off f = some ((f.shift off).get w.page) := by
  simp [recordAt]

/-- Every block of a table is written once, so any write to it is the one that is read. -/
lemma recordAt_of_mem {ws : List Write} {w : Write} (hmem : w ∈ ws)
    (honce : (ws.map Write.addr).Nodup) (off : ℕ) (f : CField) :
    recordAt ws w.addr off f = some ((f.shift off).get w.page) := by
  induction ws with
  | nil => simp at hmem
  | cons w' ws ih =>
    rw [List.map_cons, List.nodup_cons] at honce
    rcases List.mem_cons.mp hmem with rfl | hmem
    · exact recordAt_cons_self w ws off f
    · have hne : w'.addr ≠ w.addr := fun h => honce.1 (h ▸ List.mem_map_of_mem hmem)
      have hrest := ih hmem honce.2
      simpa [recordAt, hne] using hrest

/-! ## The super inode table -/

/-- The block and the byte of the record at position `k` of the table. -/
def sinodePlace (k : ℕ) : ℕ × ℕ :=
  (1 + k / sinodesPerBlock,
    (if k < sinodesPerBlock then ExtentHeader.size else 0) + Sinode.size * (k % sinodesPerBlock))

/-- A field of the record at position `k`. -/
def sinodeField (bc : BlocksCalc) (current_time k : ℕ) (f : CField) : Option ℕ :=
  recordAt (sinodesTable bc current_time) (sinodePlace k).1 (sinodePlace k).2 f

/-- The record at position `k` is the one that was initialised as the root: the creation times,
and a slot id that no other record has. -/
def IsRootRecord (bc : BlocksCalc) (current_time k : ℕ) : Prop :=
  sinodeField bc current_time k Sinode.si_slot_id = some 0xfffffffe ∧
    ∀ f ∈ [Sinode.si_a_time, Sinode.si_c_time, Sinode.si_m_time],
      sinodeField bc current_time k f = some (current_time % 2 ^ 64)

/-- The table is indexed by id, and the root has the id that `sb_root_super_inode` gives it. -/
structure IndexedById (bc : BlocksCalc) (current_time : ℕ) : Prop where
  id : ∀ k < bc.out_sinodes_num, sinodeField bc current_time k Sinode.si_id = some k
  root : ∀ k < bc.out_sinodes_num, IsRootRecord bc current_time k →
    sinodeField bc current_time k Sinode.si_id = some 0

section Sinodes

variable {bc : BlocksCalc} {current_time k : ℕ}

/-- The first block before the loop: the header and the root. -/
def sinodesRootBlock (bc : BlocksCalc) (current_time : ℕ) : List Byte :=
  CField.putAll (CField.putAll (pagesAlloc 1)
    (headerFields kfsSinodeTableMagic 1 bc.out_sinodes_num)) (rootSinodeFields current_time)

lemma sinodesFirstBlock_eq (hper : bc.out_sinodes_per_block = sinodesPerBlock) :
    sinodesFirstBlock bc current_time =
      putIds Sinode.si_id Sinode.size 84 (sinodesRootBlock bc current_time)
        ExtentHeader.size 1 := by
  rw [sinodesFirstBlock, hper, sinodesRootBlock]
  rfl

/-- The fields of the root are the same at any time. -/
lemma fst_rootSinodeFields :
    (rootSinodeFields current_time).map Prod.fst = (rootSinodeFields 0).map Prod.fst := rfl

@[simp] lemma length_sinodesRootBlock :
    (sinodesRootBlock bc current_time).length = kfsBlocksize := by
  simp [sinodesRootBlock]

/-- A record of the first block. -/
lemma sinodeField_first (hk : k < 85) (f : CField) :
    sinodeField bc current_time k f =
      some ((f.shift (ExtentHeader.size + Sinode.size * k)).get
        (sinodesFirstBlock bc current_time)) := by
  have hplace : sinodePlace k = (1, ExtentHeader.size + Sinode.size * k) := by
    have hper : sinodesPerBlock = 85 := rfl
    rw [sinodePlace, hper, Nat.div_eq_of_lt hk, Nat.mod_eq_of_lt hk, if_pos hk]
  rw [sinodeField, hplace, sinodesTable]
  exact recordAt_cons_self ⟨1, sinodesFirstBlock bc current_time⟩ _ _ f

/-- The loop starts at the record of the root, so every record but the last gets the id of the
next position. -/
lemma sinodeId_first (hper : bc.out_sinodes_per_block = sinodesPerBlock) (hk : k < 84) :
    sinodeField bc current_time k Sinode.si_id = some (k + 1) := by
  have hfit : ExtentHeader.size + Sinode.size * (k + 1) ≤
      (sinodesRootBlock bc current_time).length := by
    rw [length_sinodesRootBlock]
    simp only [ExtentHeader.size, Sinode.size, kfsBlocksize]
    omega
  rw [sinodeField_first (by omega), sinodesFirstBlock_eq hper,
    get_putIds (sinodesRootBlock bc current_time) ExtentHeader.size 1 hk (by decide) hfit,
    Option.some.injEq, Nat.add_comm 1 k]
  apply Nat.mod_eq_of_lt
  have hwidth : 256 ^ Sinode.si_id.width = 2 ^ 64 := by decide
  rw [hwidth]
  omega

/-- The last record of the first block is never reached. -/
lemma sinodeId_skipped (hper : bc.out_sinodes_per_block = sinodesPerBlock) :
    sinodeField bc current_time 84 Sinode.si_id = some 0 := by
  have hids : ∀ i < 84, (Sinode.si_id.shift (ExtentHeader.size + Sinode.size * 84)).Apart
      (Sinode.si_id.shift (ExtentHeader.size + Sinode.size * i)) := by
    intro i hi
    right
    simp only [CField.shift, ExtentHeader.size, Sinode.size, Sinode.si_id]
    omega
  have hroot : ∀ g ∈ (rootSinodeFields current_time).map Prod.fst,
      (Sinode.si_id.shift (ExtentHeader.size + Sinode.size * 84)).Apart g := by
    rw [fst_rootSinodeFields]
    decide
  have hheader : ∀ g ∈ (headerFields kfsSinodeTableMagic 1 bc.out_sinodes_num).map Prod.fst,
      (Sinode.si_id.shift (ExtentHeader.size + Sinode.size * 84)).Apart g := by
    have hfst : (headerFields kfsSinodeTableMagic 1 bc.out_sinodes_num).map Prod.fst =
        (headerFields 0 0 0).map Prod.fst := rfl
    rw [hfst]
    decide
  rw [sinodeField_first (by decide), sinodesFirstBlock_eq hper, get_putIds_of_apart _ _ hids,
    sinodesRootBlock, CField.get_putAll_of_apart _ hroot, CField.get_putAll_of_apart _ hheader]
  exact congrArg some (loadLE_replicate_zero _ _ _)

/-- Behind the first block the ids are the positions. -/
lemma sinodeId_rest (hper : bc.out_sinodes_per_block = sinodesPerBlock)
    (hfit : bc.out_sinodes_table_in_blocks * sinodesPerBlock < 2 ^ 64) (hk : 85 ≤ k)
    (hlt : k < bc.out_sinodes_table_in_blocks * sinodesPerBlock) :
    sinodeField bc current_time k Sinode.si_id = some k := by
  have h85 : sinodesPerBlock = 85 := rfl
  rw [h85] at hper hfit hlt
  have hlen : Sinode.size * 85 ≤ (sinodesFirstBlock bc current_time).length := by
    rw [sinodesFirstBlock_eq hper, length_putIds, length_sinodesRootBlock]
    decide
  have htable : sinodesTable bc current_time = ⟨1, sinodesFirstBlock bc current_time⟩ ::
      tableBlocks Sinode.si_id Sinode.size 85 (bc.out_sinodes_table_in_blocks - 1)
        (sinodesFirstBlock bc current_time) 2 85 := by
    rw [sinodesTable_eq current_time (by omega), hper]
    rfl
  -- block `k / 85` of the table is the one of index `k / 85 - 1` among the remaining ones
  obtain ⟨page, hpage, hids⟩ := exists_mem_tableBlocks (sinodesFirstBlock bc current_time) 2 85
    (show k / 85 - 1 < bc.out_sinodes_table_in_blocks - 1 by omega)
    (show Sinode.si_id.off + Sinode.si_id.width ≤ Sinode.size by decide) hlen
  have hmem : (⟨2 + (k / 85 - 1), page⟩ : Write) ∈ sinodesTable bc current_time := by
    rw [htable]
    exact List.mem_cons_of_mem _ hpage
  have honce : ((sinodesTable bc current_time).map Write.addr).Nodup := by
    rw [htable, List.map_cons, tableBlocks_addrs, List.nodup_cons]
    refine ⟨?_, List.nodup_range'⟩
    intro h
    have hle : 2 ≤ 1 := (List.mem_range'_1.mp h).1
    omega
  have hplace : sinodePlace k = (2 + (k / 85 - 1), Sinode.size * (k % 85)) := by
    rw [sinodePlace, h85, if_neg (by omega), Nat.zero_add, Prod.mk.injEq]
    exact ⟨by omega, rfl⟩
  have hid : 85 + 85 * (k / 85 - 1) + k % 85 = k := by omega
  rw [sinodeField, hplace, recordAt_of_mem hmem honce, hids _ (Nat.mod_lt _ (by decide)), hid,
    Option.some.injEq]
  exact Nat.mod_eq_of_lt (by simp only [Sinode.si_id]; omega)

/-- The id of the record at every position of the table. -/
theorem sinodeId_eq (current_time : ℕ) (hper : bc.out_sinodes_per_block = sinodesPerBlock)
    (hfit : bc.out_sinodes_table_in_blocks * sinodesPerBlock < 2 ^ 64)
    (hlt : k < bc.out_sinodes_table_in_blocks * sinodesPerBlock) :
    sinodeField bc current_time k Sinode.si_id =
      some (if k < 84 then k + 1 else if k = 84 then 0 else k) := by
  split_ifs with hfirst hlast
  · exact sinodeId_first hper hfirst
  · exact hlast ▸ sinodeId_skipped hper
  · exact sinodeId_rest hper hfit (by omega) hlt

/-- The root, with the creation times, is the record at position 0, and its id is 1. -/
theorem root_record (current_time : ℕ) (hper : bc.out_sinodes_per_block = sinodesPerBlock) :
    IsRootRecord bc current_time 0 ∧
      sinodeField bc current_time 0 Sinode.si_id = some 1 := by
  refine ⟨?_, sinodeId_first hper (by decide)⟩
  -- the stores of the loop go to `si_id`, those to the root were made before
  have hget : ∀ f : CField, ∀ v, (f.shift ExtentHeader.size, v) ∈ rootSinodeFields current_time →
      Sinode.si_id.off + Sinode.si_id.width ≤ f.off → f.off + f.width ≤ Sinode.size →
      sinodeField bc current_time 0 f = some (v % 256 ^ f.width) := by
    intro f v hmem hoff hend
    have hids : ∀ i < 84, (f.shift ExtentHeader.size).Apart
        (Sinode.si_id.shift (ExtentHeader.size + Sinode.size * i)) := by
      intro i hi
      simp only [Sinode.si_id, Sinode.size] at hoff hend
      simp only [CField.Apart, CField.shift, Sinode.si_id, Sinode.size]
      omega
    have hapart : ((rootSinodeFields current_time).map Prod.fst).Pairwise CField.Apart := by
      rw [fst_rootSinodeFields]
      decide
    rw [sinodeField_first (by decide), sinodesFirstBlock_eq hper, Nat.mul_zero, Nat.add_zero,
      get_putIds_of_apart _ _ hids, sinodesRootBlock, CField.get_putAll hapart hmem]
    · rfl
    · rw [CField.length_putAll, length_pagesAlloc]
      simp only [CField.shift, ExtentHeader.size, Sinode.size, kfsBlocksize] at hend ⊢
      omega
  refine ⟨hget _ 0xfffffffe (by simp [rootSinodeFields]) (by decide) (by decide), ?_⟩
  simp only [List.forall_mem_cons, List.not_mem_nil, false_implies, implies_true, and_true]
  exact ⟨hget _ current_time (by simp [rootSinodeFields]) (by decide) (by decide),
    hget _ current_time (by simp [rootSinodeFields]) (by decide) (by decide),
    hget _ current_time (by simp [rootSinodeFields]) (by decide) (by decide)⟩

/-- The record at position 0 has another id. -/
lemma not_indexedById (hper : bc.out_sinodes_per_block = sinodesPerBlock)
    (hpos : 0 < bc.out_sinodes_num) : ¬ IndexedById bc current_time := by
  intro h
  have hzero := h.id 0 hpos
  rw [(root_record current_time hper).2] at hzero
  simp at hzero

/-- **No table of super inodes is indexed by id**, whatever its size: the id of a record is its
position exactly behind the first block. -/
theorem sinodesTable_never_indexed (current_time : ℕ)
    (hper : bc.out_sinodes_per_block = sinodesPerBlock)
    (hnum : bc.out_sinodes_num = bc.out_sinodes_table_in_blocks * sinodesPerBlock)
    (hfit : bc.out_sinodes_num < 2 ^ 64) (hblocks : 1 ≤ bc.out_sinodes_table_in_blocks) :
    ¬ IndexedById bc current_time ∧
      ∀ k < bc.out_sinodes_num,
        (sinodeField bc current_time k Sinode.si_id = some k ↔ 85 ≤ k) := by
  have h85 : sinodesPerBlock = 85 := rfl
  have hpos : 0 < bc.out_sinodes_num := by
    rw [hnum, h85]
    omega
  refine ⟨not_indexedById hper hpos, ?_⟩
  intro k hk
  rw [sinodeId_eq current_time hper (hnum ▸ hfit) (hnum ▸ hk), Option.some.injEq]
  split_ifs with hfirst hlast <;> omega

end Sinodes

/-- The table of a file of 10 MBytes. -/
theorem sinodesTable_never_indexed_10M :
    ¬ IndexedById (computeValues (kfsOptions 10485760 10) id) 0 ∧
      ∀ k < (computeValues (kfsOptions 10485760 10) id).out_sinodes_num,
        (sinodeField (computeValues (kfsOptions 10485760 10) id) 0 k Sinode.si_id = some k ↔
          85 ≤ k) :=
  sinodesTable_never_indexed 0 (by decide +kernel) (by decide +kernel) (by decide +kernel)
    (by decide +kernel)

/-- In a file of 10 MBytes the root super inode has id 1, and `sb_root_super_inode` is 0. -/
theorem root_has_id_one : ¬ IndexedById (computeValues (kfsOptions 10485760 10) id) 0 :=
  not_indexedById (by decide +kernel) (by decide +kernel)

end KanekFs.Mkfs
