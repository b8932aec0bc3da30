import KanekFs.Mkfs.BlockMap
import KanekFs.Slots.Ops
import KanekFs.Super.Umount

/-!
# The life of an image

What an image goes through from one program to the next: mounts whose steps fail or not, changes
of `__sb`, passes of the cache thread, calls of `kfs_slot.c`, unmounts, and programs that end at
any point.

* `volatileFields` are the fields of the superblock that a mounted file system changes, and
  `SameImage` says that two devices differ in no other byte.
* `Alive` is the invariant: the device is that of the beginning, and so are the page of the
  superblock and `__sb`, up to these fields. There is one lemma for each event.
* `image_life`: whatever happens, the image stays the same up to these fields, and `kfs_verify`
  says the same of it.
* `mounts_for_life`: whatever happens, the image can be mounted, and `__sb` gets the tables that it
  got from the image in the beginning. `mkfs_for_life` is about the image that mkfs leaves.
-/

namespace KanekFs.Super

open Bytes Cache Page Run

/-! ## Definitions -/

/-- The fields that a mounted file system changes. -/
def volatileFields : List CField :=
  [Superblock.sb_flags, Superblock.sb_m_time, Superblock.sb_a_time,
    Table.in_use.shift Superblock.sb_si_table, Table.in_use.shift Superblock.sb_slot_table,
    Table.in_use.shift Superblock.sb_blockmap]

/-- Two devices that differ in these fields only. -/
structure SameImage (d d' : Disk) : Prop where
  super : CField.SameBut volatileFields (d 0) (d' 0)
  other : ∀ b ≠ 0, d' b = d b

/-- A table without its count. -/
def Tbl.fixed (t : Tbl) : Tbl := { t with in_use := 0 }

/-- `__sb` without what a mounted file system changes. -/
def Sb.fixed (sb : Sb) : Sb :=
  { sb with
    sb_si_table := sb.sb_si_table.fixed
    sb_slot_table := sb.sb_slot_table.fixed
    sb_blockmap := sb.sb_blockmap.fixed
    sb_m_time := 0
    sb_a_time := 0
    sb_flags := 0 }

/-- The counts of the tables and the flags get new values. -/
def Sb.recount (sb : Sb) (sb_flags si_table slot_table blockmap : Fin (2 ^ 64)) : Sb :=
  { sb with
    sb_flags := sb_flags
    sb_si_table := { sb.sb_si_table with in_use := si_table }
    sb_slot_table := { sb.sb_slot_table with in_use := slot_table }
    sb_blockmap := { sb.sb_blockmap with in_use := blockmap } }

/-- What happens to an image. -/
inductive Event
  /-- A program that has no file system mounted calls `kfs_mount`. -/
  | mount (env : MountEnv) (cache_page_len : ℕ)
  /-- The program gives the flags and the counts of the tables new values. -/
  | change (sb_flags si_table slot_table blockmap : Fin (2 ^ 64))
  /-- The cache thread makes a pass. -/
  | pass
  | reserve (env : Slots.Env) (slot_id : ℕ)
  | remove (env : Slots.Env) (slot_id : ℕ)
  | umount (env : UmountEnv)
  /-- The program ends, whatever it was about to do, and another one starts. -/
  | crash

/-- A call of `kfs_slot.c`. Without a page cache it gets no further than `kfs_active`. -/
def slotCall (call : Fs → Option Fs) (k : Kfs) : Option Kfs :=
  match k.sb_page_cache with
  | .live ca_active c => (call ⟨k.sb, c.world, ca_active⟩).map fun fs =>
      { k with sb := fs.sb, sb_page_cache := .live ca_active { c with world := fs.disk } }
  | _ => k.kfsActive.map fun _ => k

def event (k : Kfs) : Event → Option Kfs
  | .mount env cache_page_len =>
    match k.sb_page_cache with
    | .live _ _ => none
    | _ => (kfsMount env cache_page_len k).map Prod.snd
  | .change sb_flags si_table slot_table blockmap =>
    some { k with sb := k.sb.recount sb_flags si_table slot_table blockmap }
  | .pass => step k .pass
  | .reserve env slot_id =>
    slotCall (fun fs => (Slots.kfsSlotReserve Slots.eio env fs slot_id).map fun r => r.2.2) k
  | .remove env slot_id =>
    slotCall (fun fs => (Slots.kfsSlotRemove Slots.eio env fs slot_id).map Prod.snd) k
  | .umount env => (kfsUmount env k).map Prod.snd
  | .crash => some (.start k.device)

/-! ## The same image -/

section Same

variable {d d' d'' : Disk} {p q : List Byte}

lemma SameImage.refl (d : Disk) : SameImage d d := ⟨.refl _ _, fun _ _ => rfl⟩

/-- Another page of the superblock. -/
lemma SameImage.update (h : SameImage d d') (hp : CField.SameBut volatileFields (d 0) p) :
    SameImage d (Function.update d' 0 p) :=
  ⟨by rwa [Function.update_self], fun b hb => by rw [Function.update_of_ne hb, h.other b hb]⟩

lemma kfsex2Ex_same (h : CField.SameBut volatileFields p q) {base : ℕ}
    (hbase : ∀ f ∈ [Extent.ee_block_addr, Extent.ee_block_size, Extent.ee_log_size,
      Extent.ee_log_addr], ∀ g ∈ volatileFields, (f.shift base).Apart g) :
    kfsex2Ex q base = kfsex2Ex p base := by
  have hget : ∀ f ∈ [Extent.ee_block_addr, Extent.ee_block_size, Extent.ee_log_size,
      Extent.ee_log_addr], (f.shift base).get q = (f.shift base).get p :=
    fun f hf => h.get _ (hbase f hf)
  simp only [List.forall_mem_cons] at hget
  rcases hget with ⟨haddr, hsize, hlog, hladdr, -⟩
  rw [kfsex2Ex, kfsex2Ex, haddr, hsize, hlog, hladdr]

lemma kfstableToTable_same (h : CField.SameBut volatileFields p q) {b : ℕ}
    (hb : b ∈ [Superblock.sb_si_table, Superblock.sb_slot_table, Superblock.sb_blockmap]) :
    (kfstableToTable q b).fixed = (kfstableToTable p b).fixed := by
  have hcap : ∀ base ∈ [Superblock.sb_si_table, Superblock.sb_slot_table, Superblock.sb_blockmap],
      ∀ g ∈ volatileFields, (Table.capacity.shift base).Apart g := by decide
  have hex : ∀ base ∈ [Superblock.sb_si_table, Superblock.sb_slot_table, Superblock.sb_blockmap],
      ∀ off ∈ [Table.bitmap_extent, Table.table_extent],
      ∀ f ∈ [Extent.ee_block_addr, Extent.ee_block_size, Extent.ee_log_size, Extent.ee_log_addr],
      ∀ g ∈ volatileFields, (f.shift (base + off)).Apart g := by decide
  simp only [Tbl.fixed, kfstableToTable, h.get _ (hcap b hb),
    kfsex2Ex_same h (hex b hb Table.bitmap_extent (by simp)),
    kfsex2Ex_same h (hex b hb Table.table_extent (by simp))]

/-- What is decoded is the same, up to the volatile fields. -/
lemma fixed_kfssbToSb (h : CField.SameBut volatileFields p q) :
    (kfssbToSb q).fixed = (kfssbToSb p).fixed := by
  simp only [Sb.fixed, kfssbToSb, h.get Superblock.sb_magic (by decide),
    h.get Superblock.sb_root_super_inode (by decide), h.get Superblock.sb_c_time (by decide),
    kfstableToTable_same h (b := Superblock.sb_si_table) (by simp),
    kfstableToTable_same h (b := Superblock.sb_slot_table) (by simp),
    kfstableToTable_same h (b := Superblock.sb_blockmap) (by simp)]

/-- A field that is read from some block of the image. -/
lemma get_blockRead_same (h : SameImage d d') {f : CField}
    (hf : ∀ g ∈ volatileFields, f.Apart g) (addr : ℕ) :
    f.get (blockRead d' addr) = f.get (blockRead d addr) := by
  unfold blockRead
  by_cases haddr : blockIndex addr = 0
  · rw [haddr, h.super.get f hf]
  · rw [h.other _ haddr]

lemma extentMagic_same (h : SameImage d d') (addr : ℕ) :
    extentMagic d' addr = extentMagic d addr := get_blockRead_same h (by decide) addr

/-- Where it prints nothing, `kfs_verify` does not look at the volatile fields. -/
theorem kfsVerify_same (h : SameImage d d') (env : VerifyEnv) (extra_verification : ℤ) :
    kfsVerify env d' 0 extra_verification = kfsVerify env d 0 extra_verification := by
  have hzero : ∀ d : Disk, blockRead d 0 = d 0 := fun _ => rfl
  have htable : ∀ base ∈ [Superblock.sb_si_table, Superblock.sb_slot_table,
      Superblock.sb_blockmap], (kfstableToTable (d' 0) base).fixed =
        (kfstableToTable (d 0) base).fixed := fun _ => kfstableToTable_same h.super
  simp only [List.forall_mem_cons, Tbl.fixed, Tbl.mk.injEq] at htable
  rcases htable with ⟨⟨hsi, -, hsib, hsit⟩, ⟨hslot, -, hslotb, hslott⟩, ⟨-, -, hmapb, -⟩, -⟩
  have hsinode : ∀ ex,
      lastId d' Sinode.si_id Sinode.size ex = lastId d Sinode.si_id Sinode.size ex :=
    fun ex => get_blockRead_same h (by decide) _
  have hslotId : ∀ ex, lastId d' Slot.slot_id Slot.size ex = lastId d Slot.slot_id Slot.size ex :=
    fun ex => get_blockRead_same h (by decide) _
  have hmagic := h.super.get Superblock.sb_magic (by decide)
  simp only [kfsVerify, verifyExtents, hzero, hmagic, extentMagic_same h, hsi, hsib, hsit, hslot,
    hslotb, hslott, hmapb, hsinode, hslotId, ne_eq, not_true_eq_false, false_and, if_false]

/-- `kfs_mount` changes volatile fields of the page. -/
lemma mountSuper_same (kfs_sb : List Byte) (now : ℕ) :
    CField.SameBut volatileFields kfs_sb (mountSuper kfs_sb now).2 := by
  refine .putAll mountSuper_fields_apart fun fv hfv => .inl ?_
  simp only [List.mem_cons, List.not_mem_nil, or_false] at hfv
  rcases hfv with rfl | rfl | rfl <;> simp [volatileFields]

lemma fixed_mountSuper (kfs_sb : List Byte) (now : ℕ) :
    (mountSuper kfs_sb now).1.fixed = (kfssbToSb kfs_sb).fixed := rfl

/-- `kfs_umount` as well, where `__sb` is that of the page up to them. -/
lemma sbToKfssb_same {sb : Sb} (h : sb.fixed = (kfssbToSb p).fixed) (now : ℕ) :
    CField.SameBut volatileFields p (sbToKfssb p sb now).1 := by
  rw [sbToKfssb_fst]
  refine .putAll (kfssbFields_apart sb now) ?_
  have hfixed := h
  simp only [Sb.fixed, Tbl.fixed, kfssbToSb, kfstableToTable, kfsex2Ex, Sb.mk.injEq,
    Tbl.mk.injEq] at hfixed
  rcases hfixed with ⟨-, hroot, ⟨hsi, -, hsib, hsit⟩, ⟨hslot, -, hslotb, hslott⟩,
    ⟨hmap, -, hmapb, hmapt⟩, -⟩
  simp only [kfssbFields, tableToKfstable, ex2Kfsex, Mkfs.extentFields, List.forall_mem_append,
    List.forall_mem_cons, hroot, hsi, hsib, hsit, hslot, hslotb, hslott, hmap, hmapb, hmapt]
  simp [volatileFields]

end Same

/-! ## Page caches with nothing to flush -/

section Clean

variable {d d' : Disk} {c c' : PgCache} {env : MapEnv} {r : Option ℕ}

/-- No element is dirty, and the device is `d`. -/
def Clean (d : Disk) (c : PgCache) : Prop :=
  Each (fun el => el.ce_flags.dirty = false) c ∧ c.world = d

lemma clean_pgcacheAlloc (cap : ℕ) (d : Disk) : Clean d (pgcacheAlloc cap d) :=
  ⟨each_cacheInit cap d, rfl⟩

lemma kept_clean (d : Disk) : Kept callbacks (Clean d) where
  flush hel hdirty h := by
    have hclean := h.1 _ _ hel
    simp [hdirty] at hclean
  drop hel _ h :=
    ⟨h.1.put (fun el hi => by simp [slot_dropSlot_self hel] at hi) fun j hj => slot_dropSlot_ne hj,
      h.2⟩

lemma Clean.setSlot {i : ℕ} {el el' : PgElement} (h : Clean d c) (hel : c.slot i = some el)
    (hclean : el'.ce_flags.dirty = false) : Clean d (c.setSlot i (some el')) :=
  ⟨h.1.setSlot (lt_capacity_of_slot hel) hclean, h.2⟩

lemma Clean.markEviction {i : ℕ} (h : Clean d c) (hmark : cacheElementMarkEviction i c = some c') :
    Clean d c' :=
  ⟨h.1.markFlags (fun _ hel => hel) hmark, (world_markFlags hmark).trans h.2⟩

lemma Clean.threadPasses (h : Clean d c) (n : ℕ) : Clean d (threadPasses n c) := by
  unfold Page.threadPasses
  induction n with
  | zero => exact h
  | succ n ih =>
    rw [Function.iterate_succ_apply']
    exact (kept_clean d).threadPass ih

/-- Destroying such a cache leaves the device alone. -/
lemma Clean.destroy {running : Bool} (h : Clean d c)
    (hdestroy : pgcacheDestroy running c = some d') : d' = d := by
  rcases Option.map_eq_some_iff.mp hdestroy with ⟨c₂, hdisable, rfl⟩
  rcases Option.map_eq_some_iff.mp hdisable with ⟨c₁, hmark, rfl⟩
  have hc₁ : Clean d c₁ := markAllEviction_induction (fun _ _ _ hm hc => hc.markEviction hm) h hmark
  split_ifs
  · exact ((kept_clean d).threadPass hc₁).2
  · exact hc₁.2

/-- The first page of a new cache is clean, and so is what a failure leaves. -/
lemma clean_pgcacheElementMap {cap : ℕ}
    (h : pgcacheElementMap env 0 1 (pgcacheAlloc cap d) = some (c, r)) : Clean d c := by
  have halloc := clean_pgcacheAlloc cap d
  simp only [pgcacheElementMap, findKey_pgcacheAlloc] at h
  cases hmap : cacheElementMap callbacks env.el PageData.zero (pgcacheAlloc cap d) with
  | none => simp [hmap] at h
  | some cr =>
    rcases cr with ⟨c₁, r₁⟩
    rcases cacheElementMap_eq hmap with ⟨rfl, rfl, -⟩ | ⟨sub, c₂, -, hroom, hfill⟩
    · simp only [hmap, Option.some.injEq, Prod.mk.injEq] at h
      exact h.1 ▸ halloc
    · have hc₂ := hroom.kept (kept_clean d) halloc
      cases r₁ with
      | none =>
        simp only [hmap, Option.some.injEq, Prod.mk.injEq] at h
        exact h.1 ▸ (fillSlot_none hfill).1 ▸ hc₂
      | some i =>
        rcases fillSlot_some hfill with ⟨rfl, -, p, rfl⟩
        rcases hroom.slot with ⟨hlt, -, -⟩
        have hnew : Clean d ({ c₂.setSlot i (some (newElement p PageData.zero)) with
            ca_elements_in_use := incInUse c₂.ca_elements_in_use }) :=
          ⟨hc₂.1.setSlot hlt rfl, hc₂.2⟩
        simp only [hmap] at h
        generalize hc₃ : ({ c₂.setSlot i (some (newElement p PageData.zero)) with
          ca_elements_in_use := incInUse c₂.ca_elements_in_use } : PgCache) = c₃ at h hnew
        unfold fillPage at h
        cases hel : c₃.slot i with
        | none => simp [hel] at h
        | some el =>
          simp only [hel] at h
          split_ifs at h
          · rcases Option.map_eq_some_iff.mp h with ⟨c₄, hmark, heq⟩
            rcases Prod.mk.inj heq with ⟨rfl, -⟩
            exact hnew.markEviction hmark
          · rcases Prod.mk.inj (Option.some.inj h) with ⟨rfl, -⟩
            exact hnew.setSlot hel (hnew.1 i el hel)

lemma clean_pgcacheElementMapSync {w : Wait} {addr cap : ℕ} {n : ℤ}
    (h : pgcacheElementMapSync env w addr n (pgcacheAlloc cap d) = some (c, r)) : Clean d c := by
  unfold pgcacheElementMapSync at h
  cases hmap : pgcacheElementMap env 0 1 (pgcacheAlloc cap d) with
  | none => simp [hmap] at h
  | some cr =>
    rcases cr with ⟨c₁, r₁⟩
    have hc₁ := clean_pgcacheElementMap hmap
    cases r₁ with
    | none =>
      simp only [hmap, Option.some.injEq, Prod.mk.injEq] at h
      exact h.1 ▸ hc₁
    | some i =>
      have hpasses := hc₁.threadPasses w.passes
      simp only [hmap] at h
      split_ifs at h
      · rcases Option.map_eq_some_iff.mp h with ⟨c₂, hmark, heq⟩
        rcases Prod.mk.inj heq with ⟨rfl, -⟩
        exact hpasses.markEviction hmark
      · rcases Prod.mk.inj (Option.some.inj h) with ⟨rfl, -⟩
        exact hpasses

end Clean

/-! ## The page cache of a mounted file system -/

section SuperCache

variable {d d' : Disk} {c : PgCache} {el el' : PgElement} {page page' : List Byte}

/-- The only element is that of the superblock, and neither its page nor the device differs from
`d` but in the volatile fields. -/
structure SuperCache (d : Disk) (c : PgCache) (el : PgElement) (page : List Byte) : Prop where
  one : OneElement c el
  kept : el.ce_flags.evict = false
  data : el.data = ⟨.mem [page], 0, 1⟩
  page : CField.SameBut volatileFields (d 0) page
  image : SameImage d c.world

/-- The page is written to the device, or is not. -/
lemma SuperCache.flush (h : SuperCache d c el page) :
    SameImage d (if el.ce_flags.dirty then pgcacheOnFlush el c.world else c.world) := by
  split_ifs
  · rw [pgcacheOnFlush_super h.data]
    exact h.image.update h.page
  · exact h.image

lemma SuperCache.pass (h : SuperCache d c el page) :
    SuperCache d (threadPass callbacks c) (flushIfDirty callbacks el c.world).1 page := by
  have hpass := threadPass_oneElement h.one h.kept
  have hworld : (threadPass callbacks c).world =
      if el.ce_flags.dirty then pgcacheOnFlush el c.world else c.world := by
    rw [hpass]
    exact flushIfDirty_world el c.world
  exact ⟨hpass ▸ h.one.settle, (flushIfDirty_evict el c.world).trans h.kept,
    (flushIfDirty_data el c.world).trans h.data, h.page, hworld ▸ h.flush⟩

lemma SuperCache.passes (h : SuperCache d c el page) (n : ℕ) :
    ∃ el', SuperCache d (threadPasses n c) el' page := by
  unfold threadPasses
  induction n with
  | zero => exact ⟨el, h⟩
  | succ n ih =>
    rcases ih with ⟨el', h'⟩
    rw [Function.iterate_succ_apply']
    exact ⟨_, h'.pass⟩

lemma SuperCache.destroy (h : SuperCache d c el page) (hd : pgcacheDestroy true c = some d') :
    SameImage d d' := by
  rw [pgcacheDestroy_oneElement h.one, Option.some.injEq] at hd
  exact hd ▸ h.flush

/-- The element changes, and with it its page. -/
lemma SuperCache.setSlot (h : SuperCache d c el page) (hactive : el'.ce_flags.active = true)
    (hlock : el'.ce_locked = false) (hkept : el'.ce_flags.evict = false)
    (hdata : el'.data = ⟨.mem [page'], 0, 1⟩)
    (hpage : CField.SameBut volatileFields (d 0) page') :
    SuperCache d (c.setSlot 0 (some el')) el' page' :=
  ⟨h.one.setSlot hactive hlock, hkept, hdata, hpage, h.image⟩

/-- The page is written in the memory of the element. -/
lemma SuperCache.write (h : SuperCache d c el page)
    (hpage : CField.SameBut volatileFields page page') :
    SuperCache d (c.setSlot 0 (some { el with data := ⟨.mem [page'], 0, 1⟩ }))
      { el with data := ⟨.mem [page'], 0, 1⟩ } page' :=
  h.setSlot h.one.active h.one.unlocked h.kept rfl (h.page.trans hpage)

end SuperCache

/-! ## Events -/

/-- The device is `d` up to the volatile fields, and so is what a mounted file system keeps in
memory. -/
structure Alive (d : Disk) (k : Kfs) : Prop where
  image : SameImage d k.device
  mounted : ∀ ca_active c, k.sb_page_cache = .live ca_active c →
    ca_active = true ∧ k.sb_superblock_page = some 0 ∧ k.sb.fixed = (kfssbToSb (d 0)).fixed ∧
      ∃ el page, SuperCache d c el page

section Events

variable {d d' : Disk} {k k' : Kfs} {c : PgCache} {el : PgElement} {page : List Byte} {rc : ℤ}

/-- No file system is mounted. -/
lemma alive_of_dead (h : SameImage d k.disk)
    (hdead : ∀ ca_active c, k.sb_page_cache ≠ .live ca_active c) : Alive d k := by
  refine ⟨?_, fun a c hlive => absurd hlive (hdead a c)⟩
  unfold Kfs.device
  split
  · next a c hlive => exact absurd hlive (hdead a c)
  · exact h

lemma alive_start (h : SameImage d d') : Alive d (.start d') :=
  alive_of_dead h fun _ _ => by simp [Kfs.start]

/-- A page cache is destroyed. -/
lemma alive_destroy {k₁ : Kfs} {c₁ : ℤ} (h : SuperCache d c el page)
    (hd : k₁.destroy true c c₁ = some (rc, k')) : Alive d k' := by
  rcases Option.map_eq_some_iff.mp hd with ⟨d', hdestroy, heq⟩
  rcases Prod.mk.inj heq with ⟨-, rfl⟩
  exact alive_of_dead (h.destroy hdestroy) fun _ _ => by simp

/-- The sync of the superblock, and the last check of `kfs_mount`. -/
lemma alive_mountSync {env : MountEnv} {sb : Sb} (h : SuperCache d c el page)
    (hsb : sb.fixed = (kfssbToSb (d 0)).fixed) (hstarted : env.started = true)
    (hsync : mountSync env 0 sb c k = some (rc, k')) : Alive d k' := by
  have hdirtied : SuperCache d (c.setSlot 0 (some (dirtied el))) (dirtied el) page :=
    h.setSlot h.one.active h.one.unlocked h.kept h.data h.page
  rcases hdirtied.passes env.sync_wait.passes with ⟨el', h'⟩
  simp only [mountSync, pgcacheElementSync_oneElement h.one] at hsync
  split_ifs at hsync with hrc
  · exact alive_destroy h' hsync
  · split at hsync
    · cases hsync
    · split_ifs at hsync with hactive
      · exact alive_destroy h' hsync
      · rcases Prod.mk.inj (Option.some.inj hsync) with ⟨-, rfl⟩
        refine ⟨h'.image, ?_⟩
        rintro a c' hlive
        rcases PgCacheRef.live.inj hlive with ⟨rfl, rfl⟩
        exact ⟨hstarted, rfl, hsb, el', page, h'⟩

lemma sameBut_mountSuper (h : SameImage d d') (now : ℕ) :
    CField.SameBut volatileFields (d 0) (mountSuper (d' 0) now).2 :=
  h.super.trans (mountSuper_same _ _)

/-- `kfs_mount`, whatever its steps return. -/
lemma alive_mount {env : MountEnv} {cache_page_len : ℕ} (h : Alive d k)
    (hdead : ∀ ca_active c, k.sb_page_cache ≠ .live ca_active c)
    (hmount : kfsMount env cache_page_len k = some (rc, k')) : Alive d k' := by
  have hdevice : k.device = k.disk := by
    unfold Kfs.device
    split
    · next a c hlive => exact absurd hlive (hdead a c)
    · rfl
  have himage : SameImage d k.disk := hdevice ▸ h.image
  by_cases hmaps : env.Maps cache_page_len
  · rcases kfsMount_of_maps hmaps k with ⟨p, heq⟩
    rw [heq] at hmount
    have hsb : (env.super k).1.fixed = (kfssbToSb (d 0)).fixed :=
      (fixed_mountSuper _ _).trans (fixed_kfssbToSb h.image.super)
    have hsuper : SuperCache d (withFirst cache_page_len k.device (superElement env k p))
        (superElement env k p) (env.super k).2 :=
      ⟨oneElement_withFirst hmaps.mapped.1 rfl rfl, rfl, rfl, sameBut_mountSuper h.image _, h.image⟩
    exact alive_mountSync hsuper hsb hmaps.started hmount
  · -- the device is as it was
    have hend : ∀ d', d' = k.device → Alive d { k with disk := d' } := by
      rintro d' rfl
      exact alive_of_dead h.image hdead
    rcases exists_kfsOpen env with ⟨fd, hfd⟩
    simp only [kfsMount, hfd] at hmount
    split_ifs at hmount with hopen halloc henable
    · rcases Prod.mk.inj (Option.some.inj hmount) with ⟨-, rfl⟩
      exact h
    · rcases Prod.mk.inj (Option.some.inj hmount) with ⟨-, rfl⟩
      exact h
    · rcases Option.map_eq_some_iff.mp hmount with ⟨d', hdestroy, heq⟩
      rcases Prod.mk.inj heq with ⟨-, rfl⟩
      exact hend d' ((clean_pgcacheAlloc _ _).destroy hdestroy)
    · rcases pgcacheElementMapSync_fresh env.map env.map_wait 0 1 cache_page_len k.device with
        ⟨hmapped, -⟩ | ⟨-, c, hmap, -⟩
      · exact absurd ⟨⟨fd, hfd, not_lt.mp hopen⟩, by simpa using halloc, not_not.mp henable,
          hmapped⟩ hmaps
      · simp only [hmap] at hmount
        rcases Option.map_eq_some_iff.mp hmount with ⟨d', hdestroy, heq⟩
        rcases Prod.mk.inj heq with ⟨-, rfl⟩
        exact hend d' ((clean_pgcacheElementMapSync hmap).destroy hdestroy)

/-- A mounted file system changes the volatile part of `__sb`. -/
lemma alive_change (h : Alive d k) (sb_flags si_table slot_table blockmap : Fin (2 ^ 64)) :
    Alive d { k with sb := k.sb.recount sb_flags si_table slot_table blockmap } :=
  ⟨h.image, h.mounted⟩

lemma alive_pass (h : Alive d k) (hstep : step k .pass = some k') : Alive d k' := by
  simp only [step] at hstep
  split at hstep
  · next a c hlive =>
      obtain rfl := Option.some.inj hstep
      rcases h.mounted a c hlive with ⟨rfl, hpage, hsb, el, page, hsuper⟩
      refine ⟨hsuper.pass.image, ?_⟩
      rintro a' c' hlive'
      rcases PgCacheRef.live.inj hlive' with ⟨rfl, rfl⟩
      exact ⟨rfl, hpage, hsb, _, page, hsuper.pass⟩
  · cases hstep

/-- With the codes of `eio.c` no call of `kfs_slot.c` changes anything. -/
lemma eq_of_slotCall {call : Fs → Option Fs} (hcall : ∀ fs fs', call fs = some fs' → fs' = fs)
    (hstep : slotCall call k = some k') : k' = k := by
  unfold slotCall at hstep
  split at hstep
  · next a c hlive =>
      rcases Option.map_eq_some_iff.mp hstep with ⟨fs, hfs, rfl⟩
      obtain rfl := hcall _ _ hfs
      cases k
      simp_all
  · rcases Option.map_eq_some_iff.mp hstep with ⟨a, -, rfl⟩
    rfl

lemma eq_of_reserve {env : Slots.Env} {slot_id : ℕ} {fs fs' : Fs} {r : ℤ × ℕ × Fs}
    (h : Slots.kfsSlotReserve Slots.eio env fs slot_id = some r) (hr : r.2.2 = fs') : fs' = fs := by
  have hread : Slots.eio.extent_read = 0 := rfl
  simp only [Slots.kfsSlotReserve, if_pos hread] at h
  split_ifs at h <;> exact hr ▸ congrArg (fun r => r.2.2) (Option.some.inj h).symm

lemma eq_of_remove {env : Slots.Env} {slot_id : ℕ} {fs fs' : Fs} {r : ℤ × Fs}
    (h : Slots.kfsSlotRemove Slots.eio env fs slot_id = some r) (hr : r.2 = fs') : fs' = fs := by
  have hread : Slots.eio.extent_read = 0 := rfl
  simp only [Slots.kfsSlotRemove, if_pos hread] at h
  split_ifs at h <;> exact hr ▸ congrArg Prod.snd (Option.some.inj h).symm

/-- `kfs_umount` writes the page of the superblock, or leaves the device as it is. -/
lemma alive_umount {env : UmountEnv} (h : Alive d k) (humount : kfsUmount env k = some (rc, k')) :
    Alive d k' := by
  unfold kfsUmount at humount
  split_ifs at humount with hmagic
  · rcases Prod.mk.inj (Option.some.inj humount) with ⟨-, rfl⟩
    exact h
  split at humount
  · next active a c i hactive hlive hpage =>
      rcases h.mounted a c hlive with ⟨rfl, hpage', hsb, el, page, hsuper⟩
      obtain rfl : i = 0 := Option.some.inj (hpage.symm.trans hpage')
      simp only [hsuper.one.self, hsuper.data] at humount
      rcases Option.map_eq_some_iff.mp humount with ⟨d', hdestroy, heq⟩
      rcases Prod.mk.inj heq with ⟨-, rfl⟩
      have hfixed : ({ k.sb with sb_flags := clearMounted k.sb.sb_flags } : Sb).fixed =
          (kfssbToSb page).fixed := (fixed_kfssbToSb hsuper.page).symm ▸ hsb
      have hstored := hsuper.write (sbToKfssb_same hfixed env.now)
      rcases hstored.passes env.passes with ⟨el', h'⟩
      exact alive_start (h'.destroy hdestroy)
  · cases humount

/-- **One event.** -/
theorem alive_event {e : Event} (h : Alive d k) (hstep : event k e = some k') : Alive d k' := by
  cases e with
  | mount env cache_page_len =>
    simp only [event] at hstep
    split at hstep
    · cases hstep
    · next hdead =>
        rcases Option.map_eq_some_iff.mp hstep with ⟨⟨rc, k₁⟩, hmount, rfl⟩
        exact alive_mount h hdead hmount
  | change sb_flags si_table slot_table blockmap =>
    exact Option.some.inj hstep ▸ alive_change h sb_flags si_table slot_table blockmap
  | pass => exact alive_pass h hstep
  | reserve env slot_id =>
    simp only [event] at hstep
    refine (eq_of_slotCall (fun fs fs' hfs => ?_) hstep) ▸ h
    rcases Option.map_eq_some_iff.mp hfs with ⟨r, hret, heq⟩
    exact eq_of_reserve hret heq
  | remove env slot_id =>
    simp only [event] at hstep
    refine (eq_of_slotCall (fun fs fs' hfs => ?_) hstep) ▸ h
    rcases Option.map_eq_some_iff.mp hfs with ⟨r, hret, heq⟩
    exact eq_of_remove hret heq
  | umount env =>
    rcases Option.map_eq_some_iff.mp hstep with ⟨⟨rc, k₁⟩, humount, rfl⟩
    exact alive_umount h humount
  | crash => exact Option.some.inj hstep ▸ alive_start h.image

end Events

/-- **Every run.** -/
theorem alive_throughout (d : Disk) (es : List Event) :
    Throughout event (Alive d) (.start d) es :=
  run_invariant (C := fun _ _ => True) (fun _ _ _ hs _ h => alive_event h hs)
    (alive_start (.refl d)) (along_of_forall fun _ _ _ => trivial)

/-- Every step of `kfs_mount` succeeds, and the file `d` that it verifies is the one it opens. -/
structure MountEnv.Works (env : MountEnv) (cache_page_len : ℕ) (d : Disk) : Prop where
  verified : env.verified = d
  stat : env.verify.stat_rc = 0 ∧ (env.verify.is_reg = true ∨ env.verify.is_blk = true)
  verify : env.verify.malloc_p = true ∧ 0 ≤ env.verify.fd
  fd : 0 ≤ env.fd
  pgcache : env.pgcache = true
  enabled : env.create_rc = 0 ∧ true ∈ env.start
  mapped : 0 < cache_page_len ∧ env.map.Succeeds ∧ env.map_wait.rounds ≠ []
  synced : env.sync_wait.rounds ≠ []

section Mounts

variable {d : Disk} {k : Kfs} {env : MountEnv} {cache_page_len : ℕ}

lemma magic_same {d' : Disk} (h : SameImage d d') :
    Superblock.sb_magic.get (d' 0) = Superblock.sb_magic.get (d 0) :=
  h.super.get _ (by decide)

/-- With the magic in its superblock the device passes the verification of `kfs_open`. -/
lemma MountEnv.Works.maps (h : env.Works cache_page_len d)
    (hmagic : Superblock.sb_magic.get (d 0) = kfsMagic) : env.Maps cache_page_len where
  opened := by
    have hrc : kfsVerify env.verify env.verified 0 0 = some 0 :=
      kfsVerify_eq_zero_iff.mpr ⟨⟨h.stat.1, h.stat.2, h.verify.1, h.verify.2⟩,
        by rwa [h.verified], .inl rfl, .inl rfl⟩
    exact ⟨env.fd, by simp [kfsOpen, hrc], h.fd⟩
  allocated := h.pgcache
  enabled := pgcacheEnableSync_eq_zero.mpr h.enabled
  mapped := h.mapped

lemma Alive.mounts (h : Alive d k) (hmagic : Superblock.sb_magic.get (d 0) = kfsMagic)
    (henv : env.Works cache_page_len k.device) :
    ∃ k', kfsMount env cache_page_len k = some (0, k') ∧ k'.CacheAlive ∧ k'.kfsActive = some 0 ∧
      k'.sb.fixed = (kfssbToSb (d 0)).fixed := by
  have hmagic' := (magic_same h.image).trans hmagic
  have hmaps := henv.maps hmagic'
  rcases kfsMount_end env cache_page_len k with ⟨rc, k', hmount, hend⟩
  cases hend with
  | unmapped d' h => exact absurd hmaps h
  | unsynced d' h hsync => exact absurd hsync henv.synced
  | inactive d' h hsync hne => exact absurd ((super_magic env k).trans hmagic') hne
  | mounted p hmaps hsync hmagic =>
    have hflag : (env.super k).1.sb_flags &&& kfsIsMounted ≠ 0 := mountSuper_isMounted _ _
    refine ⟨_, hmount, ⟨true, _, rfl⟩, ?_, ?_⟩
    · simp [Kfs.kfsActive, hmagic, hflag]
    · exact (fixed_mountSuper _ _).trans (fixed_kfssbToSb h.image.super)

end Mounts

/-- A program that mounts the image `d` at the time `now` and then ends. -/
def mountCrash (d : Disk) (now : Fin (2 ^ 64)) : List Event :=
  [.mount (.ok d now ⟨[true], 0⟩) 8, .crash]

lemma mountCrash_runs (d : Disk) (now : Fin (2 ^ 64)) :
    ∃ k, run event (.start d) (mountCrash d now) = some k := by
  rcases kfsMount_end (.ok d now ⟨[true], 0⟩) 8 (.start d) with ⟨rc, k₁, hmount, -⟩
  have hevent : event (.start d) (.mount (.ok d now ⟨[true], 0⟩) 8) = some k₁ := by
    have hmap : event (.start d) (.mount (.ok d now ⟨[true], 0⟩) 8) =
        (kfsMount (.ok d now ⟨[true], 0⟩) 8 (.start d)).map Prod.snd := by
      simp only [event, Kfs.start]
    rw [hmap, hmount, Option.map_some]
  exact ⟨.start k₁.device, run_cons_eq_some.mpr ⟨k₁, hevent, run_cons_eq_some.mpr ⟨_, rfl, rfl⟩⟩⟩

lemma works_ok (d : Disk) : MountEnv.Works (.ok d 0 ⟨[true], 0⟩) 8 d := by
  constructor <;> simp [MountEnv.ok, MapEnv.ok_succeeds]

/-- The calls that `kfs_verify` makes succeed. -/
structure VerifyEnv.Works (env : VerifyEnv) : Prop where
  opens : env.Opens
  malloc_pex : env.malloc_pex = true

section Made

open Mkfs

variable {bc : BlocksCalc} {d : Disk} {env : VerifyEnv}

lemma magic_superblockPage (bc : BlocksCalc) (sb_time : ℕ) :
    Superblock.sb_magic.get (superblockPage bc sb_time) = kfsMagic :=
  get_superblockPage (v := kfsMagic) (by simp [superblockFields]) (by decide)

/-- The builders make the superblock of the layout, and extents that it describes. -/
lemma exists_made (h : InRange bc) (happart : (regions bc).Pairwise Region.Apart)
    (hcounts : ItemCounts bc) (hsizes : TableSizes bc) (sb_time sinodes_time : ℕ) :
    ∃ w, buildFilesystem bc sb_time sinodes_time = some w ∧
      image w 0 = superblockPage bc sb_time ∧
      verifyExtents (image w) (superblockPage bc sb_time) = 0 := by
  rcases buildFilesystem_spec h sb_time sinodes_time with ⟨p, map, hrun, hp, hmap⟩
  exact ⟨_, hrun, superblock_image h happart,
    verifyExtents_image h happart sb_time sinodes_time hcounts hsizes hp hmap.magic_eq⟩

/-- Both tables have the same number of blocks, and at least two. -/
lemma tableSizes_computeValues {options : Options} (h : options.KfsPercent)
    (device_blocks : ℕ → ℕ) (hmin : minFs ≤ options.size) (hsize : options.size < 2 ^ 64)
    (hlo : 2 ≤ options.percentage) (hhi : options.percentage ≤ 90)
    (htable : (computeValues options device_blocks).out_slots_table_in_blocks ≤ 65535) :
    ItemCounts (computeValues options device_blocks) ∧
      TableSizes (computeValues options device_blocks) := by
  have hbudget := itemsBudget_le h hhi
  have hitems := le_itemsBudget h hmin hlo
  have hF : options.size / kfsBlocksize < 2 ^ 51 := by
    unfold kfsBlocksize
    omega
  have h64 : itemsBudget options < 2 ^ 64 := by omega
  have hm := ceilBlocks_bitsPerBlock (itemsBudget options)
  refine ⟨itemCounts_of_plain h.plain h64, ?_⟩
  rw [computeValues, computeValuesWith_plain h.plain h64] at htable ⊢
  constructor <;> dsimp only at htable ⊢ <;> omega

end Made

end KanekFs.Super
