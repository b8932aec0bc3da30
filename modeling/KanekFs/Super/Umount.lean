import KanekFs.Super.Encode
import KanekFs.Super.Process

/-!
# Unmounting

`kfs_umount` of `kfs_super.c`, and the runs from a mount to an unmount. In between the program
changes `__sb` and the cache thread makes its passes; nothing marks the page of the superblock
dirty again.

* `Session` is the invariant of such a run: the page is the one that `kfs_mount` left, and it is
  dirty as long as there was no pass.
* `kfsUmount_session` is what an unmount leaves in the block of the superblock.
* `umount_persists_iff` is the exact condition under which that block holds `__sb`.
-/

namespace KanekFs.Super

open Bytes Cache Page

/-! ## Definitions -/

/-- `sb_flags &~ KFS_IS_MOUNTED`. -/
def clearMounted (sb_flags : ℕ) : ℕ := sb_flags &&& (2 ^ 64 - 1 - kfsIsMounted)

/-- The time that `sb_to_kfssb` reads in `kfs_umount`, and the passes that the thread makes
between it and `pgcache_destroy`. -/
structure UmountEnv where
  now : Fin (2 ^ 64)
  passes : ℕ

/-- `kfs_umount`. The page of the superblock gets `__sb`, and the cache is destroyed. -/
def kfsUmount (env : UmountEnv) (k : Kfs) : Option (ℤ × Kfs) :=
  if k.sb.sb_magic ≠ kfsMagic then some (-1, k)
  else
    match k.kfsActive, k.sb_page_cache, k.sb_superblock_page with
    | some active, .live ca_active c, some i =>
      let rc := if active ≠ 0 then -1 else 0
      let sb := { k.sb with sb_flags := clearMounted k.sb.sb_flags }
      match c.slot i with
      | none => none
      | some el =>
        match el.data.pe_mem_ptr with
        | .mem (kfs_sb :: rest) =>
          let r := sbToKfssb kfs_sb sb env.now
          let c := c.setSlot i (some { el with data :=
            { el.data with pe_mem_ptr := .mem (r.1 :: rest) } })
          (pgcacheDestroy ca_active (threadPasses env.passes c)).map fun d => (rc, .start d)
        | _ => none
    -- a page cache, or a page, that is not there
    | _, _, _ => none

/-- `__sb` as `kfs_umount` stores it in the page, before it is zeroed. -/
def unmountedSb (sb : Sb) (now : ℕ) : Sb :=
  { sb with sb_flags := clearMounted sb.sb_flags, sb_m_time := now, sb_a_time := now }

/-! ## Between a mount and an unmount -/

/-- The counters of a table, in the range of their type. -/
structure Counters where
  capacity : Fin (2 ^ 64)
  in_use : Fin (2 ^ 64)

def Counters.store (n : Counters) (t : Tbl) : Tbl :=
  { t with capacity := n.capacity, in_use := n.in_use }

inductive Op
  /-- The program gives the flags and the counters of the tables new values. -/
  | change (sb_flags : Fin (2 ^ 64)) (si_table slot_table blockmap : Counters)
  /-- The cache thread makes a pass. -/
  | pass

def changeSb (sb : Sb) (sb_flags : Fin (2 ^ 64)) (si_table slot_table blockmap : Counters) : Sb :=
  { sb with
    sb_flags := sb_flags
    sb_si_table := si_table.store sb.sb_si_table
    sb_slot_table := slot_table.store sb.sb_slot_table
    sb_blockmap := blockmap.store sb.sb_blockmap }

def step (k : Kfs) : Op → Option Kfs
  | .change sb_flags si_table slot_table blockmap =>
    some { k with sb := changeSb k.sb sb_flags si_table slot_table blockmap }
  | .pass =>
    match k.sb_page_cache with
    | .live ca_active c => some { k with sb_page_cache := .live ca_active (threadPass callbacks c) }
    | _ => none

/-! ## The session -/

section Session

variable {kfs_sb : List Byte} {fresh : Bool} {k k' : Kfs} {c : PgCache} {el : PgElement}

/-- The state of a run since a mount that left the page `kfs_sb`; `fresh` says that the cache
thread has made no pass since the page was marked dirty. -/
structure Session (kfs_sb : List Byte) (fresh : Bool) (k : Kfs) (c : PgCache) (el : PgElement) :
    Prop where
  cache : k.sb_page_cache = .live true c
  page : k.sb_superblock_page = some 0
  one : OneElement c el
  kept : el.ce_flags.evict = false
  dirty : el.ce_flags.dirty = fresh
  data : el.data = ⟨.mem [kfs_sb], 0, 1⟩
  flushed : fresh = false → c.world 0 = kfs_sb
  typed : k.sb.Typed
  flags : k.sb.sb_flags < 2 ^ 64
  magic : k.sb.sb_magic = Superblock.sb_magic.get kfs_sb
  c_time : k.sb.sb_c_time = Superblock.sb_c_time.get kfs_sb

/-- The flush of the page writes block 0 and no other. -/
lemma pgcacheOnFlush_super {d : Disk} (hdata : el.data = ⟨.mem [kfs_sb], 0, 1⟩) :
    pgcacheOnFlush el d = Function.update d 0 kfs_sb := by
  have hblocks : intBlocks 1 = 1 := by decide
  have hzero : blockIndex 0 = 0 := by decide
  funext b
  simp only [pgcacheOnFlush, hdata, extentWrite, hblocks, hzero]
  by_cases hb : b = 0
  · simp [hb]
  · rw [Function.update_of_ne hb, if_neg (by omega)]

/-- What the flush of the page leaves in its block. -/
lemma settle_super (hdata : el.data = ⟨.mem [kfs_sb], 0, 1⟩) :
    (settle callbacks 0 el c).world 0 = if el.ce_flags.dirty then kfs_sb else c.world 0 := by
  have hworld : (settle callbacks 0 el c).world = (flushIfDirty callbacks el c.world).2 := rfl
  rw [hworld, flushIfDirty_world]
  split
  · rw [pgcacheOnFlush_super hdata, Function.update_self]
  · rfl

lemma flushIfDirty_data (el : PgElement) (d : Disk) :
    (flushIfDirty callbacks el d).1.data = el.data := by
  unfold flushIfDirty
  split <;> rfl

lemma Counters.typed_store (n : Counters) {t : Tbl} (ht : t.Typed) : (n.store t).Typed :=
  ⟨n.capacity.isLt, n.in_use.isLt, ht.bitmap_extent, ht.table_extent⟩

/-- A change of `__sb` leaves the page alone. -/
lemma Session.change (h : Session kfs_sb fresh k c el) (sb_flags : Fin (2 ^ 64))
    (si_table slot_table blockmap : Counters) :
    Session kfs_sb fresh { k with sb := changeSb k.sb sb_flags si_table slot_table blockmap }
      c el :=
  { h with
    typed := ⟨h.typed.root, si_table.typed_store h.typed.si_table,
      slot_table.typed_store h.typed.slot_table, blockmap.typed_store h.typed.blockmap⟩
    flags := sb_flags.isLt }

/-- A pass writes the page of the mount to the device, if it is still dirty. -/
lemma Session.pass (h : Session kfs_sb fresh k c el) :
    Session kfs_sb false { k with sb_page_cache := .live true (threadPass callbacks c) }
      (threadPass callbacks c) (flushIfDirty callbacks el c.world).1 := by
  have hpass := threadPass_oneElement h.one h.kept
  refine { h with cache := rfl, one := hpass ▸ h.one.settle, kept := ?_, dirty := ?_, data := ?_,
                  flushed := fun _ => ?_ }
  · exact (flushIfDirty_evict el c.world).trans h.kept
  · exact dirty_flushIfDirty c.world
  · exact (flushIfDirty_data el c.world).trans h.data
  · rw [hpass, settle_super h.data, h.dirty]
    cases hfresh : fresh with
    | true => rfl
    | false => exact h.flushed hfresh

/-- By induction over the run: the page stays fresh as long as there is no pass. -/
lemma Session.run {t : List Op} (h : Session kfs_sb fresh k c el)
    (hrun : Run.run step k t = some k') :
    ∃ fresh' c' el', Session kfs_sb fresh' k' c' el' ∧
      (fresh' = true ↔ fresh = true ∧ Op.pass ∉ t) := by
  induction t generalizing k fresh c el with
  | nil =>
    rw [Run.run_nil, Option.some.injEq] at hrun
    exact ⟨fresh, c, el, hrun ▸ h, by simp⟩
  | cons a t ih =>
    rcases Run.run_cons_eq_some.mp hrun with ⟨k₁, hstep, hrest⟩
    cases a with
    | change sb_flags si_table slot_table blockmap =>
      obtain rfl := Option.some.inj hstep
      have hchange := h.change sb_flags si_table slot_table blockmap
      rcases ih hchange hrest with ⟨fresh', c', el', h', hiff⟩
      exact ⟨fresh', c', el', h', by simpa using hiff⟩
    | pass =>
      simp only [step, h.cache, Option.some.injEq] at hstep
      subst hstep
      rcases ih h.pass hrest with ⟨fresh', c', el', h', hiff⟩
      exact ⟨fresh', c', el', h', by simpa using hiff⟩

/-- `kfs_active` in a session. -/
lemma Session.kfsActive (h : Session kfs_sb fresh k c el) (hmagic : k.sb.sb_magic = kfsMagic) :
    k.kfsActive = some (if k.sb.sb_flags &&& kfsIsMounted = 0 then -1 else 0) := by
  simp only [Kfs.kfsActive, h.cache, hmagic]
  split_ifs <;> simp_all

/-- `kfs_umount` ends a session. It leaves `__sb` in the block of the superblock if the page is
fresh, else the page of the mount. -/
lemma kfsUmount_session (env : UmountEnv) (h : Session kfs_sb fresh k c el)
    (hmagic : k.sb.sb_magic = kfsMagic) :
    ∃ d, kfsUmount env k =
        some (if k.sb.sb_flags &&& kfsIsMounted = 0 then -1 else 0, .start d) ∧
      d 0 = if fresh then
        (sbToKfssb kfs_sb { k.sb with sb_flags := clearMounted k.sb.sb_flags } env.now).1
      else kfs_sb := by
  set page := (sbToKfssb kfs_sb { k.sb with sb_flags := clearMounted k.sb.sb_flags } env.now).1
    with hpage
  set el' : PgElement := { el with data := ⟨.mem [page], 0, 1⟩ } with hel'
  have hone : OneElement (c.setSlot 0 (some el')) el' := h.one.setSlot h.one.active h.one.unlocked
  have hdestroy : pgcacheDestroy true (threadPasses env.passes (c.setSlot 0 (some el'))) =
      some (if fresh then pgcacheOnFlush el' c.world else c.world) :=
    h.dirty ▸ pgcacheDestroy_threadPasses hone h.kept env.passes
  have hrc : (if (if k.sb.sb_flags &&& kfsIsMounted = 0 then (-1 : ℤ) else 0) ≠ 0 then -1 else 0) =
      if k.sb.sb_flags &&& kfsIsMounted = 0 then (-1 : ℤ) else 0 := by split <;> rfl
  refine ⟨if fresh then pgcacheOnFlush el' c.world else c.world, ?_, ?_⟩
  · unfold kfsUmount
    rw [if_neg (not_not.mpr hmagic)]
    simp only [h.kfsActive hmagic, h.cache, h.page, h.one.self, h.data, ← hpage, ← hel',
      hdestroy, Option.map_some, hrc]
  · cases hfresh : fresh with
    | true =>
      have hflush : pgcacheOnFlush el' c.world = Function.update c.world 0 page :=
        pgcacheOnFlush_super rfl
      exact (congrFun hflush 0).trans (Function.update_self ..)
    | false => exact h.flushed hfresh

end Session

/-! ## Mounting and unmounting -/

section Mounting

variable {env : MountEnv} {cache_page_len : ℕ} {k : Kfs}

lemma typed_mountSuper (kfs_sb : List Byte) (now : ℕ) : (mountSuper kfs_sb now).1.Typed := by
  have htyped := typed_kfssbToSb kfs_sb
  exact ⟨htyped.root, htyped.si_table, htyped.slot_table, htyped.blockmap⟩

lemma mountSuper_flags_lt (kfs_sb : List Byte) (now : ℕ) :
    (mountSuper kfs_sb now).1.sb_flags < 2 ^ 64 := by
  have hlt : Superblock.sb_flags.get kfs_sb < 2 ^ 64 :=
    (CField.get_lt Superblock.sb_flags kfs_sb).trans (by decide)
  exact Nat.or_lt_two_pow hlt (by decide)

/-- A session begins with a mount; its page is fresh if the thread made no pass during the sync
of the superblock. -/
lemma session_mounted (h : env.Maps cache_page_len) (k : Kfs) (p : ℕ) :
    ∃ el, Session (env.super k).2 (env.sync_wait.passes = 0)
      ⟨(env.super k).1, .live true (syncedCache env cache_page_len k p), some 0, k.disk⟩
      (syncedCache env cache_page_len k p) el := by
  have hone := oneElement_dirtied h k p
  have hsession : ∀ c el fresh, OneElement c el → el.ce_flags.evict = false →
      el.ce_flags.dirty = fresh → el.data = ⟨.mem [(env.super k).2], 0, 1⟩ →
      (fresh = false → c.world 0 = (env.super k).2) →
      Session (env.super k).2 fresh ⟨(env.super k).1, .live true c, some 0, k.disk⟩ c el := by
    intro c el fresh hc hevict hdirty hdata hflushed
    exact ⟨rfl, rfl, hc, hevict, hdirty, hdata, hflushed, typed_mountSuper _ _,
      mountSuper_flags_lt _ _, (get_mountSuper_of_apart _ _ (by decide)).symm,
      (get_mountSuper_of_apart _ _ (by decide)).symm⟩
  unfold syncedCache
  cases env.sync_wait.passes with
  | zero => exact ⟨_, hsession _ _ _ hone rfl rfl rfl fun h => by simp at h⟩
  | succ n =>
    -- the first pass has written the page
    rw [threadPasses_succ hone rfl]
    refine ⟨_, hsession _ _ _ hone.settle (flushIfDirty_evict _ _) ?_ ?_ fun _ => ?_⟩
    · rw [dirty_flushIfDirty]
      simp
    · exact flushIfDirty_data _ _
    · have hdata : (dirtied (superElement env k p)).data = ⟨.mem [(env.super k).2], 0, 1⟩ := rfl
      exact settle_super hdata

/-- A successful mount is on its way to `mounted`: the next pass of the cache thread leads
there, if the sync has not waited for it already. -/
theorem kfsMount_mounted {k' : Kfs} (hblock : (k.device 0).length = kfsBlocksize)
    (hmagic : Superblock.sb_magic.get (k.device 0) = kfsMagic)
    (hmount : kfsMount env cache_page_len k = some (0, k')) :
    ∃ c, step k' .pass = some { k' with sb_page_cache := .live true c } ∧
      (⟨k'.sb, c.world, true⟩ : Fs) = mounted k.device env.now := by
  rcases kfsMount_end env cache_page_len k with ⟨rc, k₁, hmount', hend⟩
  rw [hmount, Option.some.injEq, Prod.mk.injEq] at hmount'
  rcases hmount' with ⟨rfl, rfl⟩
  generalize hrc : (0 : ℤ) = rc at hend
  cases hend with
  | unmapped d h => cases hrc
  | unsynced d h hsync => cases hrc
  | inactive d h hsync hbad => exact absurd hmagic hbad
  | mounted p h hsync _ =>
    have hone := oneElement_dirtied h k p
    refine ⟨_, rfl, ?_⟩
    have hpass : threadPass callbacks (syncedCache env cache_page_len k p) =
        settle callbacks 0 (dirtied (superElement env k p))
          (withFirst cache_page_len k.device (dirtied (superElement env k p))) := by
      rw [syncedCache, threadPasses, ← Function.iterate_succ_apply' (threadPass callbacks)]
      exact threadPasses_succ hone rfl _
    have hflush : (threadPass callbacks (syncedCache env cache_page_len k p)).world =
        Function.update k.device 0 (env.super k).2 := by
      have hdirty : (dirtied (superElement env k p)).ce_flags.dirty = true := rfl
      rw [hpass]
      refine (flushIfDirty_world _ _).trans ?_
      rw [if_pos hdirty]
      exact pgcacheOnFlush_super rfl
    have hwrite : (mounted k.device env.now).disk = Function.update k.device 0 (env.super k).2 := by
      have hlen : (env.super k).2.length = kfsBlocksize := (length_mountSuper _ _).trans hblock
      have htake : (env.super k).2.take kfsBlocksize = (env.super k).2 := by
        rw [← hlen, List.take_length]
      have hzero : blockIndex 0 = 0 := by decide
      rw [← htake]
      simp only [mounted, blockWrite, hzero]
      rfl
    rw [hflush, ← hwrite]
    rfl

end Mounting

/-! ## What is left of the superblock -/

lemma clearMounted_isMounted (sb_flags : ℕ) : clearMounted sb_flags &&& kfsIsMounted = 0 := by
  have hbit : (2 ^ 64 - 1 - kfsIsMounted) &&& kfsIsMounted = 0 := by decide
  rw [clearMounted, Nat.and_assoc, hbit, Nat.and_zero]

/-- `KFS_IS_MOUNTED` is one of the low bits. -/
lemma clearMounted_lt_iff {sb_flags : ℕ} (h : sb_flags < 2 ^ 64) :
    clearMounted sb_flags < 2 ^ 32 ↔ sb_flags < 2 ^ 32 := by
  have hmask : (2 ^ 64 - 1 - kfsIsMounted) ||| kfsIsMounted = 2 ^ 64 - 1 := by decide
  have hsplit : clearMounted sb_flags ||| (sb_flags &&& kfsIsMounted) = sb_flags := by
    rw [clearMounted, ← Nat.and_or_distrib_left, hmask, Nat.and_two_pow_sub_one_of_lt_two_pow h]
  constructor
  · intro hlt
    rw [← hsplit]
    exact Nat.or_lt_two_pow hlt (lt_of_le_of_lt Nat.and_le_right (by decide))
  · exact lt_of_le_of_lt Nat.and_le_left

/-- The block of the superblock decodes to `__sb` at the unmount, and has `KFS_IS_MOUNTED`
cleared. -/
def Persisted (sb : Sb) (now : ℕ) (d : Disk) : Prop :=
  kfssbToSb (blockRead d 0) = unmountedSb sb now ∧
    Superblock.sb_flags.get (blockRead d 0) &&& kfsIsMounted = 0

/-- The encoded superblock is `__sb` if its flags fit into their field. -/
lemma persisted_encoded_iff {kfs_sb : List Byte} {sb : Sb} {now : Fin (2 ^ 64)} {d : Disk}
    (hpage : Superblock.size ≤ kfs_sb.length) (htyped : sb.Typed) (hflags : sb.sb_flags < 2 ^ 64)
    (hmagic : sb.sb_magic = Superblock.sb_magic.get kfs_sb)
    (hctime : sb.sb_c_time = Superblock.sb_c_time.get kfs_sb)
    (hd : blockRead d 0 =
      (sbToKfssb kfs_sb { sb with sb_flags := clearMounted sb.sb_flags } now).1) :
    Persisted sb now d ↔ sb.sb_flags < 2 ^ 32 := by
  have htyped' : ({ sb with sb_flags := clearMounted sb.sb_flags } : Sb).Typed :=
    ⟨htyped.root, htyped.si_table, htyped.slot_table, htyped.blockmap⟩
  have hdecode := kfssbToSb_sbToKfssb hpage htyped' now
  rw [← hd, Nat.mod_eq_of_lt now.isLt] at hdecode
  dsimp only at hdecode
  rw [← hmagic, ← hctime] at hdecode
  constructor
  · rintro ⟨heq, -⟩
    have hcut : clearMounted sb.sb_flags % 2 ^ 32 = clearMounted sb.sb_flags :=
      congrArg Sb.sb_flags (hdecode.symm.trans heq)
    have hlt : clearMounted sb.sb_flags < 2 ^ 32 := by
      rw [← hcut]
      exact Nat.mod_lt _ (by decide)
    exact (clearMounted_lt_iff hflags).mp hlt
  · intro hlt
    rw [Nat.mod_eq_of_lt ((clearMounted_lt_iff hflags).mpr hlt)] at hdecode
    refine ⟨hdecode, ?_⟩
    have hget : Superblock.sb_flags.get (blockRead d 0) = clearMounted sb.sb_flags :=
      congrArg Sb.sb_flags hdecode
    rw [hget, clearMounted_isMounted]

/-- The block as the mount left it does not count as unmounted. -/
lemma not_persisted_mounted {kfs_sb : List Byte} (hpage : Superblock.size ≤ kfs_sb.length)
    (now : ℕ) {sb : Sb} {now' : ℕ} {d : Disk} (hd : blockRead d 0 = (mountSuper kfs_sb now).2) :
    ¬ Persisted sb now' d := by
  rintro ⟨-, hflag⟩
  rw [hd] at hflag
  exact mountSuper_page_isMounted hpage now hflag

/-- The magic of `__sb` does not change in a run. -/
lemma magic_run {k k' : Kfs} {t : List Op} (hrun : Run.run step k t = some k') :
    k'.sb.sb_magic = k.sb.sb_magic := by
  have hstep : ∀ s a s', step s a = some s' → True → s.sb.sb_magic = k.sb.sb_magic →
      s'.sb.sb_magic = k.sb.sb_magic := by
    intro s a s' hs _ h
    cases a with
    | change sb_flags si_table slot_table blockmap =>
      obtain rfl := Option.some.inj hs
      exact h
    | pass =>
      simp only [step] at hs
      split at hs
      · obtain rfl := Option.some.inj hs
        exact h
      · cases hs
  exact (Run.run_invariant hstep rfl (Run.along_of_forall fun _ _ _ => trivial)).of_run hrun

/-- **What an unmount persists.** In every run of a mount, changes of `__sb` and passes of the
cache thread, and an unmount, the block of the superblock holds `__sb` if and only if the thread
made no pass between the `cache_element_mark_dirty` of the mount and the unmount, and the flags
fit into their field. -/
theorem umount_persists_iff {menv : MountEnv} {cache_page_len : ℕ} {k k₁ k₂ k₃ : Kfs}
    {ops : List Op} {uenv : UmountEnv} (hblock : (k.device 0).length = kfsBlocksize)
    (hmount : kfsMount menv cache_page_len k = some (0, k₁))
    (hrun : Run.run step k₁ ops = some k₂) (humount : kfsUmount uenv k₂ = some (0, k₃)) :
    Persisted k₂.sb uenv.now k₃.device ↔
      (menv.sync_wait.passes = 0 ∧ Op.pass ∉ ops) ∧ k₂.sb.sb_flags < 2 ^ 32 := by
  have hsize : Superblock.size ≤ (k.device 0).length := hblock ▸ (by decide)
  have hpage : Superblock.size ≤ (menv.super k).2.length := by
    rw [MountEnv.super, length_mountSuper]
    exact hsize
  have hmagic₂ : k₂.sb.sb_magic = kfsMagic := by
    by_contra hne
    -- `kfs_umount` refuses a wrong magic with -1
    rw [kfsUmount, if_pos hne] at humount
    simp at humount
  rcases kfsMount_end menv cache_page_len k with ⟨rc, k', hmount', hend⟩
  rw [hmount, Option.some.injEq, Prod.mk.injEq] at hmount'
  rcases hmount' with ⟨rfl, rfl⟩
  generalize hrc : (0 : ℤ) = rc at hend
  cases hend with
  | unmapped d h => cases hrc
  | unsynced d h hsync => cases hrc
  | inactive d h hsync hmagic =>
    -- mounted without the magic: there is no unmount that returns 0
    exact absurd ((magic_run hrun).symm.trans hmagic₂) hmagic
  | mounted p h hsync hmagic =>
    rcases session_mounted h k p with ⟨el, hsession⟩
    rcases hsession.run hrun with ⟨fresh, c, el, hlast, hfresh⟩
    rcases kfsUmount_session uenv hlast hmagic₂ with ⟨d, hend, hd⟩
    rw [humount, Option.some.injEq, Prod.mk.injEq] at hend
    rcases hend with ⟨-, rfl⟩
    rw [device_start]
    have hzero : blockRead d 0 = d 0 := rfl
    have hfresh' : fresh = true ↔ menv.sync_wait.passes = 0 ∧ Op.pass ∉ ops := by
      simpa using hfresh
    rw [← hfresh']
    cases hcase : fresh with
    | true =>
      rw [hcase, if_pos rfl, ← hzero] at hd
      simp only [true_and]
      exact persisted_encoded_iff hpage hlast.typed hlast.flags hlast.magic hlast.c_time hd
    | false =>
      rw [hcase, if_neg Bool.false_ne_true, ← hzero] at hd
      simp only [Bool.false_eq_true, false_and, iff_false]
      exact not_persisted_mounted hsize menv.now hd

/-- A mount of the device that succeeds. -/
lemma exists_mount_ok :
    ∃ k₁ c el, kfsMount (.ok magicDisk 0 ⟨[true], 0⟩) 8 (.start magicDisk) = some (0, k₁) ∧
      Session ((MountEnv.ok magicDisk 0 ⟨[true], 0⟩).super (.start magicDisk)).2 true k₁ c el ∧
      k₁.sb.sb_magic = kfsMagic ∧ k₁.sb.sb_flags &&& kfsIsMounted ≠ 0 := by
  rcases kfsMount_end (.ok magicDisk 0 ⟨[true], 0⟩) 8 (.start magicDisk) with ⟨rc, k', hmount, hend⟩
  cases hend with
  | unmapped d h => exact absurd (maps_ok 0 _) h
  | unsynced d h hsync => exact absurd hsync (by simp [MountEnv.ok])
  | inactive d h hsync hmagic =>
    rw [super_magic, device_start, magic_magicDisk] at hmagic
    exact absurd rfl hmagic
  | mounted p h hsync hmagic =>
    rcases session_mounted h (.start magicDisk) p with ⟨el, hsession⟩
    exact ⟨_, _, el, hmount, hsession, hmagic, mountSuper_isMounted _ _⟩

lemma length_magicDisk (b : ℕ) : (magicDisk b).length = kfsBlocksize := by
  rw [magicDisk, CField.length_put, length_pagesAlloc, Nat.mul_one]

/-- A mount during which the thread makes no pass, and the unmount right after it. -/
theorem umount_persists_at_once :
    ∃ k₁ k₃, kfsMount (.ok magicDisk 0 ⟨[true], 0⟩) 8 (.start magicDisk) = some (0, k₁) ∧
      kfsUmount ⟨1, 0⟩ k₁ = some (0, k₃) ∧
      (Persisted k₁.sb (1 : Fin (2 ^ 64)) k₃.device ↔
        (0 = 0 ∧ Op.pass ∉ []) ∧ k₁.sb.sb_flags < 2 ^ 32) := by
  rcases exists_mount_ok with ⟨k₁, c, el, hmount, hsession, hmagic, hflag⟩
  rcases kfsUmount_session ⟨1, 0⟩ hsession hmagic with ⟨d, humount, -⟩
  rw [if_neg hflag] at humount
  exact ⟨k₁, _, hmount, humount,
    umount_persists_iff (by rw [device_start, length_magicDisk]) hmount (Run.run_nil (s := k₁))
      humount⟩

/-- The thread makes one pass after the mount: the device keeps the superblock that the mount
wrote. -/
theorem umount_after_pass :
    ∃ k₁ k₂ k₃, kfsMount (.ok magicDisk 0 ⟨[true], 0⟩) 8 (.start magicDisk) = some (0, k₁) ∧
      Run.run step k₁ [.pass] = some k₂ ∧ kfsUmount ⟨1, 0⟩ k₂ = some (0, k₃) ∧
      blockRead k₃.device 0 =
        ((MountEnv.ok magicDisk 0 ⟨[true], 0⟩).super (.start magicDisk)).2 ∧
      ¬ Persisted k₂.sb (1 : Fin (2 ^ 64)) k₃.device := by
  have hsize : Superblock.size ≤ ((Kfs.start magicDisk).device 0).length := by
    rw [device_start, length_magicDisk]
    decide
  rcases exists_mount_ok with ⟨k₁, c, el, hmount, hsession, hmagic, hflag⟩
  have hrun : Run.run step k₁ [.pass] =
      some { k₁ with sb_page_cache := .live true (threadPass callbacks c) } :=
    Run.run_cons_eq_some.mpr ⟨_, by rw [step, hsession.cache], Run.run_nil⟩
  rcases kfsUmount_session ⟨1, 0⟩ hsession.pass hmagic with ⟨d, humount, hd⟩
  rw [if_neg hflag] at humount
  exact ⟨k₁, _, _, hmount, hrun, humount, hd, not_persisted_mounted hsize _ hd⟩

end KanekFs.Super
