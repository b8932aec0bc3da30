import KanekFs.Page.Lifetime
import KanekFs.Super.Mount
import KanekFs.Super.Verify

/-!
# Mounting

`kfs_mount` of `kfs_super.c`, with `kfs_open` and `kfs_active`, as changes of what the program
keeps: `__sb`, the page cache that it refers to, and the device.

* `MountEnv` is the outcome of every step that can fail, with the passes that the cache thread
  makes meanwhile.
* `kfsActive_live` says that `Kfs.kfsActive` is `kfsActive` where there is a page cache.
* `MountEnd` lists what a mount can end in, and `kfsMount_end` says that it ends in one of these.
* `mount_result_iff` is the exact condition under which the result of `kfs_mount` tells whether
  the file system is mounted.
-/

namespace KanekFs.Super

open Bytes Cache Page

/-! ## Definitions -/

/-- What `sb_page_cache` points to. -/
inductive PgCacheRef
  | null
  | live (ca_active : Bool) (cache : PgCache)
  /-- The cache was destroyed. -/
  | freed

/-- The program: `__sb`, its page cache, the slot of the element `sb_superblock_page`, and the
device while no page cache is on it. -/
structure Kfs where
  sb : Sb
  sb_page_cache : PgCacheRef
  sb_superblock_page : Option ℕ
  disk : Disk

/-- The device. -/
def Kfs.device (k : Kfs) : Disk :=
  match k.sb_page_cache with
  | .live _ c => c.world
  | _ => k.disk

/-- `kfs_active`; no result where it reads a page cache that is not there. -/
def Kfs.kfsActive (k : Kfs) : Option ℤ :=
  if k.sb.sb_magic ≠ kfsMagic then some (-1)
  else if k.sb.sb_flags &&& kfsIsMounted = 0 then some (-1)
  else
    match k.sb_page_cache with
    | .live ca_active _ => some (if ca_active = false then -1 else 0)
    | _ => none

/-- The outcome of the steps of `kfs_mount`. -/
structure MountEnv where
  /-- `kfs_verify`, and the file as it reads it: it can be replaced before it is opened. -/
  verify : VerifyEnv
  verified : Disk
  /-- `open`. -/
  fd : ℤ
  /-- `pgcache_alloc` has the memory and the mutexes. -/
  pgcache : Bool
  /-- `pthread_create`, and the wait for the thread. -/
  create_rc : ℤ
  start : List Bool
  map : MapEnv
  map_wait : Wait
  /-- `time`. -/
  now : Fin (2 ^ 64)
  sync_wait : Wait

/-- The thread has set `CACHE_ACTIVE`. -/
def MountEnv.started (env : MountEnv) : Bool := env.start.contains true

/-- `kfs_open`. -/
def kfsOpen (env : MountEnv) : Option ℤ :=
  (kfsVerify env.verify env.verified 0 0).map fun rc => if rc < 0 then rc else env.fd

/-- The page cache of `k` is destroyed, and `rc` is returned. `__sb` stays as it is. -/
def Kfs.destroy (k : Kfs) (running : Bool) (c : PgCache) (rc : ℤ) : Option (ℤ × Kfs) :=
  (pgcacheDestroy running c).map fun d => (rc, { k with sb_page_cache := .freed, disk := d })

/-- `kfs_mount` once the page of the superblock is filled in: the sync and the last check. -/
def mountSync (env : MountEnv) (i : ℕ) (sb : Sb) (c : PgCache) (k : Kfs) : Option (ℤ × Kfs) :=
  match pgcacheElementSync env.sync_wait i c with
  | none => none
  | some (c, rc) =>
    let k := { k with sb := sb, sb_page_cache := .live env.started c,
                      sb_superblock_page := some i }
    if rc ≠ 0 then k.destroy true c rc
    else
      match k.kfsActive with
      | none => none
      -- `rc` is still 0 here, whatever `kfs_active` found
      | some active => if active ≠ 0 then k.destroy true c rc else some (rc, k)

/-- `kfs_mount` once the element of the superblock is mapped, in slot `i`. -/
def mountPage (env : MountEnv) (i : ℕ) (c : PgCache) (k : Kfs) : Option (ℤ × Kfs) :=
  match c.slot i with
  | none => none
  | some el =>
    match el.data.pe_mem_ptr with
    | .mem (kfs_sb :: rest) =>
      let r := mountSuper kfs_sb env.now
      let c := c.setSlot i (some { el with data :=
        { el.data with pe_mem_ptr := .mem (r.2 :: rest) } })
      mountSync env i r.1 c k
    | _ => none

/-- `kfs_mount`. The page cache is only in `__sb` once the page is there, so an earlier failure
destroys it and leaves `__sb` alone. -/
def kfsMount (env : MountEnv) (cache_page_len : ℕ) (k : Kfs) : Option (ℤ × Kfs) :=
  match kfsOpen env with
  | none => none
  | some fd =>
    if fd < 0 then some (-1, k)
    else if env.pgcache = false then some (-1, k)
    else
      let c := pgcacheAlloc cache_page_len k.device
      if pgcacheEnableSync env.create_rc env.start ≠ 0 then
        (pgcacheDestroy (env.create_rc = 0) c).map fun d => (-1, { k with disk := d })
      else
        match pgcacheElementMapSync env.map env.map_wait 0 1 c with
        | none => none
        | some (c, none) => (pgcacheDestroy true c).map fun d => (-1, { k with disk := d })
        | some (c, some i) => mountPage env i c k

/-! ## The outcomes -/

section Outcomes

variable {env : MountEnv} {cache_page_len i : ℕ} {k : Kfs} {c : PgCache} {el : PgElement}

/-- Where there is a page cache, `kfs_active` is that of the mounted file system. -/
lemma kfsActive_live {ca_active : Bool} (hlive : k.sb_page_cache = .live ca_active c) :
    k.kfsActive = some (kfsActive ⟨k.sb, c.world, ca_active⟩) := by
  simp only [Kfs.kfsActive, kfsActive, hlive]
  split_ifs <;> rfl

/-- `kfs_open` prints nothing, so it always returns. -/
lemma exists_kfsOpen (env : MountEnv) : ∃ fd, kfsOpen env = some fd := by
  rcases exists_kfsVerify env.verify env.verified 0 with ⟨rc, hrc⟩
  exact ⟨_, by rw [kfsOpen, hrc, Option.map_some]⟩

/-- Every step up to the mapping of the superblock succeeds. -/
structure MountEnv.Maps (env : MountEnv) (cache_page_len : ℕ) : Prop where
  opened : ∃ fd, kfsOpen env = some fd ∧ 0 ≤ fd
  allocated : env.pgcache = true
  enabled : pgcacheEnableSync env.create_rc env.start = 0
  mapped : 0 < cache_page_len ∧ env.map.Succeeds ∧ env.map_wait.rounds ≠ []

lemma MountEnv.Maps.started (h : env.Maps cache_page_len) : env.started = true := by
  have hstart := (pgcacheEnableSync_eq_zero.mp h.enabled).2
  simpa [MountEnv.started] using hstart

/-- A mount that does not get to the superblock fails, and leaves `__sb` as it is. -/
lemma kfsMount_of_not_maps (h : ¬ env.Maps cache_page_len) (k : Kfs) :
    ∃ d, kfsMount env cache_page_len k = some (-1, { k with disk := d }) := by
  rcases exists_kfsOpen env with ⟨fd, hfd⟩
  simp only [kfsMount, hfd]
  split_ifs with hopen halloc henable
  · exact ⟨k.disk, rfl⟩
  · exact ⟨k.disk, rfl⟩
  · rcases exists_pgcacheDestroy (env.create_rc = 0) (unlocked_pgcacheAlloc cache_page_len k.device)
      with ⟨d, hd⟩
    exact ⟨d, by simp [hd]⟩
  · rcases pgcacheElementMapSync_fresh env.map env.map_wait 0 1 cache_page_len k.device with
      ⟨hmapped, -⟩ | ⟨-, c, hmap, hc⟩
    · exact absurd ⟨⟨fd, hfd, not_lt.mp hopen⟩, by simpa using halloc, not_not.mp henable,
        hmapped⟩ h
    · rcases exists_pgcacheDestroy true hc with ⟨d, hd⟩
      exact ⟨d, by simp [hmap, hd]⟩

/-- The superblock as `kfs_mount` reads it, and its page afterwards. -/
def MountEnv.super (env : MountEnv) (k : Kfs) : Sb × List Byte :=
  mountSuper (k.device 0) env.now

lemma super_magic (env : MountEnv) (k : Kfs) :
    (env.super k).1.sb_magic = Superblock.sb_magic.get (k.device 0) := rfl

/-- The element of the superblock, at address `p`, when `kfs_mount` has filled it in. -/
def superElement (env : MountEnv) (k : Kfs) (p : ℕ) : PgElement :=
  let el := firstElement p k.device
  { el with data := { el.data with pe_mem_ptr := .mem [(env.super k).2] } }

/-- A mount that gets to the superblock goes on with the sync of its page. -/
lemma kfsMount_of_maps (h : env.Maps cache_page_len) (k : Kfs) :
    ∃ p, kfsMount env cache_page_len k = mountSync env 0 (env.super k).1
      (withFirst cache_page_len k.device (superElement env k p)) k := by
  rcases pgcacheElementMapSync_fresh env.map env.map_wait 0 1 cache_page_len k.device with
    ⟨-, p, hmap⟩ | ⟨hfail, -⟩
  · have hone : OneElement (withFirst cache_page_len k.device (firstElement p k.device))
        (firstElement p k.device) := oneElement_withFirst h.mapped.1 rfl rfl
    rcases h.opened with ⟨fd, hfd, hpos⟩
    refine ⟨p, ?_⟩
    simp only [kfsMount, hfd]
    rw [if_neg (not_lt.mpr hpos), if_neg (by simp [h.allocated]), if_neg (not_not.mpr h.enabled)]
    simp only [hmap, mountPage, hone.self]
    exact congrArg (fun c => mountSync env 0 (env.super k).1 c k) (setSlot_withFirst _ _)
  · exact absurd h.mapped hfail

/-- The page cache that the sync of the superblock leaves. -/
def syncedCache (env : MountEnv) (cache_page_len : ℕ) (k : Kfs) (p : ℕ) : PgCache :=
  threadPasses env.sync_wait.passes
    (withFirst cache_page_len k.device (dirtied (superElement env k p)))

/-- The program after the page cache was destroyed behind `__sb`. -/
def dangling (env : MountEnv) (k : Kfs) (d : Disk) : Kfs :=
  ⟨(env.super k).1, .freed, some 0, d⟩

/-- What `kfs_mount` can end in. -/
inductive MountEnd (env : MountEnv) (cache_page_len : ℕ) (k : Kfs) : ℤ → Kfs → Prop
  /-- The superblock was not mapped. -/
  | unmapped (d : Disk) (h : ¬ env.Maps cache_page_len) :
      MountEnd env cache_page_len k (-1) { k with disk := d }
  /-- The sync of its page timed out. -/
  | unsynced (d : Disk) (h : env.Maps cache_page_len) (hsync : env.sync_wait.rounds = []) :
      MountEnd env cache_page_len k 1 (dangling env k d)
  /-- `kfs_active` failed. -/
  | inactive (d : Disk) (h : env.Maps cache_page_len) (hsync : env.sync_wait.rounds ≠ [])
      (hmagic : (env.super k).1.sb_magic ≠ kfsMagic) :
      MountEnd env cache_page_len k 0 (dangling env k d)
  | mounted (p : ℕ) (h : env.Maps cache_page_len) (hsync : env.sync_wait.rounds ≠ [])
      (hmagic : (env.super k).1.sb_magic = kfsMagic) :
      MountEnd env cache_page_len k 0
        ⟨(env.super k).1, .live true (syncedCache env cache_page_len k p), some 0, k.disk⟩

lemma oneElement_dirtied (h : env.Maps cache_page_len) (k : Kfs) (p : ℕ) :
    OneElement (withFirst cache_page_len k.device (dirtied (superElement env k p)))
      (dirtied (superElement env k p)) := oneElement_withFirst h.mapped.1 rfl rfl

/-- `kfs_mount` returns, with one of these outcomes. -/
theorem kfsMount_end (env : MountEnv) (cache_page_len : ℕ) (k : Kfs) :
    ∃ rc k', kfsMount env cache_page_len k = some (rc, k') ∧
      MountEnd env cache_page_len k rc k' := by
  by_cases h : env.Maps cache_page_len
  · rcases kfsMount_of_maps h k with ⟨p, hmount⟩
    have hone : OneElement (withFirst cache_page_len k.device (superElement env k p))
        (superElement env k p) := oneElement_withFirst h.mapped.1 rfl rfl
    have hsynced := pgcacheElementSync_oneElement hone env.sync_wait
    rw [setSlot_withFirst] at hsynced
    rcases exists_threadPasses (oneElement_dirtied h k p) rfl env.sync_wait.passes with ⟨el, hel⟩
    rcases exists_pgcacheDestroy true hel.allUnlocked with ⟨d, hd⟩
    simp only [hmount, mountSync, hsynced]
    by_cases hsync : env.sync_wait.rounds = []
    · -- `pgcache_destroy` with the pointer left in `__sb`
      have hrc : cacheElementWaitForFlags env.sync_wait.rounds = 1 := by rw [hsync]; rfl
      refine ⟨1, dangling env k d, ?_, .unsynced d h hsync⟩
      simp only [hrc, Kfs.destroy, hd, dangling]
      rfl
    · have hrc := cacheElementWaitForFlags_eq_zero.mpr hsync
      have hflag : (env.super k).1.sb_flags &&& kfsIsMounted ≠ 0 := mountSuper_isMounted _ _
      by_cases hmagic : (env.super k).1.sb_magic = kfsMagic
      · refine ⟨0, _, ?_, .mounted p h hsync hmagic⟩
        simp [hrc, h.started, Kfs.kfsActive, hmagic, hflag, syncedCache]
      · refine ⟨0, dangling env k d, ?_, .inactive d h hsync hmagic⟩
        simp [hrc, Kfs.kfsActive, hmagic, Kfs.destroy, hd, dangling]
  · rcases kfsMount_of_not_maps h k with ⟨d, hd⟩
    exact ⟨-1, _, hd, .unmapped d h⟩

end Outcomes

/-! ## The result of a mount -/

/-- `__sb` is not mounted: `kfs_active` fails before it reads the page cache. -/
def Kfs.Unmounted (k : Kfs) : Prop :=
  k.sb.sb_magic ≠ kfsMagic ∨ k.sb.sb_flags &&& kfsIsMounted = 0

instance (k : Kfs) : Decidable k.Unmounted := inferInstanceAs (Decidable (_ ∨ _))

/-- There is a page cache behind `__sb`. -/
def Kfs.CacheAlive (k : Kfs) : Prop := ∃ ca_active c, k.sb_page_cache = .live ca_active c

/-- A result of 0 says that the file system is mounted, any other that it is not, and
`kfs_active` can be called in either case. -/
def MountResult (rc : ℤ) (k : Kfs) : Prop :=
  (rc = 0 → k.CacheAlive ∧ k.kfsActive = some 0) ∧ (rc ≠ 0 → k.kfsActive = some (-1))

/-- An unmounted `__sb` is inactive, whatever its page cache is. -/
lemma Kfs.Unmounted.kfsActive {k : Kfs} (h : k.Unmounted) : k.kfsActive = some (-1) := by
  unfold Kfs.kfsActive
  rcases h with hmagic | hflag
  · rw [if_pos hmagic]
  · split_ifs <;> rfl

/-- After the page cache was destroyed behind it, `__sb` is inactive only by its magic. -/
lemma kfsActive_dangling (env : MountEnv) (k : Kfs) (d : Disk) :
    (dangling env k d).kfsActive =
      if (env.super k).1.sb_magic = kfsMagic then none else some (-1) := by
  have hflag : (env.super k).1.sb_flags &&& kfsIsMounted ≠ 0 := mountSuper_isMounted _ _
  by_cases hmagic : (env.super k).1.sb_magic = kfsMagic <;>
    simp [Kfs.kfsActive, dangling, hflag, hmagic]

/-- **What the result of a mount says.** From an unmounted `__sb`, `kfs_mount` always returns,
and its result tells whether the file system is mounted if and only if the superblock was not
mapped, or its page has the magic and the sync did not time out, or neither. -/
theorem mount_result_iff (env : MountEnv) (cache_page_len : ℕ) {k : Kfs} (hk : k.Unmounted) :
    ∃ rc k', kfsMount env cache_page_len k = some (rc, k') ∧
      (MountResult rc k' ↔ ¬ env.Maps cache_page_len ∨
        (Superblock.sb_magic.get (k.device 0) = kfsMagic ↔ env.sync_wait.rounds ≠ [])) := by
  rcases kfsMount_end env cache_page_len k with ⟨rc, k', hmount, hend⟩
  refine ⟨rc, k', hmount, ?_⟩
  have hsb := super_magic env k
  cases hend with
  | unmapped d h =>
    -- `__sb` is what it was
    have hun : ({ k with disk := d } : Kfs).Unmounted := hk
    exact iff_of_true ⟨fun h0 => absurd h0 (by decide), fun _ => hun.kfsActive⟩ (.inl h)
  | unsynced d h hsync =>
    rw [MountResult, kfsActive_dangling, hsb]
    simp [h, hsync]
  | inactive d h hsync hmagic =>
    -- 0 is returned without a page cache
    rw [hsb] at hmagic
    simp [MountResult, Kfs.CacheAlive, dangling, h, hsync, hmagic]
  | mounted p h hsync hmagic =>
    have hflag : (env.super k).1.sb_flags &&& kfsIsMounted ≠ 0 := mountSuper_isMounted _ _
    have hactive := hmagic
    rw [hsb] at hmagic
    simp [MountResult, Kfs.CacheAlive, Kfs.kfsActive, hactive, hflag, hsync, hmagic]

/-! ## A mount whose page cannot be synced -/

/-- `__sb` after `memset`. -/
def Sb.zero : Sb where
  sb_magic := 0
  sb_root_super_inode := 0
  sb_si_table := ⟨0, 0, ⟨0, 0, 0, 0⟩, ⟨0, 0, 0, 0⟩⟩
  sb_slot_table := ⟨0, 0, ⟨0, 0, 0, 0⟩, ⟨0, 0, 0, 0⟩⟩
  sb_blockmap := ⟨0, 0, ⟨0, 0, 0, 0⟩, ⟨0, 0, 0, 0⟩⟩
  sb_c_time := 0
  sb_m_time := 0
  sb_a_time := 0
  sb_flags := 0

/-- The program before its first mount. -/
def Kfs.start (d : Disk) : Kfs := ⟨Sb.zero, .null, none, d⟩

@[simp] lemma device_start (d : Disk) : (Kfs.start d).device = d := rfl

/-- Every step of `kfs_mount` up to the sync succeeds. -/
def MountEnv.ok (d : Disk) (now : Fin (2 ^ 64)) (sync_wait : Wait) : MountEnv where
  verify := ⟨0, true, false, true, 3, true, fun _ => true⟩
  verified := d
  fd := 3
  pgcache := true
  create_rc := 0
  start := [true]
  map := .ok 1
  map_wait := ⟨[true], 0⟩
  now := now
  sync_wait := sync_wait

/-- A device that `kfs_verify` accepts: every block has the magic. -/
def magicDisk : Disk := fun _ => Superblock.sb_magic.put (pagesAlloc 1) kfsMagic

lemma magic_magicDisk (b : ℕ) : Superblock.sb_magic.get (magicDisk b) = kfsMagic :=
  CField.get_put_same kfsMagic (by rw [length_pagesAlloc]; decide)

/-- The superblock gets mapped. -/
lemma maps_ok (now : Fin (2 ^ 64)) (w : Wait) : (MountEnv.ok magicDisk now w).Maps 8 where
  opened := by
    have hmagic : Superblock.sb_magic.get (blockRead magicDisk 0) = kfsMagic := magic_magicDisk _
    exact ⟨3, by simp [kfsOpen, kfsVerify, MountEnv.ok, hmagic], by decide⟩
  allocated := rfl
  enabled := rfl
  mapped := ⟨by decide, MapEnv.ok_succeeds 1, by simp [MountEnv.ok]⟩

theorem mount_result_iff_start :
    ∃ rc k', kfsMount (.ok magicDisk 0 ⟨[true], 0⟩) 8 (.start magicDisk) = some (rc, k') ∧
      (MountResult rc k' ↔ ¬ (MountEnv.ok magicDisk 0 ⟨[true], 0⟩).Maps 8 ∨
        (Superblock.sb_magic.get ((Kfs.start magicDisk).device 0) = kfsMagic ↔ [true] ≠ [])) :=
  mount_result_iff (.ok magicDisk 0 ⟨[true], 0⟩) 8 (k := .start magicDisk) (by decide)

/-- The sync times out: the mount fails with 1, and `kfs_active` reads the page cache that was
destroyed. -/
theorem mount_timeout_active :
    (Kfs.start magicDisk).Unmounted ∧
    ∃ k', kfsMount (.ok magicDisk 0 ⟨[], 0⟩) 8 (.start magicDisk) = some (1, k') ∧
      k'.kfsActive = none ∧ ¬ MountResult 1 k' := by
  refine ⟨by decide, ?_⟩
  rcases kfsMount_end (.ok magicDisk 0 ⟨[], 0⟩) 8 (.start magicDisk) with ⟨rc, k', hmount, hend⟩
  cases hend with
  | unmapped d h => exact absurd (maps_ok 0 ⟨[], 0⟩) h
  | unsynced d h hsync =>
    have hmagic : ((MountEnv.ok magicDisk 0 ⟨[], 0⟩).super (.start magicDisk)).1.sb_magic =
        kfsMagic := by rw [super_magic, device_start, magic_magicDisk]
    have hactive := kfsActive_dangling (.ok magicDisk 0 ⟨[], 0⟩) (.start magicDisk) d
    rw [if_pos hmagic] at hactive
    refine ⟨_, hmount, hactive, ?_⟩
    intro h
    rw [h.2 (by decide)] at hactive
    cases hactive
  | inactive d h hsync => exact absurd rfl hsync
  | mounted p h hsync => exact absurd rfl hsync

end KanekFs.Super
