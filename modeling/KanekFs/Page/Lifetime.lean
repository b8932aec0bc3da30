import KanekFs.Page.PageCache

/-!
# Starting and destroying a page cache

The blocking calls of `page_cache.c`, with the waits of `cache.c` under them, and
`pgcache_destroy`. They are what `kfs_mount` and `kfs_umount` are made of.

* `cacheWaitForFlags` waits for its flags, `cacheElementWaitForFlags` does not:
  `cacheElementWaitForFlags_eq_zero` says that it succeeds in its first round.
* `OneElement` is a page cache with a single element, in slot 0. Its passes and its destruction
  are those of this element: `threadPass_oneElement` and `pgcacheDestroy_oneElement`.
* `pgcacheElementMap_fresh` and `pgcacheElementMapSync_fresh` map the first page of a new page
  cache.
-/

namespace KanekFs.Page

open Bytes Cache

/-! ## Waiting

A wait is a list: for each round that begins before the timeout, whether the flags are there. -/

/-- `cache_wait_for_flags`. -/
def cacheWaitForFlags : List Bool → ℤ
  | [] => 1
  | seen :: rounds => if seen then 0 else cacheWaitForFlags rounds

/-- The loop of `cache_element_wait_for_flags`. It is left when `rc` is 0, and `rc` is not set
where the flags are missing. -/
def elementWaitLoop (rc : ℤ) : List Bool → ℤ
  | [] => 1
  | seen :: rounds =>
    let rc := if seen then 0 else rc
    if rc = 0 then rc else elementWaitLoop rc rounds

/-- `cache_element_wait_for_flags`. -/
def cacheElementWaitForFlags (rounds : List Bool) : ℤ := elementWaitLoop 0 rounds

lemma cacheWaitForFlags_eq_zero {rounds : List Bool} :
    cacheWaitForFlags rounds = 0 ↔ true ∈ rounds := by
  induction rounds with
  | nil => simp [cacheWaitForFlags]
  | cons seen rounds ih => cases seen <;> simp [cacheWaitForFlags, ih]

/-- Whatever the flags are, the first round ends the wait. -/
lemma cacheElementWaitForFlags_eq_zero {rounds : List Bool} :
    cacheElementWaitForFlags rounds = 0 ↔ rounds ≠ [] := by
  cases rounds with
  | nil => simp [cacheElementWaitForFlags, elementWaitLoop]
  | cons seen rounds => cases seen <;> simp [cacheElementWaitForFlags, elementWaitLoop]

/-! ## The calls -/

/-- `cache_enable` of a cache that is ready; `create_rc` is the result of `pthread_create`. -/
def cacheEnable (create_rc : ℤ) : ℤ := if create_rc ≠ 0 then -1 else 0

/-- `pgcache_enable_sync`; `rounds` is its wait for `CACHE_ACTIVE`. -/
def pgcacheEnableSync (create_rc : ℤ) (rounds : List Bool) : ℤ :=
  let rc := cacheEnable create_rc
  if rc ≠ 0 then rc else cacheWaitForFlags rounds

/-- `pgcache_enable_sync` succeeds when there is a thread and it has set `CACHE_ACTIVE`. -/
lemma pgcacheEnableSync_eq_zero {create_rc : ℤ} {rounds : List Bool} :
    pgcacheEnableSync create_rc rounds = 0 ↔ create_rc = 0 ∧ true ∈ rounds := by
  by_cases hcreate : create_rc = 0 <;>
    simp [pgcacheEnableSync, cacheEnable, hcreate, cacheWaitForFlags_eq_zero]

/-- The thread makes `n` complete passes. -/
def threadPasses (n : ℕ) (c : PgCache) : PgCache := (threadPass callbacks)^[n] c

/-- A wait for the flags of an element, and the passes of the thread meanwhile. -/
structure Wait where
  rounds : List Bool
  passes : ℕ

/-- `pgcache_element_map_sync`. It maps block 0 whatever it is asked for. -/
def pgcacheElementMapSync (env : MapEnv) (w : Wait) (_addr : ℕ) (_numblocks : ℤ) (c : PgCache) :
    Option (PgCache × Option ℕ) :=
  match pgcacheElementMap env 0 1 c with
  | none => none
  | some (c, none) => some (c, none)
  | some (c, some i) =>
    let c := threadPasses w.passes c
    if cacheElementWaitForFlags w.rounds ≠ 0 then (cacheElementMarkEviction i c).map (·, none)
    else some (c, some i)

/-- `pgcache_element_sync`. -/
def pgcacheElementSync (w : Wait) (i : ℕ) (c : PgCache) : Option (PgCache × ℤ) :=
  match c.slot i with
  | none => none
  | some el =>
    if el.ce_flags.active = false then some (c, -1)
    else (cacheElementMarkDirty i c).map fun c =>
      (threadPasses w.passes c, cacheElementWaitForFlags w.rounds)

/-- The loop of `cache_disable`. -/
def markAllEviction (c : PgCache) : Option PgCache :=
  (List.range c.capacity).foldlM (fun c i =>
    if (c.slot i).isNone then some c else cacheElementMarkEviction i c) c

/-- `cache_disable`. The thread makes the pass that meets `CACHE_EXIT` at its end, and is joined;
`running` says whether there is a thread. -/
def cacheDisable (running : Bool) (c : PgCache) : Option PgCache :=
  (markAllEviction c).map fun c => if running then threadPass callbacks c else c

/-- `pgcache_destroy`, with the device it leaves. -/
def pgcacheDestroy (running : Bool) (c : PgCache) : Option Disk :=
  (cacheDisable running c).map Table.world

/-- What marking one element keeps, the loop of `cache_disable` keeps. -/
lemma markAllEviction_induction {P : PgCache → Prop} {c c' : PgCache}
    (hP : ∀ c i c', cacheElementMarkEviction i c = some c' → P c → P c') (h : P c)
    (hmark : markAllEviction c = some c') : P c' := by
  unfold markAllEviction at hmark
  generalize List.range c.capacity = is at hmark
  induction is generalizing c with
  | nil => exact Option.some.inj hmark ▸ h
  | cons i is ih =>
    rw [List.foldlM_cons, Option.bind_eq_bind, Option.bind_eq_some_iff] at hmark
    rcases hmark with ⟨c₁, hone, hrest⟩
    refine ih ?_ hrest
    split_ifs at hone
    · exact Option.some.inj hone ▸ h
    · exact hP c i c₁ hone h

/-! ## One element -/

section OneElement

variable {c : PgCache} {el : PgElement}

/-- The only element is in slot 0, active and unlocked. -/
structure OneElement (c : PgCache) (el : PgElement) : Prop where
  self : c.slot 0 = some el
  other : ∀ j ≠ 0, c.slot j = none
  in_use : 0 < c.ca_elements_in_use
  active : el.ce_flags.active = true
  unlocked : el.ce_locked = false

/-- The element after `cache_element_mark_eviction`. -/
def evicting (el : PgElement) : PgElement :=
  { el with ce_flags := { el.ce_flags with evict := true } }

/-- The element after `cache_element_mark_dirty`. -/
def dirtied (el : PgElement) : PgElement :=
  { el with ce_flags := { el.ce_flags with dirty := true, clean := false } }

/-- The slots are numbered from the occupied one on. -/
lemma OneElement.range (h : OneElement c el) :
    ∃ is : List ℕ, List.range c.capacity = 0 :: is ∧ ∀ i ∈ is, i ≠ 0 := by
  obtain ⟨n, hn⟩ : ∃ n, c.capacity = n + 1 :=
    Nat.exists_eq_add_one.mpr (lt_capacity_of_slot h.self)
  refine ⟨(List.range n).map Nat.succ, by rw [hn, List.range_succ_eq_map], ?_⟩
  intro i hi
  rcases List.mem_map.mp hi with ⟨k, -, rfl⟩
  exact Nat.succ_ne_zero k

/-- The element changes, and stays active and unlocked. -/
lemma OneElement.setSlot (h : OneElement c el) {el' : PgElement}
    (hactive : el'.ce_flags.active = true) (hlock : el'.ce_locked = false) :
    OneElement (c.setSlot 0 (some el')) el' where
  self := slot_setSlot_self (lt_capacity_of_slot h.self)
  other j hj := (slot_setSlot_ne hj).trans (h.other j hj)
  in_use := h.in_use
  active := hactive
  unlocked := hlock

lemma OneElement.setEvicting (h : OneElement c el) :
    OneElement (c.setSlot 0 (some (evicting el))) (evicting el) :=
  h.setSlot h.active h.unlocked

lemma OneElement.withWorld (h : OneElement c el) (d : Disk) :
    OneElement { c with world := d } el :=
  ⟨h.self, h.other, h.in_use, h.active, h.unlocked⟩

lemma OneElement.markDirty (h : OneElement c el) :
    cacheElementMarkDirty 0 c = some (c.setSlot 0 (some (dirtied el))) := by
  simp [cacheElementMarkDirty, markFlags, h.self, h.active, h.unlocked, dirtied]

lemma OneElement.markEviction (h : OneElement c el) :
    cacheElementMarkEviction 0 c = some (c.setSlot 0 (some (evicting el))) := by
  simp [cacheElementMarkEviction, markFlags, h.self, h.active, h.unlocked, evicting]

/-- A flush leaves the mark for eviction alone. -/
lemma flushIfDirty_evict (el : PgElement) (d : Disk) :
    (flushIfDirty callbacks el d).1.ce_flags.evict = el.ce_flags.evict := by
  unfold flushIfDirty
  split <;> rfl

/-- The device after the flush of the element. -/
lemma flushIfDirty_world (el : PgElement) (d : Disk) :
    (flushIfDirty callbacks el d).2 = if el.ce_flags.dirty then pgcacheOnFlush el d else d := by
  unfold flushIfDirty
  split <;> rfl

/-- Iterations over empty slots do nothing. -/
lemma foldl_threadSlot_empty {is : List ℕ} (h : ∀ i ∈ is, c.slot i = none) :
    is.foldl (threadSlot callbacks) c = c := by
  induction is with
  | nil => rfl
  | cons i is ih =>
    have hi : threadSlot callbacks c i = c := by simp [threadSlot, h i (by simp)]
    rw [List.foldl_cons, hi]
    exact ih fun j hj => h j (by simp [hj])

lemma foldlM_markEviction_empty {is : List ℕ} (h : ∀ i ∈ is, c.slot i = none) :
    is.foldlM (fun (c : PgCache) i =>
      if (c.slot i).isNone then some c else cacheElementMarkEviction i c) c = some c := by
  induction is with
  | nil => rfl
  | cons i is ih =>
    simp only [List.foldlM_cons, h i (by simp), Option.isNone_none, if_true]
    exact ih fun j hj => h j (by simp [hj])

/-- The element is dropped or stays, by its flag for eviction. -/
lemma OneElement.threadSlot (h : OneElement c el) :
    threadSlot callbacks c 0 =
      if el.ce_flags.evict then
        dropSlot callbacks 0 (flushIfDirty callbacks el c.world).1
          (flushIfDirty callbacks el c.world).2 c
      else settle callbacks 0 el c := by
  simp only [Cache.threadSlot, h.self, h.active, h.unlocked, Bool.true_eq_false,
    Bool.false_eq_true, or_self, if_false, Cache.settle]

/-- A pass is its iteration on slot 0. -/
lemma OneElement.threadPass (h : OneElement c el) :
    threadPass callbacks c = Cache.threadSlot callbacks c 0 := by
  rcases h.range with ⟨is, hrange, his⟩
  rw [Cache.threadPass, if_pos h.in_use, hrange, List.foldl_cons]
  apply foldl_threadSlot_empty
  intro i hi
  rw [h.threadSlot]
  -- evicted or not, the other slots are not touched
  split
  · exact (slot_dropSlot_ne (his i hi)).trans (h.other i (his i hi))
  · exact (slot_setSlot_ne (his i hi)).trans (h.other i (his i hi))

/-- A pass that does not evict the element flushes it if it is dirty. -/
lemma threadPass_oneElement (h : OneElement c el) (hevict : el.ce_flags.evict = false) :
    threadPass callbacks c = settle callbacks 0 el c := by
  rw [h.threadPass, h.threadSlot, hevict, if_neg Bool.false_ne_true]

/-- The flush of the element leaves one element, which is clean. -/
lemma OneElement.settle (h : OneElement c el) :
    OneElement (settle callbacks 0 el c) (flushIfDirty callbacks el c.world).1 := by
  apply OneElement.withWorld (h.setSlot ?_ ?_)
  · unfold flushIfDirty
    split <;> exact h.active
  · unfold flushIfDirty
    split <;> exact h.unlocked

/-- `cache_disable` marks the element. -/
lemma OneElement.markAllEviction (h : OneElement c el) :
    markAllEviction c = some (c.setSlot 0 (some (evicting el))) := by
  rcases h.range with ⟨is, hrange, his⟩
  have hmarked := h.setEvicting
  rw [Page.markAllEviction, hrange, List.foldlM_cons]
  simp only [h.self, Option.isNone_some, Bool.false_eq_true, if_false, h.markEviction]
  exact foldlM_markEviction_empty fun i hi => hmarked.other i (his i hi)

/-- Destroying the cache flushes the element if it is dirty, and does nothing else to the
device. -/
lemma pgcacheDestroy_oneElement (h : OneElement c el) :
    pgcacheDestroy true c = some (if el.ce_flags.dirty then pgcacheOnFlush el c.world
      else c.world) := by
  have hmarked := h.setEvicting
  have hevict : (evicting el).ce_flags.evict = true := rfl
  simp only [pgcacheDestroy, cacheDisable, h.markAllEviction, Option.map_some, if_true,
    hmarked.threadPass, hmarked.threadSlot, hevict]
  -- `pgcache_on_evict` leaves the device to the flush
  exact congrArg some (flushIfDirty_world (evicting el) c.world)

lemma threadPasses_of_clean (h : OneElement c el) (hevict : el.ce_flags.evict = false)
    (hclean : el.ce_flags.dirty = false) (n : ℕ) : threadPasses n c = c := by
  have hpass : threadPass callbacks c = c := by
    rw [threadPass_oneElement h hevict]
    simp [Cache.settle, flushIfDirty, hclean, setSlot_slot h.self]
  exact Function.iterate_fixed hpass n

/-- Of several passes the first flushes the element, and the others find it clean. -/
lemma threadPasses_succ (h : OneElement c el) (hevict : el.ce_flags.evict = false) (n : ℕ) :
    threadPasses (n + 1) c = Cache.settle callbacks 0 el c := by
  rw [threadPasses, Function.iterate_succ_apply, threadPass_oneElement h hevict]
  exact threadPasses_of_clean h.settle ((flushIfDirty_evict el c.world).trans hevict)
    (dirty_flushIfDirty c.world) n

/-- However many passes there are, one element is left. -/
lemma exists_threadPasses (h : OneElement c el) (hevict : el.ce_flags.evict = false) (n : ℕ) :
    ∃ el', OneElement (threadPasses n c) el' := by
  cases n with
  | zero => exact ⟨el, h⟩
  | succ n => exact ⟨_, threadPasses_succ h hevict n ▸ h.settle⟩

/-- Passes before the destruction make no difference to the device. -/
lemma pgcacheDestroy_threadPasses (h : OneElement c el) (hevict : el.ce_flags.evict = false)
    (n : ℕ) : pgcacheDestroy true (threadPasses n c) =
      some (if el.ce_flags.dirty then pgcacheOnFlush el c.world else c.world) := by
  cases n with
  | zero => exact pgcacheDestroy_oneElement h
  | succ n =>
    rw [threadPasses_succ h hevict, pgcacheDestroy_oneElement h.settle,
      dirty_flushIfDirty, if_neg Bool.false_ne_true]
    exact congrArg some (flushIfDirty_world el c.world)

/-- `pgcache_element_sync` marks the element dirty, and goes on after the first round. -/
lemma pgcacheElementSync_oneElement (h : OneElement c el) (w : Wait) :
    pgcacheElementSync w 0 c = some (threadPasses w.passes (c.setSlot 0 (some (dirtied el))),
      cacheElementWaitForFlags w.rounds) := by
  simp only [pgcacheElementSync, h.self, h.active, Bool.true_eq_false, if_false, h.markDirty,
    Option.map_some]

end OneElement

/-! ## A page cache without locked elements -/

section Unlocked

variable {c : PgCache} {el : PgElement}

/-- No mutex of an element was left locked. -/
def Unlocked (c : PgCache) : Prop := ∀ j el, c.slot j = some el → el.ce_locked = false

lemma OneElement.allUnlocked (h : OneElement c el) : Unlocked c := by
  intro j el' hel'
  by_cases hj : j = 0
  · subst hj
    exact slot_inj h.self hel' ▸ h.unlocked
  · rw [h.other j hj] at hel'
    cases hel'

lemma unlocked_markEviction {i : ℕ} (h : Unlocked c) (hel : c.slot i = some el) :
    ∃ c', cacheElementMarkEviction i c = some c' ∧ Unlocked c' := by
  have hlock := h i el hel
  simp only [cacheElementMarkEviction, markFlags, hel, hlock, Bool.false_eq_true, if_false]
  split
  · exact ⟨c, rfl, h⟩
  · refine ⟨_, rfl, ?_⟩
    intro j el' hel'
    by_cases hj : j = i
    · subst hj
      rw [slot_setSlot_self (lt_capacity_of_slot hel)] at hel'
      obtain rfl := Option.some.inj hel'
      rfl
    · rw [slot_setSlot_ne hj] at hel'
      exact h j el' hel'

/-- Such a cache can be destroyed: nothing waits on a mutex. -/
lemma exists_pgcacheDestroy (running : Bool) (h : Unlocked c) :
    ∃ d, pgcacheDestroy running c = some d := by
  have hloop : ∀ (is : List ℕ) (c : PgCache), Unlocked c →
      ∃ c', is.foldlM (fun (c : PgCache) i =>
        if (c.slot i).isNone then some c else cacheElementMarkEviction i c) c = some c' := by
    intro is
    induction is with
    | nil => exact fun c _ => ⟨c, rfl⟩
    | cons i is ih =>
      intro c hc
      cases hel : c.slot i with
      | none => simpa [List.foldlM_cons, hel] using ih c hc
      | some el =>
        rcases unlocked_markEviction hc hel with ⟨c', hmark, hc'⟩
        simpa [List.foldlM_cons, hel, hmark] using ih c' hc'
  rcases hloop (List.range c.capacity) c h with ⟨c', hmark⟩
  have hall : markAllEviction c = some c' := hmark
  exact ⟨_, by rw [pgcacheDestroy, cacheDisable, hall]; rfl⟩

end Unlocked

/-! ## The first page -/

section First

variable {env : MapEnv} {cap : ℕ} {d : Disk}

lemma findKey_pgcacheAlloc (key : ℕ) : findKey key (pgcacheAlloc cap d) = none := by
  cases hkey : findKey key (pgcacheAlloc cap d) with
  | none => rfl
  | some i =>
    rcases slot_of_findKey hkey with ⟨el, hel, -⟩
    rw [pgcacheAlloc, slot_cacheInit] at hel
    cases hel

lemma unlocked_pgcacheAlloc (cap : ℕ) (d : Disk) : Unlocked (pgcacheAlloc cap d) := by
  intro j el hel
  rw [pgcacheAlloc, slot_cacheInit] at hel
  cases hel

/-- A new page cache gives its first element slot 0. -/
lemma cacheElementMap_fresh (hcap : 0 < cap) :
    cacheElementMap callbacks env.el PageData.zero (pgcacheAlloc cap d) =
      some (fillSlot env.el PageData.zero 0 (pgcacheAlloc cap d)) := by
  obtain ⟨n, rfl⟩ : ∃ n, cap = n + 1 := Nat.exists_eq_add_one.mpr hcap
  have hempty : firstEmpty (pgcacheAlloc (n + 1) d) = some 0 := by
    simp [firstEmpty, pgcacheAlloc, cacheInit, List.replicate_succ, List.findIdx?_cons]
  simp only [cacheElementMap, hempty]

/-- A page cache without room maps nothing. -/
lemma cacheElementMap_empty :
    cacheElementMap callbacks env.el PageData.zero (pgcacheAlloc 0 d) =
      some (pgcacheAlloc 0 d, none) := rfl

/-- The new page cache with an element in slot 0. -/
def withFirst (cap : ℕ) (d : Disk) (el : PgElement) : PgCache :=
  { (pgcacheAlloc cap d).setSlot 0 (some el) with ca_elements_in_use := incInUse 0 }

lemma oneElement_withFirst (hcap : 0 < cap) {el : PgElement} (hactive : el.ce_flags.active = true)
    (hlock : el.ce_locked = false) : OneElement (withFirst cap d el) el where
  self := by
    have hlt : 0 < (pgcacheAlloc cap d).capacity := by
      rw [pgcacheAlloc, Cache.Table.capacity, cacheInit, List.length_replicate]
      exact hcap
    exact slot_setSlot_self hlt
  other j hj := (slot_setSlot_ne hj).trans (slot_cacheInit cap d)
  in_use := show 0 < incInUse 0 by decide
  active := hactive
  unlocked := hlock

lemma setSlot_withFirst (el el' : PgElement) :
    (withFirst cap d el).setSlot 0 (some el') = withFirst cap d el' := by
  simp [withFirst, Table.setSlot]

/-- The element that the first call of `pgcache_element_map` leaves when the page was read. -/
def firstElement (p : ℕ) (d : Disk) : PgElement :=
  { newElement p PageData.zero with ce_id := 0, data := ⟨.mem (extentRead d 0 1), 0, 1⟩ }

/-- Mapping block 0 into a new page cache: a new element is made where there is room, and is
marked for eviction where its page cannot be read. -/
lemma pgcacheElementMap_fresh (env : MapEnv) (cap : ℕ) (d : Disk) :
    (0 < cap ∧ env.Succeeds ∧ ∃ p, pgcacheElementMap env 0 1 (pgcacheAlloc cap d) =
      some (withFirst cap d (firstElement p d), some 0)) ∨
    (¬ (0 < cap ∧ env.Succeeds) ∧ ∃ c, pgcacheElementMap env 0 1 (pgcacheAlloc cap d) =
      some (c, none) ∧ Unlocked c) := by
  have hnone := unlocked_pgcacheAlloc cap d
  rcases Nat.eq_zero_or_pos cap with rfl | hcap
  · -- no slot, and no victim
    refine .inr ⟨fun h => absurd h.1 (Nat.lt_irrefl 0), pgcacheAlloc 0 d, ?_, hnone⟩
    simp only [pgcacheElementMap, findKey_pgcacheAlloc, cacheElementMap_empty]
  · have hmap : pgcacheElementMap env 0 1 (pgcacheAlloc cap d) =
        match fillSlot env.el PageData.zero 0 (pgcacheAlloc cap d) with
        | (c, none) => some (c, none)
        | (c, some sub) => fillPage env 0 1 sub c := by
      simp only [pgcacheElementMap, findKey_pgcacheAlloc, cacheElementMap_fresh hcap]
      split <;> simp_all
    by_cases hel : env.el.Ok
    · rcases Option.isSome_iff_exists.mp hel.1 with ⟨p, hp⟩
      have hone : OneElement (withFirst cap d (newElement p PageData.zero))
          (newElement p PageData.zero) := oneElement_withFirst hcap rfl rfl
      have hfill : fillSlot env.el PageData.zero 0 (pgcacheAlloc cap d) =
          (withFirst cap d (newElement p PageData.zero), some 0) := by
        simp only [fillSlot, hp, hel.2]
        rfl
      rw [hmap, hfill]
      simp only [fillPage, hone.self]
      split_ifs with hfail
      · -- the page cannot be read
        have hmark := hone.markEviction
        refine .inr ⟨fun h => ?_, _, by rw [hmark]; rfl, ?_⟩
        · rcases h with ⟨-, -, halloc, hread⟩
          simp [halloc, hread] at hfail
        · exact hone.setEvicting.allUnlocked
      · refine .inl ⟨hcap, ⟨hel, by simpa using hfail⟩, p, ?_⟩
        rw [setSlot_withFirst]
        rfl
    · -- the element itself cannot be made
      have hfill : fillSlot env.el PageData.zero 0 (pgcacheAlloc cap d) =
          (pgcacheAlloc cap d, none) := by
        simp only [fillSlot]
        split
        · next p hp hmutex => exact absurd ⟨by simp [hp], hmutex⟩ hel
        · rfl
      refine .inr ⟨fun h => hel h.2.1, pgcacheAlloc cap d, ?_, hnone⟩
      rw [hmap, hfill]

/-- `pgcache_element_map_sync` on a new page cache. The thread finds nothing to do. -/
lemma pgcacheElementMapSync_fresh (env : MapEnv) (w : Wait) (addr : ℕ) (numblocks : ℤ) (cap : ℕ)
    (d : Disk) :
    ((0 < cap ∧ env.Succeeds ∧ w.rounds ≠ []) ∧
      ∃ p, pgcacheElementMapSync env w addr numblocks (pgcacheAlloc cap d) =
        some (withFirst cap d (firstElement p d), some 0)) ∨
    (¬ (0 < cap ∧ env.Succeeds ∧ w.rounds ≠ []) ∧
      ∃ c, pgcacheElementMapSync env w addr numblocks (pgcacheAlloc cap d) = some (c, none) ∧
        Unlocked c) := by
  rcases pgcacheElementMap_fresh env cap d with ⟨hcap, henv, p, hmap⟩ | ⟨hfail, c, hmap, hc⟩
  · have hone : OneElement (withFirst cap d (firstElement p d)) (firstElement p d) :=
      oneElement_withFirst hcap rfl rfl
    have hpasses := threadPasses_of_clean hone rfl rfl w.passes
    by_cases hwait : w.rounds = []
    · -- the element is given up again
      have hrc : cacheElementWaitForFlags w.rounds ≠ 0 :=
        fun h => cacheElementWaitForFlags_eq_zero.mp h hwait
      refine .inr ⟨fun h => h.2.2 hwait, _, ?_, hone.setEvicting.allUnlocked⟩
      simp only [pgcacheElementMapSync, hmap, hpasses, if_pos hrc, hone.markEviction,
        Option.map_some]
    · have hrc : cacheElementWaitForFlags w.rounds = 0 :=
        cacheElementWaitForFlags_eq_zero.mpr hwait
      refine .inl ⟨⟨hcap, henv, hwait⟩, p, ?_⟩
      simp only [pgcacheElementMapSync, hmap, hpasses, hrc, ne_eq, not_true_eq_false, if_false]
  · exact .inr ⟨fun h => hfail ⟨h.1, h.2.1⟩, c, by simp only [pgcacheElementMapSync, hmap], hc⟩

end First

end KanekFs.Page
