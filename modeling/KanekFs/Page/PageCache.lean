import KanekFs.Cache.Table
import KanekFs.Disk
import KanekFs.Lib.Run
import Mathlib.Order.CompletePartialOrder

/-!
# The page cache

`page_cache.c` over the element table of `cache.c`. The payload of an element is the rest of
`pgcache_element_t`, the world is the block device. `MapEnv` says how the allocations and the
read of one call turn out.

* `pgcacheElementMap` and `pgcacheElementMapZero` are the two ways to bring an extent into the
  cache.
* `step` is one operation of a client, or one complete pass of the cache thread, and a run of
  the page cache is a run of `step`.
* `MapEffect` lists what a call of `pgcache_element_map` can do, and `pgcacheElementMap_effect`
  says that there is nothing else; `MapZeroEffect` is the same for `pgcache_element_map_zero`.
-/

namespace KanekFs.Page

open Bytes Cache

/-! ## Definitions -/

/-- `pe_mem_ptr`: null, dangling, or a buffer of whole blocks. -/
inductive PageMem
  | null
  | freed
  | mem (blocks : List (List Byte))
deriving DecidableEq

/-- The part of `pgcache_element_t` that follows `pe_el`. -/
structure PageData where
  pe_mem_ptr : PageMem
  pe_block_addr : ℕ
  pe_num_blocks : ℤ

/-- The payload after `memset`. -/
def PageData.zero : PageData := ⟨.null, 0, 0⟩

abbrev PgElement := Element PageData

abbrev PgCache := Table PageData Disk

/-- `pgcache_on_flush`. A `write` from a null pointer transfers nothing. -/
def pgcacheOnFlush (el : PgElement) (d : Disk) : Disk :=
  match el.data.pe_mem_ptr with
  | .mem l => extentWrite d l el.data.pe_block_addr el.data.pe_num_blocks
  | _ => d

/-- `pgcache_on_evict` frees the page, and does nothing to the device. -/
def pgcacheOnEvict (_ : PgElement) (d : Disk) : Disk := d

def callbacks : Callbacks PageData Disk := ⟨some pgcacheOnFlush, some pgcacheOnEvict⟩

/-- `pgcache_alloc`. -/
def pgcacheAlloc (elements_capacity : ℕ) (d : Disk) : PgCache := cacheInit elements_capacity d

/-- What the calls that can fail return in one call of `pgcache_element_map`: those of
`cache_element_map`, `malloc` or `realloc` for the page, and `extent_read`. -/
structure MapEnv where
  el : AllocEnv
  page_alloc : Bool
  read : Bool

/-- Every call succeeds. -/
def MapEnv.Succeeds (env : MapEnv) : Prop :=
  env.el.Ok ∧ env.page_alloc = true ∧ env.read = true

/-- Every call succeeds, and a new element is at address `p`. -/
def MapEnv.ok (p : ℕ) : MapEnv := ⟨⟨some p, true⟩, true, true⟩

lemma MapEnv.ok_succeeds (p : ℕ) : (MapEnv.ok p).Succeeds := ⟨⟨rfl, rfl⟩, rfl, rfl⟩

/-- The device after the growth path flushed a dirty element. -/
def growDisk (el : PgElement) (d : Disk) : Disk :=
  if el.ce_flags.dirty then pgcacheOnFlush el d else d

/-- `CACHE_EL_ADD_COUNT` of a hit. -/
def countHit (el : PgElement) : PgElement :=
  { el with ce_access_count := addCount el.ce_access_count }

/-- The growth path of `pgcache_element_map`: lock, flush, realloc, re-read and unlock. A
failure leaves the element locked. -/
def growElement (env : MapEnv) (addr : ℕ) (numblocks : ℤ) (i : ℕ) (el : PgElement) (c : PgCache) :
    Option (PgCache × Option ℕ) :=
  -- left locked by an earlier failure: the caller waits for ever
  if el.ce_locked then none
  else
    let d := growDisk el c.world
    if env.page_alloc = false then
      some ({ c.setSlot i (some { el with
        ce_locked := true, data := { el.data with pe_mem_ptr := .null } }) with world := d }, none)
    else if env.read = false then
      some ({ c.setSlot i (some { el with
        ce_locked := true, data := { el.data with pe_mem_ptr := .freed } }) with world := d }, none)
    else
      some ({ c.setSlot i (some { el with data := { el.data with
        pe_mem_ptr := .mem (extentRead d addr numblocks), pe_num_blocks := numblocks } }) with
        world := d }, some i)

/-- `pgcache_element_map` when an element with the address is in slot `i`. -/
def mapHit (env : MapEnv) (addr : ℕ) (numblocks : ℤ) (i : ℕ) (c : PgCache) :
    Option (PgCache × Option ℕ) :=
  match c.slot i with
  | none => none
  | some el =>
    -- `countHit` is made before the sizes are compared
    if numblocks ≤ el.data.pe_num_blocks then some (c.setSlot i (some (countHit el)), some i)
    else growElement env addr numblocks i (countHit el) c

/-- `pgcache_element_map` after `cache_element_map` returned the element in slot `sub`. -/
def fillPage (env : MapEnv) (addr : ℕ) (numblocks : ℤ) (sub : ℕ) (c : PgCache) :
    Option (PgCache × Option ℕ) :=
  match c.slot sub with
  | none => none
  | some el =>
    -- where the page cannot be read the element keeps a null page and is marked for eviction
    if env.page_alloc = false ∨ env.read = false then
      (cacheElementMarkEviction sub c).map (·, none)
    else
      some (c.setSlot sub (some { el with ce_id := addr, data :=
        ⟨.mem (extentRead c.world addr numblocks), addr, numblocks⟩ }), some sub)

/-- `pgcache_element_map`. -/
def pgcacheElementMap (env : MapEnv) (addr : ℕ) (numblocks : ℤ) (c : PgCache) :
    Option (PgCache × Option ℕ) :=
  match findKey addr c with
  | some i => mapHit env addr numblocks i c
  | none =>
    match cacheElementMap callbacks env.el .zero c with
    | none => none
    | some (c, none) => some (c, none)
    | some (c, some sub) => fillPage env addr numblocks sub c

/-- `pgcache_element_map_zero`. A failed allocation leaves the element as it is. -/
def pgcacheElementMapZero (env : MapEnv) (addr : ℕ) (numblocks : ℤ) (c : PgCache) :
    Option (PgCache × Option ℕ) :=
  match findKey addr c with
  -- an element that is there is counted, but it is not returned
  | some i =>
    (c.slot i).map fun el => (c.setSlot i (some (countHit el)), none)
  | none =>
    match cacheElementMap callbacks env.el .zero c with
    | none => none
    | some (c, none) => some (c, none)
    | some (c, some sub) =>
      match c.slot sub with
      | none => none
      | some el =>
        if env.page_alloc = false then some (c, none)
        else
          some (c.setSlot sub (some { el with ce_id := addr, data :=
            ⟨.mem (List.replicate (intBlocks numblocks) (pagesAlloc 1)), addr, numblocks⟩ }),
            some sub)

/-! ## Operations -/

/-- What a client or the thread does to the cache. A client names an element it holds a pointer
to by its slot. -/
inductive Op
  | map (env : MapEnv) (addr : ℕ) (numblocks : ℤ)
  | mapZero (env : MapEnv) (addr : ℕ) (numblocks : ℤ)
  /-- Writes of whole blocks into the page, followed by `cache_element_mark_dirty`. -/
  | write (i : ℕ) (ws : List (ℕ × List Byte))
  | markDirty (i : ℕ)
  | markEviction (i : ℕ)
  | pin (i : ℕ)
  | unpin (i : ℕ)
  | evict (key : ℕ)
  | pass

/-- The page after a client wrote blocks into it. -/
def writePage (l : List (List Byte)) (ws : List (ℕ × List Byte)) : List (List Byte) :=
  ws.foldl (fun l w => l.set w.1 w.2) l

/-- A client writes into the page of a live element and marks it dirty. -/
def clientWrite (i : ℕ) (ws : List (ℕ × List Byte)) (c : PgCache) : Option PgCache :=
  match c.slot i with
  | none => none
  | some el =>
    match el.data.pe_mem_ptr with
    | .mem l =>
      if ∀ w ∈ ws, w.1 < l.length then
        cacheElementMarkDirty i (c.setSlot i (some { el with data :=
          { el.data with pe_mem_ptr := .mem (writePage l ws) } }))
      else none
    | _ => none

def step (c : PgCache) : Op → Option PgCache
  | .map env addr numblocks => (pgcacheElementMap env addr numblocks c).map Prod.fst
  | .mapZero env addr numblocks => (pgcacheElementMapZero env addr numblocks c).map Prod.fst
  | .write i ws => clientWrite i ws c
  | .markDirty i => cacheElementMarkDirty i c
  | .markEviction i => cacheElementMarkEviction i c
  | .pin i => cacheElementPin i c
  | .unpin i => cacheElementMarkUnpin i c
  | .evict key => cacheElementEvict callbacks key c
  | .pass => some (threadPass callbacks c)

/-! ## What a map call does -/

/-- The effect of `pgcache_element_map` on a table, with its result. -/
inductive MapEffect (env : MapEnv) (addr : ℕ) (n : ℤ) (c : PgCache) : PgCache → Option ℕ → Prop
  /-- The element is there, with the blocks asked for. -/
  | hit {i el} (hkey : findKey addr c = some i) (hel : c.slot i = some el)
      (hn : n ≤ el.data.pe_num_blocks) :
      MapEffect env addr n c (c.setSlot i (some (countHit el))) (some i)
  /-- The element is there, with too few blocks, and is flushed and read again. -/
  | grown {i el c'} (hkey : findKey addr c = some i) (hel : c.slot i = some el)
      (hn : el.data.pe_num_blocks < n) (hlock : el.ce_locked = false)
      (hok : env.page_alloc = true ∧ env.read = true)
      (hself : c'.slot i = some { countHit el with data := { el.data with
        pe_mem_ptr := .mem (extentRead (growDisk el c.world) addr n), pe_num_blocks := n } })
      (hother : ∀ j ≠ i, c'.slot j = c.slot j) (hworld : c'.world = growDisk el c.world) :
      MapEffect env addr n c c' (some i)
  /-- Growing the element failed. -/
  | growFailed {i el c'} (m : PageMem) (hkey : findKey addr c = some i)
      (hel : c.slot i = some el) (hfail : ¬ (env.page_alloc = true ∧ env.read = true))
      (hself : c'.slot i = some { countHit el with
        ce_locked := true, data := { el.data with pe_mem_ptr := m } })
      (hother : ∀ j ≠ i, c'.slot j = c.slot j) :
      MapEffect env addr n c c' none
  /-- There is no new element: none was found, or none could be made. -/
  | noElement {c'} (hkey : findKey addr c = none) (hno : mapSlot c = none ∨ ¬ env.el.Ok)
      (hroom : c' = c ∨ ∃ sub, Room callbacks c sub c') :
      MapEffect env addr n c c' none
  /-- A new element was filled from the device. -/
  | filled {sub c₁ c' p} (hkey : findKey addr c = none) (hsub : mapSlot c = some sub)
      (hroom : Room callbacks c sub c₁) (hok : env.Succeeds)
      (hself : c'.slot sub = some { newElement p PageData.zero with
        ce_id := addr, data := ⟨.mem (extentRead c₁.world addr n), addr, n⟩ })
      (hother : ∀ j ≠ sub, c'.slot j = c₁.slot j) (hworld : c'.world = c₁.world) :
      MapEffect env addr n c c' (some sub)
  /-- A new element could not be filled. -/
  | fillFailed {sub c₁ c' p} (f : ElFlags) (hkey : findKey addr c = none)
      (hroom : Room callbacks c sub c₁) (hfail : ¬ (env.page_alloc = true ∧ env.read = true))
      (hself : c'.slot sub = some { newElement p PageData.zero with ce_flags := f })
      (hother : ∀ j ≠ sub, c'.slot j = c₁.slot j) :
      MapEffect env addr n c c' none

/-- The effect of `pgcache_element_map_zero` on a table, with its result. -/
inductive MapZeroEffect (env : MapEnv) (addr : ℕ) (n : ℤ) (c : PgCache) :
    PgCache → Option ℕ → Prop
  | hit {i el} (hkey : findKey addr c = some i) (hel : c.slot i = some el) :
      MapZeroEffect env addr n c (c.setSlot i (some (countHit el))) none
  | noElement {c'} (hkey : findKey addr c = none) (hno : mapSlot c = none ∨ ¬ env.el.Ok)
      (hroom : c' = c ∨ ∃ sub, Room callbacks c sub c') :
      MapZeroEffect env addr n c c' none
  | filled {sub c₁ c' p} (hkey : findKey addr c = none) (hsub : mapSlot c = some sub)
      (hroom : Room callbacks c sub c₁) (hok : env.el.Ok ∧ env.page_alloc = true)
      (hself : c'.slot sub = some { newElement p PageData.zero with ce_id := addr, data :=
        ⟨.mem (List.replicate (intBlocks n) (pagesAlloc 1)), addr, n⟩ })
      (hother : ∀ j ≠ sub, c'.slot j = c₁.slot j) :
      MapZeroEffect env addr n c c' (some sub)
  | fillFailed {sub c₁ c' p} (hkey : findKey addr c = none)
      (hroom : Room callbacks c sub c₁) (hfail : env.page_alloc = false)
      (hself : c'.slot sub = some (newElement p PageData.zero))
      (hother : ∀ j ≠ sub, c'.slot j = c₁.slot j) :
      MapZeroEffect env addr n c c' none

section Effects

variable {env : MapEnv} {addr : ℕ} {n : ℤ} {c c' : PgCache} {r : Option ℕ} {i sub : ℕ}
  {el : PgElement}

lemma growElement_effect (hkey : findKey addr c = some i) (hel : c.slot i = some el)
    (hn : el.data.pe_num_blocks < n)
    (h : growElement env addr n i (countHit el) c = some (c', r)) :
    MapEffect env addr n c c' r := by
  have hlt := lt_capacity_of_slot hel
  unfold growElement at h
  -- a failed `realloc` loses the page, a failed read frees it; the lock stays in both cases
  split_ifs at h with hlock halloc hread
  · simp only [Option.some.injEq, Prod.mk.injEq] at h
    rcases h with ⟨rfl, rfl⟩
    exact .growFailed .null hkey hel (by simp [halloc]) (slot_setSlot_self hlt)
      (fun j hj => slot_setSlot_ne hj)
  · simp only [Option.some.injEq, Prod.mk.injEq] at h
    rcases h with ⟨rfl, rfl⟩
    exact .growFailed .freed hkey hel (by simp [hread]) (slot_setSlot_self hlt)
      (fun j hj => slot_setSlot_ne hj)
  · simp only [Option.some.injEq, Prod.mk.injEq] at h
    rcases h with ⟨rfl, rfl⟩
    exact .grown hkey hel hn (by simpa [countHit] using hlock)
      ⟨by simpa using halloc, by simpa using hread⟩
      (slot_setSlot_self hlt) (fun j hj => slot_setSlot_ne hj) rfl

lemma mapHit_effect (hkey : findKey addr c = some i) (h : mapHit env addr n i c = some (c', r)) :
    MapEffect env addr n c c' r := by
  rcases slot_of_findKey hkey with ⟨el, hel, -⟩
  simp only [mapHit, hel] at h
  split_ifs at h with hn
  · simp only [Option.some.injEq, Prod.mk.injEq] at h
    rcases h with ⟨rfl, rfl⟩
    exact .hit hkey hel hn
  · exact growElement_effect hkey hel (not_le.mp hn) h

/-- A successful `cache_element_map` leaves a new element in the slot it made room in. -/
lemma cacheElementMap_new
    (h : cacheElementMap callbacks env.el PageData.zero c = some (c', some i)) :
    env.el.Ok ∧ ∃ c₁ p, mapSlot c = some i ∧ Room callbacks c i c₁ ∧ i < c'.capacity ∧
      c'.slot i = some (newElement p PageData.zero) ∧ (∀ j ≠ i, c'.slot j = c₁.slot j) ∧
      c'.world = c₁.world := by
  rcases cacheElementMap_eq h with ⟨-, hr, -⟩ | ⟨sub, c₁, hsub, hroom, hfill⟩
  · simp at hr
  · rcases fillSlot_some hfill with ⟨rfl, hok, p, rfl⟩
    rcases hroom.slot with ⟨hlt, -, -⟩
    refine ⟨hok, c₁, p, hsub, hroom, ?_, slot_setSlot_self hlt, fun j hj => slot_setSlot_ne hj, rfl⟩
    have hcap : (c₁.setSlot i (some (newElement p PageData.zero))).capacity = c₁.capacity :=
      capacity_setSlot
    exact hcap.symm ▸ hlt

lemma cacheElementMap_none
    (h : cacheElementMap callbacks env.el PageData.zero c = some (c', none)) :
    (mapSlot c = none ∨ ¬ env.el.Ok) ∧ (c' = c ∨ ∃ sub, Room callbacks c sub c') := by
  rcases cacheElementMap_eq h with ⟨rfl, -, hno⟩ | ⟨sub, c₁, -, hroom, hfill⟩
  · exact ⟨.inl hno, .inl rfl⟩
  · rcases fillSlot_none hfill with ⟨rfl, hfail⟩
    exact ⟨.inr hfail, .inr ⟨sub, hroom⟩⟩

/-- A new element is active and unlocked, so that the mark for eviction goes through. -/
lemma fillPage_failed {p : ℕ} (hslot : c.slot sub = some (newElement p PageData.zero))
    (hfail : env.page_alloc = false ∨ env.read = false) :
    fillPage env addr n sub c = some (c.setSlot sub (some { newElement p PageData.zero with
      ce_flags := { ElFlags.mapped with evict := true } }), none) := by
  simp [fillPage, hslot, hfail, cacheElementMarkEviction, markFlags, newElement, ElFlags.mapped]

/-- A call of `pgcache_element_map` has one of the effects listed. -/
theorem pgcacheElementMap_effect (h : pgcacheElementMap env addr n c = some (c', r)) :
    MapEffect env addr n c c' r := by
  unfold pgcacheElementMap at h
  cases hkey : findKey addr c with
  | some i =>
    rw [hkey] at h
    exact mapHit_effect hkey h
  | none =>
    simp only [hkey] at h
    rcases hmap : cacheElementMap callbacks env.el PageData.zero c with _ | ⟨c₂, _ | sub⟩
    · simp [hmap] at h
    · simp only [hmap, Option.some.injEq, Prod.mk.injEq] at h
      rcases h with ⟨rfl, rfl⟩
      rcases cacheElementMap_none hmap with ⟨hno, hroom⟩
      exact .noElement hkey hno hroom
    · rcases cacheElementMap_new hmap with ⟨hel, c₁, p, hsub, hroom, hlt, hslot, hother, hworld⟩
      simp only [hmap] at h
      by_cases hfail : env.page_alloc = false ∨ env.read = false
      · simp only [fillPage_failed hslot hfail, Option.some.injEq, Prod.mk.injEq] at h
        rcases h with ⟨rfl, rfl⟩
        refine .fillFailed (p := p) { ElFlags.mapped with evict := true } hkey hroom ?_
          (slot_setSlot_self hlt) fun j hj => ?_
        · rcases hfail with hf | hf <;> simp [hf]
        · rw [slot_setSlot_ne hj, hother j hj]
      · simp only [fillPage, hslot, if_neg hfail, Option.some.injEq, Prod.mk.injEq] at h
        rcases h with ⟨rfl, rfl⟩
        refine .filled (p := p) hkey hsub hroom ⟨hel, by simpa using hfail⟩ ?_ (fun j hj => ?_)
          hworld
        · rw [slot_setSlot_self hlt, hworld]
        · rw [slot_setSlot_ne hj, hother j hj]

/-- A call of `pgcache_element_map_zero` has one of the effects listed. -/
theorem pgcacheElementMapZero_effect (h : pgcacheElementMapZero env addr n c = some (c', r)) :
    MapZeroEffect env addr n c c' r := by
  unfold pgcacheElementMapZero at h
  cases hkey : findKey addr c with
  | some i =>
    rcases slot_of_findKey hkey with ⟨el, hel, -⟩
    simp only [hkey, hel, Option.map_some, Option.some.injEq, Prod.mk.injEq] at h
    rcases h with ⟨rfl, rfl⟩
    exact .hit hkey hel
  | none =>
    simp only [hkey] at h
    rcases hmap : cacheElementMap callbacks env.el PageData.zero c with _ | ⟨c₂, _ | sub⟩
    · simp [hmap] at h
    · simp only [hmap, Option.some.injEq, Prod.mk.injEq] at h
      rcases h with ⟨rfl, rfl⟩
      rcases cacheElementMap_none hmap with ⟨hno, hroom⟩
      exact .noElement hkey hno hroom
    · rcases cacheElementMap_new hmap with ⟨hel, c₁, p, hsub, hroom, hlt, hslot, hother, -⟩
      simp only [hmap, hslot] at h
      split_ifs at h with hfail
      · simp only [Option.some.injEq, Prod.mk.injEq] at h
        rcases h with ⟨rfl, rfl⟩
        exact .fillFailed (p := p) hkey hroom hfail hslot hother
      · simp only [Option.some.injEq, Prod.mk.injEq] at h
        rcases h with ⟨rfl, rfl⟩
        refine .filled (p := p) hkey hsub hroom ⟨hel, by simpa using hfail⟩ ?_ fun j hj => ?_
        · rw [slot_setSlot_self hlt]
        · rw [slot_setSlot_ne hj, hother j hj]

end Effects

end KanekFs.Page
