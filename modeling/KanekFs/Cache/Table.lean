import KanekFs.Cache.Element
import Mathlib.Data.List.Basic

/-!
# The element table

`cache.c` as one caller at a time sees it. The payload that follows `cache_element_t` in memory
is a parameter `α`, and what the callbacks work on is a parameter `ω`.

* An element is referred to by its slot in `ca_elements_ptr`. `Table.slot` reads a slot and
  `Table.setSlot` writes it.
* A function has no result where the caller would wait for ever on a mutex left locked.
* Evictions and thread passes are made of two actions, the flush of a dirty element and the
  removal of a clean one. `Kept` says that a property survives both, and `Kept.evict` and
  `Kept.threadPass` that it then survives whatever the cache does by itself.
* `cacheElementMap_eq` is what `cache_element_map` does: it makes room in a slot, and fills it.
* `Each` says something of every element, and its lemmas what keeps it.
* `Counted` says that `ca_elements_in_use` is right, without which the thread makes no pass, and
  `threadPass_clean` what a pass is good for.
-/

namespace KanekFs.Cache

open Word

/-- `cache_element_t` with its payload. `ce_locked` is the state of `ce_mutex`. -/
structure Element (α : Type*) where
  ce_id : ℕ
  ce_flags : ElFlags
  ce_access_count : ℕ
  ce_locked : Bool
  data : α

/-- `cache_t`, and the world its callbacks act on. -/
structure Table (α ω : Type*) where
  ca_elements_ptr : List (Option (Element α))
  ca_elements_in_use : ℕ
  world : ω

/-- `ca_on_flush_callback` and `ca_on_evict_callback`; `none` is a null pointer. -/
structure Callbacks (α ω : Type*) where
  on_flush : Option (Element α → ω → ω)
  on_evict : Option (Element α → ω → ω)

variable {α ω : Type*}

/-- `cache_init`. -/
def cacheInit (elements_capacity : ℕ) (w : ω) : Table α ω :=
  ⟨List.replicate elements_capacity none, 0, w⟩

namespace Table

/-- `ca_elements_ptr[i]`. -/
def slot (c : Table α ω) (i : ℕ) : Option (Element α) := (c.ca_elements_ptr[i]?).join

/-- `ca_elements_ptr[i] = o`. -/
def setSlot (c : Table α ω) (i : ℕ) (o : Option (Element α)) : Table α ω :=
  { c with ca_elements_ptr := c.ca_elements_ptr.set i o }

/-- `ca_elements_capacity`. -/
def capacity (c : Table α ω) : ℕ := c.ca_elements_ptr.length

end Table

/-! ## Evictions -/

/-- The flush of a dirty element, as the thread and `cache_element_evict_by_idx` do it. -/
def flushElement (cb : Callbacks α ω) (el : Element α) (w : ω) : Element α × ω :=
  let el := { el with ce_access_count := addCount el.ce_access_count }
  let w := match cb.on_flush with
    | some f => f el w
    | none => w
  ({ el with ce_flags := { el.ce_flags with dirty := false, clean := true } }, w)

def flushIfDirty (cb : Callbacks α ω) (el : Element α) (w : ω) : Element α × ω :=
  if el.ce_flags.dirty then flushElement cb el w else (el, w)

/-- The eviction of the element in slot `i`, with the world after its flush: the callback runs
and the slot is empty. -/
def dropSlot (cb : Callbacks α ω) (i : ℕ) (el : Element α) (w : ω) (c : Table α ω) : Table α ω :=
  { ca_elements_ptr := c.ca_elements_ptr.set i none
    ca_elements_in_use := decInUse c.ca_elements_in_use
    world := match cb.on_evict with
      | some f => f el w
      | none => w }

/-- `cache_element_evict_by_idx`. -/
def cacheElementEvictByIdx (cb : Callbacks α ω) (subin : ℕ) (c : Table α ω) :
    Option (Table α ω) :=
  match c.slot subin with
  | none => none
  | some el =>
    if el.ce_locked then none
    else
      let r := flushIfDirty cb el c.world
      some (dropSlot cb subin r.1 r.2 c)

/-- The slot of the first element with a key. -/
def findKey (key : ℕ) (c : Table α ω) : Option ℕ :=
  c.ca_elements_ptr.findIdx? fun
    | some el => el.ce_id = key
    | none => false

/-- `cache_element_evict`. -/
def cacheElementEvict (cb : Callbacks α ω) (key : ℕ) (c : Table α ω) : Option (Table α ω) :=
  match findKey key c with
  | some i => cacheElementEvictByIdx cb i c
  | none => some c

/-! ## Mapping an element -/

/-- The first empty slot. -/
def firstEmpty (c : Table α ω) : Option ℕ := c.ca_elements_ptr.findIdx? Option.isNone

/-- The search for the least recently used element; no result where it meets an empty slot. -/
def lruLoop : List (Option (Element α)) → ℕ → Lru → Option Lru
  | [], _, l => some l
  | none :: _, _, _ => none
  | some el :: rest, i, l => lruLoop rest (i + 1) (l.step i el.ce_flags el.ce_access_count)

/-- The slot `cache_element_map` evicts from when none is empty. -/
def lruVictim (c : Table α ω) : Option ℕ :=
  (lruLoop c.ca_elements_ptr 0 Lru.start).bind Lru.sub

/-- What the calls of `malloc` and `pthread_mutex_init` in `cache_element_map` return. -/
structure AllocEnv where
  malloc : Option ℕ
  mutex_init : Bool

/-- Both succeed. -/
def AllocEnv.Ok (env : AllocEnv) : Prop := env.malloc.isSome = true ∧ env.mutex_init = true

instance (env : AllocEnv) : Decidable env.Ok := inferInstanceAs (Decidable (_ ∧ _))

/-- A new element, at address `p`. -/
def newElement (p : ℕ) (blank : α) : Element α :=
  { ce_id := p, ce_flags := .mapped, ce_access_count := 1, ce_locked := false, data := blank }

/-- The end of `cache_element_map`: a new element in slot `sub`. -/
def fillSlot (env : AllocEnv) (blank : α) (sub : ℕ) (c : Table α ω) : Table α ω × Option ℕ :=
  match env.malloc, env.mutex_init with
  | some p, true =>
    ({ c.setSlot sub (some (newElement p blank)) with
       ca_elements_in_use := incInUse c.ca_elements_in_use }, some sub)
  | _, _ => (c, none)

/-- `cache_element_map`; `blank` is the zeroed payload. -/
def cacheElementMap (cb : Callbacks α ω) (env : AllocEnv) (blank : α) (c : Table α ω) :
    Option (Table α ω × Option ℕ) :=
  match firstEmpty c with
  | some sub => some (fillSlot env blank sub c)
  -- no slot is empty: the least recently used element has to go
  | none =>
    match lruVictim c with
    | none => some (c, none)
    | some sub => (cacheElementEvictByIdx cb sub c).map (fillSlot env blank sub)

/-! ## Flag operations -/

/-- The shape of `cache_element_mark_dirty` and its kin: nothing on an inactive element, else
the flags change under `ce_mutex`. -/
def markFlags (f : ElFlags → ElFlags) (i : ℕ) (c : Table α ω) : Option (Table α ω) :=
  match c.slot i with
  | none => none
  | some el =>
    if el.ce_flags.active = false then some c
    else if el.ce_locked then none
    else some (c.setSlot i (some { el with ce_flags := f el.ce_flags }))

def cacheElementMarkDirty (i : ℕ) (c : Table α ω) : Option (Table α ω) :=
  markFlags (fun f => { f with dirty := true, clean := false }) i c

def cacheElementMarkEviction (i : ℕ) (c : Table α ω) : Option (Table α ω) :=
  markFlags (fun f => { f with evict := true }) i c

def cacheElementPin (i : ℕ) (c : Table α ω) : Option (Table α ω) :=
  markFlags (fun f => { f with pin := true }) i c

def cacheElementMarkUnpin (i : ℕ) (c : Table α ω) : Option (Table α ω) :=
  markFlags (fun f => { f with pin := false }) i c

/-- `cache_lookup`, and the search of `pgcache_element_map`. -/
def cacheLookup (key : ℕ) (c : Table α ω) : Table α ω :=
  match findKey key c with
  | some i => match c.slot i with
    | some el => c.setSlot i (some { el with ce_access_count := addCount el.ce_access_count })
    | none => c
  | none => c

/-- The shape of the loops of `cache_sync` and `cache_disable`: the elements that are not skipped
are marked. -/
def markSlots (skip : Element α → Bool) (is : List ℕ) (c : Table α ω) : Option (Table α ω) :=
  is.foldlM (fun c i => match c.slot i with
    | none => some c
    | some el => if skip el then some c else cacheElementMarkEviction i c) c

def cacheSyncLoop (c : Table α ω) : Option (Table α ω) :=
  markSlots (fun el => el.ce_flags.pin) (List.range c.capacity) c

def cacheDisableLoop (c : Table α ω) : Option (Table α ω) :=
  markSlots (fun _ => false) (List.range c.capacity) c

/-! ## The thread -/

/-- One iteration of the loop of `cache_thread`. -/
def threadSlot (cb : Callbacks α ω) (c : Table α ω) (i : ℕ) : Table α ω :=
  match c.slot i with
  | none => c
  | some el =>
    -- the tests are on a copy of the flags, which nobody changes in between here
    if el.ce_flags.active = false ∨ el.ce_locked then c
    else
      let r := flushIfDirty cb el c.world
      if el.ce_flags.evict then dropSlot cb i r.1 r.2 c
      else { c.setSlot i (some r.1) with world := r.2 }

/-- A complete pass of `cache_thread`. -/
def threadPass (cb : Callbacks α ω) (c : Table α ω) : Table α ω :=
  if c.ca_elements_in_use > 0 then
    (List.range c.capacity).foldl (threadSlot cb) c
  else c

/-! ## Slots -/

section Slots

variable {c : Table α ω} {i j : ℕ} {el : Element α} {o : Option (Element α)}

lemma getElem?_of_slot (h : c.slot i = some el) : c.ca_elements_ptr[i]? = some (some el) :=
  Option.join_eq_some_iff.mp h

lemma lt_capacity_of_slot (h : c.slot i = some el) : i < c.capacity :=
  (List.getElem?_eq_some_iff.mp (getElem?_of_slot h)).1

/-- A slot holds one element. -/
lemma slot_inj {el' : Element α} (h : c.slot i = some el) (h' : c.slot i = some el') : el = el' :=
  Option.some.inj (h.symm.trans h')

/-- Writing into a slot what it holds changes nothing. -/
lemma setSlot_slot (h : c.slot i = some el) : c.setSlot i (some el) = c := by
  rcases List.getElem?_eq_some_iff.mp (getElem?_of_slot h) with ⟨hlt, hget⟩
  rw [Table.setSlot, ← hget, List.set_getElem_self]

lemma slot_set_self {l : List (Option (Element α))} (h : i < l.length) :
    ((l.set i o)[i]?).join = o := by
  rw [List.getElem?_set_self h]
  rfl

lemma slot_set_ne {l : List (Option (Element α))} (h : j ≠ i) :
    ((l.set i o)[j]?).join = (l[j]?).join := by
  rw [List.getElem?_set_ne h.symm]

@[simp] lemma slot_setSlot_self (h : i < c.capacity) : (c.setSlot i o).slot i = o :=
  slot_set_self h

@[simp] lemma slot_setSlot_ne (h : j ≠ i) : (c.setSlot i o).slot j = c.slot j := slot_set_ne h

@[simp] lemma capacity_setSlot : (c.setSlot i o).capacity = c.capacity := by
  simp [Table.setSlot, Table.capacity]

lemma slot_cacheInit (n : ℕ) (w : ω) : (cacheInit n w : Table α ω).slot i = none := by
  by_cases h : i < n <;> simp [cacheInit, Table.slot, h]

lemma slot_of_findKey {key : ℕ} (h : findKey key c = some i) :
    ∃ el, c.slot i = some el ∧ el.ce_id = key := by
  rcases List.findIdx?_eq_some_iff_getElem.mp h with ⟨hlt, hp, -⟩
  cases hel : c.ca_elements_ptr[i] with
  | none => simp [hel] at hp
  | some el => exact ⟨el, by simp [Table.slot, hlt, hel], by simpa [hel] using hp⟩

lemma ne_key_of_findKey {key : ℕ} (h : findKey key c = none) (hel : c.slot i = some el) :
    el.ce_id ≠ key := by
  have hall := List.findIdx?_eq_none_iff.mp h _ (List.mem_of_getElem? (getElem?_of_slot hel))
  simpa using hall

lemma slot_of_firstEmpty (h : firstEmpty c = some i) : i < c.capacity ∧ c.slot i = none := by
  rcases List.findIdx?_eq_some_iff_getElem.mp h with ⟨hlt, hp, -⟩
  have hget : c.ca_elements_ptr[i] = none := by simpa using hp
  exact ⟨hlt, by simp [Table.slot, hlt, hget]⟩

end Slots

/-! ## What the cache does by itself -/

section Kept

variable {cb : Callbacks α ω} {P : Table α ω → Prop} {c c' : Table α ω} {i j : ℕ}
  {el : Element α}

/-- The table after the flush of the element in slot `i`. -/
def flushSlot (cb : Callbacks α ω) (i : ℕ) (el : Element α) (c : Table α ω) : Table α ω :=
  { c.setSlot i (some (flushElement cb el c.world).1) with
    world := (flushElement cb el c.world).2 }

lemma slot_flushSlot_self (hel : c.slot i = some el) :
    (flushSlot cb i el c).slot i = some (flushElement cb el c.world).1 :=
  slot_setSlot_self (lt_capacity_of_slot hel)

lemma slot_dropSlot_self {w : ω} {el' : Element α} (hel : c.slot i = some el) :
    (dropSlot cb i el' w c).slot i = none :=
  slot_set_self (lt_capacity_of_slot hel)

lemma slot_dropSlot_ne {w : ω} (hj : j ≠ i) : (dropSlot cb i el w c).slot j = c.slot j :=
  slot_set_ne hj

/-- A property of tables that flushing a dirty element and dropping a clean one keep. -/
structure Kept (cb : Callbacks α ω) (P : Table α ω → Prop) : Prop where
  flush : ∀ {c i el}, c.slot i = some el → el.ce_flags.dirty = true → P c →
    P (flushSlot cb i el c)
  drop : ∀ {c i el}, c.slot i = some el → el.ce_flags.dirty = false → P c →
    P (dropSlot cb i el c.world c)

/-- The table after the element in slot `i` was flushed if it was dirty. -/
def settle (cb : Callbacks α ω) (i : ℕ) (el : Element α) (c : Table α ω) : Table α ω :=
  { c.setSlot i (some (flushIfDirty cb el c.world).1) with
    world := (flushIfDirty cb el c.world).2 }

lemma Kept.settle (hP : Kept cb P) (hel : c.slot i = some el) (h : P c) :
    P (settle cb i el c) := by
  cases hdirty : el.ce_flags.dirty with
  | true =>
    have hflush := hP.flush hel hdirty h
    simpa [Cache.settle, flushIfDirty, hdirty, flushSlot] using hflush
  | false =>
    -- nothing is flushed, and the slot gets the element it has
    simpa [Cache.settle, flushIfDirty, hdirty, setSlot_slot hel] using h

lemma dirty_flushIfDirty (w : ω) : (flushIfDirty cb el w).1.ce_flags.dirty = false := by
  unfold flushIfDirty
  -- just flushed, or clean before
  split
  · rfl
  · simp_all

/-- An eviction is a flush followed by the removal of a clean element. -/
lemma Kept.dropSlot (hP : Kept cb P) (hel : c.slot i = some el) (h : P c) :
    P (dropSlot cb i (flushIfDirty cb el c.world).1 (flushIfDirty cb el c.world).2 c) := by
  have hslot : (Cache.settle cb i el c).slot i = some (flushIfDirty cb el c.world).1 :=
    slot_setSlot_self (lt_capacity_of_slot hel)
  have hdrop := hP.drop hslot (dirty_flushIfDirty c.world) (hP.settle hel h)
  simpa [Cache.dropSlot, Cache.settle, Table.setSlot, List.set_set] using hdrop

theorem Kept.evictByIdx (hP : Kept cb P) (h : P c)
    (hev : cacheElementEvictByIdx cb i c = some c') : P c' := by
  unfold cacheElementEvictByIdx at hev
  cases hel : c.slot i with
  | none => simp [hel] at hev
  | some el =>
    cases hlock : el.ce_locked with
    | true => simp [hel, hlock] at hev
    | false =>
      simp only [hel, hlock, Bool.false_eq_true, if_false, Option.some.injEq] at hev
      exact hev ▸ hP.dropSlot hel h

theorem Kept.evict {key : ℕ} (hP : Kept cb P) (h : P c)
    (hev : cacheElementEvict cb key c = some c') : P c' := by
  unfold cacheElementEvict at hev
  split at hev
  · exact hP.evictByIdx h hev
  · exact Option.some.inj hev ▸ h

theorem Kept.threadSlot (hP : Kept cb P) (h : P c) : P (threadSlot cb c i) := by
  unfold Cache.threadSlot
  cases hel : c.slot i with
  | none => exact h
  | some el =>
    dsimp only
    split_ifs
    · exact h
    · exact hP.dropSlot hel h
    · exact hP.settle hel h

/-- By induction over the slots: a thread pass keeps what its iterations keep. -/
theorem threadPass_induction (hP : ∀ c i, P c → P (Cache.threadSlot cb c i)) (h : P c) :
    P (threadPass cb c) := by
  have hloop : ∀ (is : List ℕ) (c : Table α ω), P c → P (is.foldl (Cache.threadSlot cb) c) := by
    intro is
    induction is with
    | nil => exact fun _ hc => hc
    | cons i is ih => exact fun c hc => ih _ (hP c i hc)
  unfold Cache.threadPass
  split
  · exact hloop _ c h
  · exact h

theorem Kept.threadPass (hP : Kept cb P) (h : P c) : P (threadPass cb c) :=
  threadPass_induction (fun _ _ => hP.threadSlot) h

end Kept

/-! ## Eviction and mapping, slot by slot -/

section Mapping

variable {cb : Callbacks α ω} {env : AllocEnv} {blank : α} {c c' : Table α ω} {i j sub : ℕ}
  {r : Option ℕ}

/-- An eviction empties its slot and touches no other. -/
theorem evictByIdx_slot (h : cacheElementEvictByIdx cb i c = some c') :
    c'.capacity = c.capacity ∧ i < c.capacity ∧ c'.slot i = none ∧
      ∀ j ≠ i, c'.slot j = c.slot j := by
  unfold cacheElementEvictByIdx at h
  cases hel : c.slot i with
  | none => simp [hel] at h
  | some el =>
    have hlt := lt_capacity_of_slot hel
    cases hlock : el.ce_locked with
    | true => simp [hel, hlock] at h
    | false =>
      simp only [hel, hlock, Bool.false_eq_true, if_false, Option.some.injEq] at h
      subst h
      exact ⟨by simp [dropSlot, Table.capacity], hlt, slot_dropSlot_self hel,
        fun j hj => slot_dropSlot_ne hj⟩

/-- The slot that a successful `cache_element_map` uses. -/
def mapSlot (c : Table α ω) : Option ℕ :=
  match firstEmpty c with
  | some sub => some sub
  | none => lruVictim c

/-- The table in which `cache_element_map` fills slot `sub`: the one it was called in, or the
one after the eviction from that slot. -/
def Room (cb : Callbacks α ω) (c : Table α ω) (sub : ℕ) (c' : Table α ω) : Prop :=
  (c' = c ∧ c.slot sub = none ∧ sub < c.capacity) ∨ cacheElementEvictByIdx cb sub c = some c'

lemma Room.slot (h : Room cb c sub c') :
    sub < c'.capacity ∧ c'.slot sub = none ∧ ∀ j ≠ sub, c'.slot j = c.slot j := by
  rcases h with ⟨rfl, hnone, hlt⟩ | hev
  · exact ⟨hlt, hnone, fun _ _ => rfl⟩
  · rcases evictByIdx_slot hev with ⟨hcap, hlt, hnone, hother⟩
    exact ⟨hcap ▸ hlt, hnone, hother⟩

lemma Room.kept {P : Table α ω → Prop} (hP : Kept cb P) (h : Room cb c sub c') (hc : P c) :
    P c' := by
  rcases h with ⟨rfl, -, -⟩ | hev
  · exact hc
  · exact hP.evictByIdx hc hev

/-- What `cache_element_map` does: without a slot to use, nothing; else it makes room in the
slot `mapSlot` and tries to fill it. -/
theorem cacheElementMap_eq (h : cacheElementMap cb env blank c = some (c', r)) :
    (c' = c ∧ r = none ∧ mapSlot c = none) ∨
      ∃ sub c₁, mapSlot c = some sub ∧ Room cb c sub c₁ ∧
        (c', r) = fillSlot env blank sub c₁ := by
  unfold cacheElementMap at h
  cases hempty : firstEmpty c with
  | some sub =>
    rcases slot_of_firstEmpty hempty with ⟨hlt, hnone⟩
    simp only [hempty, Option.some.injEq] at h
    exact .inr ⟨sub, c, by simp [mapSlot, hempty], .inl ⟨rfl, hnone, hlt⟩, h.symm⟩
  | none =>
    cases hvictim : lruVictim c with
    | none =>
      simp only [hempty, hvictim, Option.some.injEq, Prod.mk.injEq] at h
      exact .inl ⟨h.1.symm, h.2.symm, by simp [mapSlot, hempty, hvictim]⟩
    | some sub =>
      simp only [hempty, hvictim, Option.map_eq_some_iff] at h
      rcases h with ⟨c₁, hev, hfill⟩
      exact .inr ⟨sub, c₁, by simp [mapSlot, hempty, hvictim], .inr hev, hfill.symm⟩

/-- A failure after the eviction leaves the table with the slot empty. -/
lemma fillSlot_none (h : (c', none) = fillSlot env blank sub c) : c' = c ∧ ¬ env.Ok := by
  unfold fillSlot at h
  split at h
  · simp at h
  · rename_i hfail
    refine ⟨(Prod.mk.inj h).1, ?_⟩
    rintro ⟨hmalloc, hinit⟩
    rcases Option.isSome_iff_exists.mp hmalloc with ⟨p, hp⟩
    exact hfail p hp hinit

/-- A successful `fillSlot` puts a new element into its slot. -/
lemma fillSlot_some (h : (c', some i) = fillSlot env blank sub c) :
    i = sub ∧ env.Ok ∧ ∃ p, c' = { c.setSlot sub (some (newElement p blank)) with
      ca_elements_in_use := incInUse c.ca_elements_in_use } := by
  unfold fillSlot at h
  split at h
  · rename_i p hmalloc hinit
    simp only [Prod.mk.injEq, Option.some.injEq] at h
    exact ⟨h.2, ⟨by simp [hmalloc], hinit⟩, p, h.1⟩
  · simp at h

end Mapping

/-! ## What holds of every element -/

section Each

variable {cb : Callbacks α ω} {P : Element α → Prop} {c c' : Table α ω} {i : ℕ} {el : Element α}

/-- Every element satisfies `P`. -/
def Each (P : Element α → Prop) (c : Table α ω) : Prop := ∀ i el, c.slot i = some el → P el

lemma each_cacheInit (cap : ℕ) (w : ω) : Each P (cacheInit cap w : Table α ω) := by
  intro i el hel
  simp [slot_cacheInit] at hel

/-- One slot changes. -/
lemma Each.put (h : Each P c) (hself : ∀ el, c'.slot i = some el → P el)
    (hother : ∀ j ≠ i, c'.slot j = c.slot j) : Each P c' := by
  intro j el hj
  by_cases hji : j = i
  · subst hji
    exact hself el hj
  · exact h j el ((hother j hji).symm.trans hj)

lemma Each.setSlot (h : Each P c) (hi : i < c.capacity) (hel : P el) :
    Each P (c.setSlot i (some el)) := by
  refine h.put ?_ fun j hj => slot_setSlot_ne hj
  intro e he
  rw [slot_setSlot_self hi] at he
  exact Option.some.inj he ▸ hel

lemma kept_each (hflush : ∀ el w, P el → P (flushElement cb el w).1) : Kept cb (Each P) where
  flush {c i el} hel _ h := by
    refine h.put ?_ fun j hj => slot_setSlot_ne hj
    intro e he
    obtain rfl := slot_inj (slot_flushSlot_self hel) he
    exact hflush el c.world (h i el hel)
  drop {c i el} hel _ h := by
    refine h.put ?_ fun j hj => slot_dropSlot_ne hj
    intro e he
    simp [slot_dropSlot_self hel] at he

lemma Each.markFlags {f : ElFlags → ElFlags}
    (hf : ∀ el, P el → P { el with ce_flags := f el.ce_flags }) (h : Each P c)
    (hmark : markFlags f i c = some c') : Each P c' := by
  unfold Cache.markFlags at hmark
  cases hel : c.slot i with
  | none => simp [hel] at hmark
  | some el =>
    simp only [hel] at hmark
    split_ifs at hmark with hactive hlock
    · exact Option.some.inj hmark ▸ h
    · exact Option.some.inj hmark ▸ h.setSlot (lt_capacity_of_slot hel) (hf el (h i el hel))

/-- A flag operation does nothing to the world. -/
lemma world_markFlags {f : ElFlags → ElFlags} (hmark : markFlags f i c = some c') :
    c'.world = c.world := by
  unfold Cache.markFlags at hmark
  split at hmark
  · cases hmark
  · split_ifs at hmark <;> rw [← Option.some.inj hmark]
    rfl

end Each

/-! ## The count of the elements -/

section Counted

variable {cb : Callbacks α ω} {env : AllocEnv} {blank : α} {c c' : Table α ω} {n i j sub : ℕ}
  {el : Element α} {r : Option ℕ}

/-- `ca_elements_in_use` is the number of the occupied slots, out of `n`. -/
structure Counted (n : ℕ) (c : Table α ω) : Prop where
  capacity : c.capacity = n
  in_use : c.ca_elements_in_use = u32 (c.ca_elements_ptr.countP Option.isSome)

lemma counted_cacheInit (n : ℕ) (w : ω) : Counted n (cacheInit n w : Table α ω) where
  capacity := List.length_replicate
  in_use := by simp [cacheInit, List.countP_replicate, u32]

/-- An occupied slot is counted. -/
lemma countP_pos_of_slot (hel : c.slot i = some el) :
    0 < c.ca_elements_ptr.countP Option.isSome :=
  List.countP_pos_iff.mpr ⟨some el, List.mem_of_getElem? (getElem?_of_slot hel), rfl⟩

lemma countP_set_some (hel : c.slot i = some el) (el' : Element α) :
    (c.ca_elements_ptr.set i (some el')).countP Option.isSome =
      c.ca_elements_ptr.countP Option.isSome := by
  rcases List.getElem?_eq_some_iff.mp (getElem?_of_slot hel) with ⟨hlt, hget⟩
  have hpos := countP_pos_of_slot hel
  rw [List.countP_set hlt, hget, if_pos (by rfl), if_pos (by rfl)]
  omega

lemma countP_set_none (hel : c.slot i = some el) :
    (c.ca_elements_ptr.set i none).countP Option.isSome + 1 =
      c.ca_elements_ptr.countP Option.isSome := by
  rcases List.getElem?_eq_some_iff.mp (getElem?_of_slot hel) with ⟨hlt, hget⟩
  have hpos := countP_pos_of_slot hel
  rw [List.countP_set hlt, hget, if_pos (by rfl), if_neg (by simp)]
  omega

/-- One element takes the place of another. -/
lemma Counted.setSlot (h : Counted n c) (hel : c.slot i = some el) (el' : Element α) (w : ω) :
    Counted n { c.setSlot i (some el') with world := w } where
  capacity := capacity_setSlot.trans h.capacity
  in_use := h.in_use.trans (congrArg u32 (countP_set_some hel el').symm)

lemma kept_counted (cb : Callbacks α ω) : Kept cb (Counted n) where
  flush hel _ h := h.setSlot hel _ _
  drop {c i el} hel _ h :=
    { capacity := List.length_set.trans h.capacity
      in_use := by
        simp only [dropSlot]
        rw [h.in_use, ← countP_set_none hel, decInUse_u32] }

lemma Counted.fillSlot (h : Counted n c) (hlt : sub < c.capacity) (hnone : c.slot sub = none) :
    Counted n (fillSlot env blank sub c).1 := by
  unfold Cache.fillSlot
  split
  · -- the slot was empty
    have hlen : sub < c.ca_elements_ptr.length := hlt
    have hget : c.ca_elements_ptr[sub] = none := by
      simpa [Table.slot, List.getElem?_eq_getElem hlen] using hnone
    refine ⟨capacity_setSlot.trans h.capacity, ?_⟩
    simp only [Table.setSlot]
    rw [h.in_use, incInUse_u32, List.countP_set hlen, hget]
    simp
  · exact h

lemma Counted.map (h : Counted n c) (hmap : cacheElementMap cb env blank c = some (c', r)) :
    Counted n c' := by
  rcases cacheElementMap_eq hmap with ⟨rfl, -, -⟩ | ⟨sub, c₁, -, hroom, hfill⟩
  · exact h
  · rcases hroom.slot with ⟨hlt, hnone, -⟩
    have hfilled : Counted n (Cache.fillSlot env blank sub c₁).1 :=
      (hroom.kept (kept_counted cb) h).fillSlot hlt hnone
    rwa [← hfill] at hfilled

lemma Counted.markFlags {f : ElFlags → ElFlags} (h : Counted n c)
    (hmark : markFlags f i c = some c') : Counted n c' := by
  unfold Cache.markFlags at hmark
  cases hel : c.slot i with
  | none => simp [hel] at hmark
  | some el =>
    simp only [hel] at hmark
    split_ifs at hmark
    · exact Option.some.inj hmark ▸ h
    · exact Option.some.inj hmark ▸ h.setSlot hel _ _

/-- Where there is an element the thread makes its pass. -/
lemma Counted.in_use_pos (h : Counted n c) (hn : n < 2 ^ 32) (hel : c.slot i = some el) :
    0 < c.ca_elements_in_use := by
  have hle : c.ca_elements_ptr.countP Option.isSome ≤ n :=
    List.countP_le_length.trans h.capacity.le
  rw [h.in_use, u32_of_lt (by omega)]
  exact countP_pos_of_slot hel

/-! ### What a pass is good for -/

lemma slot_threadSlot_ne (hj : j ≠ i) : (threadSlot cb c i).slot j = c.slot j := by
  unfold Cache.threadSlot
  cases hel : c.slot i with
  | none => rfl
  | some el =>
    dsimp only
    split_ifs
    · rfl
    · exact slot_dropSlot_ne hj
    · exact slot_setSlot_ne hj

/-- The iteration on a slot leaves an element there that is clean, if it leaves one. -/
lemma threadSlot_clean
    (hfree : ∀ el, c.slot i = some el → el.ce_flags.active = true ∧ el.ce_locked = false)
    (hel : (threadSlot cb c i).slot i = some el) : el.ce_flags.dirty = false := by
  unfold Cache.threadSlot at hel
  cases hold : c.slot i with
  | none => simp [hold] at hel
  | some e =>
    rcases hfree e hold with ⟨hactive, hlock⟩
    simp only [hold, hactive, hlock, Bool.true_eq_false, Bool.false_eq_true, or_self,
      if_false] at hel
    split_ifs at hel
    · simp [slot_dropSlot_self hold] at hel
    · have hself := slot_setSlot_self (o := some (flushIfDirty cb e c.world).1)
        (lt_capacity_of_slot hold)
      exact slot_inj hself hel ▸ dirty_flushIfDirty c.world

/-- After a pass over elements that are active and whose mutex is free, all are clean. -/
theorem threadPass_clean (h : Counted n c) (hn : n < 2 ^ 32)
    (hfree : Each (fun el => el.ce_flags.active = true ∧ el.ce_locked = false) c) :
    Each (fun el => el.ce_flags.dirty = false) (threadPass cb c) := by
  have hkept : Kept cb (Each fun el => el.ce_flags.active = true ∧ el.ce_locked = false) :=
    kept_each fun _ _ hel => hel
  -- by induction on the slots of the loop: those behind hold clean elements
  have hloop : ∀ (is : List ℕ) (c : Table α ω),
      Each (fun el => el.ce_flags.active = true ∧ el.ce_locked = false) c →
      (∀ i el, i ∉ is → c.slot i = some el → el.ce_flags.dirty = false) →
      Each (fun el => el.ce_flags.dirty = false) (is.foldl (threadSlot cb) c) := by
    intro is
    induction is with
    | nil => exact fun c _ hclean i el hel => hclean i el (by simp) hel
    | cons i is ih =>
      intro c hfree hclean
      refine ih _ (hkept.threadSlot hfree) fun j el hj hel => ?_
      by_cases hji : j = i
      · subst hji
        exact threadSlot_clean (hfree j) hel
      · exact hclean j el (by simp [hji, hj]) (slot_threadSlot_ne hji ▸ hel)
  unfold Cache.threadPass
  split_ifs with huse
  · refine hloop _ c hfree fun i el hi hel => ?_
    exact absurd (List.mem_range.mpr (lt_capacity_of_slot hel)) hi
  · -- nothing is counted, and nothing is there
    intro i el hel
    exact absurd (h.in_use_pos hn hel) huse

end Counted

end KanekFs.Cache
