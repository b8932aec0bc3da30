import KanekFs.Cache.Table

/-!
# The table does not look into its elements

What the functions of `cache.c` do depends on the keys, the flags and the counters of the elements.
The payload and the world are for the callbacks alone.

* `Table.map` exchanges the payloads and the world, and `Callbacks.Lift` says that the callbacks do
  the same before and after.
* There is one lemma for each function: it commutes with the exchange. What a table of names with a
  log does, a table of pages with a device does as well.
-/

namespace KanekFs.Cache

variable {α β ω χ : Type*}

/-! ## Definitions -/

def Element.map (φ : α → β) (el : Element α) : Element β where
  ce_id := el.ce_id
  ce_flags := el.ce_flags
  ce_access_count := el.ce_access_count
  ce_locked := el.ce_locked
  data := φ el.data

def Table.map (φ : α → β) (ψ : ω → χ) (c : Table α ω) : Table β χ where
  ca_elements_ptr := c.ca_elements_ptr.map (Option.map (Element.map φ))
  ca_elements_in_use := c.ca_elements_in_use
  world := ψ c.world

/-- The world after a call of a callback. -/
def callback (f : Option (Element α → ω → ω)) (el : Element α) (w : ω) : ω :=
  match f with
  | some f => f el w
  | none => w

/-- The callbacks `cb'` do to the exchanged element and world what `cb` does to the old ones. -/
structure Callbacks.Lift (φ : α → β) (ψ : ω → χ) (cb : Callbacks α ω) (cb' : Callbacks β χ) :
    Prop where
  on_flush : ∀ el w, callback cb'.on_flush (el.map φ) (ψ w) = ψ (callback cb.on_flush el w)
  on_evict : ∀ el w, callback cb'.on_evict (el.map φ) (ψ w) = ψ (callback cb.on_evict el w)

/-! ## Slots -/

section Slots

variable {φ : α → β} {ψ : ω → χ} {c : Table α ω} {i : ℕ} {el : Element α}
  {o : Option (Element α)}

@[simp] lemma Element.map_flags : (el.map φ).ce_flags = el.ce_flags := rfl

@[simp] lemma Element.map_locked : (el.map φ).ce_locked = el.ce_locked := rfl

@[simp] lemma Table.map_in_use :
    (c.map φ ψ).ca_elements_in_use = c.ca_elements_in_use := rfl

@[simp] lemma Table.map_world : (c.map φ ψ).world = ψ c.world := rfl

@[simp] lemma slot_map : (c.map φ ψ).slot i = (c.slot i).map (Element.map φ) := by
  simp only [Table.slot, Table.map, List.getElem?_map]
  cases c.ca_elements_ptr[i]? <;> rfl

@[simp] lemma capacity_map : (c.map φ ψ).capacity = c.capacity := by
  simp [Table.capacity, Table.map]

lemma map_setSlot : (c.setSlot i o).map φ ψ = (c.map φ ψ).setSlot i (o.map (Element.map φ)) := by
  simp [Table.map, Table.setSlot, List.map_set]

/-- A search that asks only what is the same in both tables. -/
lemma findIdx?_map {P : Option (Element α) → Bool} {Q : Option (Element β) → Bool}
    (h : ∀ o, Q (o.map (Element.map φ)) = P o) :
    (c.map φ ψ).ca_elements_ptr.findIdx? Q = c.ca_elements_ptr.findIdx? P := by
  rw [Table.map, List.findIdx?_map]
  exact congrArg (fun f => c.ca_elements_ptr.findIdx? f) (funext h)

lemma findKey_map (key : ℕ) : findKey key (c.map φ ψ) = findKey key c :=
  findIdx?_map fun o => by cases o <;> rfl

lemma firstEmpty_map : firstEmpty (c.map φ ψ) = firstEmpty c :=
  findIdx?_map fun o => by cases o <;> rfl

lemma lruVictim_map : lruVictim (c.map φ ψ) = lruVictim c := by
  have hloop : ∀ (l : List (Option (Element α))) i s,
      lruLoop (l.map (Option.map (Element.map φ))) i s = lruLoop l i s := by
    intro l
    induction l with
    | nil => exact fun _ _ => rfl
    | cons o l ih =>
      intro i s
      cases o with
      | none => rfl
      | some el => exact ih _ _
  rw [lruVictim, lruVictim, Table.map, hloop]

lemma mapSlot_map : mapSlot (c.map φ ψ) = mapSlot c := by
  rw [mapSlot, mapSlot, firstEmpty_map, lruVictim_map]

end Slots

/-! ## Calls -/

section Calls

variable {φ : α → β} {ψ : ω → χ} {cb : Callbacks α ω} {cb' : Callbacks β χ} {c : Table α ω}
  {i : ℕ}

lemma markFlags_map (f : ElFlags → ElFlags) :
    markFlags f i (c.map φ ψ) = (markFlags f i c).map (Table.map φ ψ) := by
  unfold markFlags
  rw [slot_map]
  cases hel : c.slot i with
  | none => rfl
  | some el =>
    dsimp only [Option.map_some, Element.map]
    split_ifs
    · rfl
    · rfl
    · rw [Option.map_some, map_setSlot]
      rfl

lemma cacheElementMarkEviction_map :
    cacheElementMarkEviction i (c.map φ ψ) =
      (cacheElementMarkEviction i c).map (Table.map φ ψ) := markFlags_map _

lemma cacheLookup_map (key : ℕ) :
    cacheLookup key (c.map φ ψ) = (cacheLookup key c).map φ ψ := by
  unfold cacheLookup
  rw [findKey_map]
  cases hkey : findKey key c with
  | none => rfl
  | some i =>
    dsimp only
    rw [slot_map]
    cases hel : c.slot i with
    | none => rfl
    | some el =>
      dsimp only [Option.map_some]
      rw [map_setSlot]
      rfl

/-- The loops of `cache_sync` and `cache_disable`, which do the same to both tables. -/
lemma markSlots_map {P : Element α → Bool} {Q : Element β → Bool}
    (h : ∀ el, Q (el.map φ) = P el) (is : List ℕ) :
    markSlots Q is (c.map φ ψ) = (markSlots P is c).map (Table.map φ ψ) := by
  unfold markSlots
  induction is generalizing c with
  | nil => rfl
  | cons i is ih =>
    rw [List.foldlM_cons, List.foldlM_cons, slot_map]
    cases hel : c.slot i with
    | none => exact ih
    | some el =>
      dsimp only [Option.map_some]
      rw [h]
      split_ifs
      · exact ih
      · -- by induction, from the table with the mark
        rw [cacheElementMarkEviction_map]
        cases cacheElementMarkEviction i c with
        | none => rfl
        | some c₁ => exact ih

lemma fillSlot_map (env : AllocEnv) (blank : α) (sub : ℕ) :
    fillSlot env (φ blank) sub (c.map φ ψ) =
      ((fillSlot env blank sub c).1.map φ ψ, (fillSlot env blank sub c).2) := by
  unfold fillSlot
  split
  · refine Prod.ext ?_ rfl
    simp only [Table.setSlot, Table.map, List.map_set]
    rfl
  · rfl

variable (h : Callbacks.Lift φ ψ cb cb')
include h

lemma flushElement_map (el : Element α) (w : ω) :
    flushElement cb' (el.map φ) (ψ w) =
      ((flushElement cb el w).1.map φ, ψ (flushElement cb el w).2) :=
  Prod.ext rfl (h.on_flush { el with ce_access_count := addCount el.ce_access_count } w)

lemma flushIfDirty_map (el : Element α) (w : ω) :
    flushIfDirty cb' (el.map φ) (ψ w) =
      ((flushIfDirty cb el w).1.map φ, ψ (flushIfDirty cb el w).2) := by
  unfold flushIfDirty
  rw [Element.map_flags]
  split_ifs
  · exact flushElement_map h el w
  · rfl

lemma dropSlot_map (el : Element α) (w : ω) :
    dropSlot cb' i (el.map φ) (ψ w) (c.map φ ψ) = (dropSlot cb i el w c).map φ ψ := by
  have hworld := h.on_evict el w
  unfold callback at hworld
  simp only [dropSlot, Table.map, List.map_set, Option.map_none, Table.mk.injEq, true_and]
  exact hworld

lemma cacheElementEvictByIdx_map (i : ℕ) :
    cacheElementEvictByIdx cb' i (c.map φ ψ) =
      (cacheElementEvictByIdx cb i c).map (Table.map φ ψ) := by
  unfold cacheElementEvictByIdx
  rw [slot_map]
  cases hel : c.slot i with
  | none => rfl
  | some el =>
    dsimp only [Option.map_some, Element.map]
    split_ifs
    · rfl
    · have hflush := flushIfDirty_map h el c.world
      rw [Option.map_some]
      exact congrArg some ((congrArg (fun r => dropSlot cb' i r.1 r.2 (c.map φ ψ)) hflush).trans
        (dropSlot_map h _ _))

lemma cacheElementEvict_map (key : ℕ) :
    cacheElementEvict cb' key (c.map φ ψ) =
      (cacheElementEvict cb key c).map (Table.map φ ψ) := by
  unfold cacheElementEvict
  rw [findKey_map]
  cases findKey key c with
  | none => rfl
  | some i => exact cacheElementEvictByIdx_map h i

lemma cacheElementMap_map (env : AllocEnv) (blank : α) :
    cacheElementMap cb' env (φ blank) (c.map φ ψ) =
      (cacheElementMap cb env blank c).map fun r => (r.1.map φ ψ, r.2) := by
  unfold cacheElementMap
  rw [firstEmpty_map, lruVictim_map]
  cases firstEmpty c with
  | some sub => exact congrArg some (fillSlot_map env blank sub)
  | none =>
    cases lruVictim c with
    | none => rfl
    | some sub =>
      dsimp only
      rw [cacheElementEvictByIdx_map h]
      cases cacheElementEvictByIdx cb sub c with
      | none => rfl
      | some c₁ => exact congrArg some (fillSlot_map env blank sub)

lemma threadSlot_map (c : Table α ω) (i : ℕ) :
    threadSlot cb' (c.map φ ψ) i = (threadSlot cb c i).map φ ψ := by
  unfold threadSlot
  rw [slot_map]
  cases hel : c.slot i with
  | none => rfl
  | some el =>
    have hflush := flushIfDirty_map h el c.world
    dsimp only [Option.map_some]
    rw [Table.map_world, hflush, Element.map_flags, Element.map_locked]
    split_ifs
    · rfl
    · exact dropSlot_map h _ _
    · simp only [Table.map, Table.setSlot, List.map_set, Option.map_some]

lemma threadPass_map (c : Table α ω) :
    threadPass cb' (c.map φ ψ) = (threadPass cb c).map φ ψ := by
  unfold threadPass
  rw [capacity_map, Table.map_in_use]
  split_ifs
  · exact List.foldl_hom (Table.map φ ψ) fun c i => threadSlot_map h c i
  · rfl

end Calls

end KanekFs.Cache
