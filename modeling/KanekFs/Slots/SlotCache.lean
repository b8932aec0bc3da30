import KanekFs.Cache.Table
import KanekFs.Lib.Run

/-!
# The slot cache

`slcache_slot_map` over the element table of `cache.c`. Of `slot_load` it is known only that it
returns a new object for the slot it is asked for, or `NULL`; `loaded` counts the objects, and tells
them apart.

* `NothingNew` is what the cache does by itself to the slots that are held: it drops some.
* `step_once_iff`: a call keeps one element for each slot, and returns the one that is there,
  exactly when the key it looks for leads to this element.
* `one_element_each_iff`: the same for every run. The key of an element is its address, and never
  becomes the id of its slot.
-/

namespace KanekFs.SlotCache

open Cache Run

/-- A `slot_t` that `slot_load` has returned. -/
structure Slot where
  slot_id : ℕ
  load : ℕ
deriving DecidableEq

/-- The part of `slcache_element_t` that follows `sce_el`. -/
structure SlotData where
  sce_slot : Option Slot

/-- The payload after `memset`. -/
def SlotData.zero : SlotData := ⟨none⟩

/-- `slot_destroy` and `slot_save`. -/
structure SlotOps (ω : Type*) where
  destroy : Slot → ω → ω
  save : Option Slot → ω → ω

variable {ω : Type*}

def slcacheOnEvict (ops : SlotOps ω) (el : Element SlotData) (w : ω) : ω :=
  match el.data.sce_slot with
  | some slot => ops.destroy slot w
  | none => w

def slcacheOnFlush (ops : SlotOps ω) (el : Element SlotData) (w : ω) : ω :=
  ops.save el.data.sce_slot w

def callbacks (ops : SlotOps ω) : Callbacks SlotData ω :=
  ⟨some (slcacheOnFlush ops), some (slcacheOnEvict ops)⟩

/-- `slcache_t`, and how many slots have been loaded. -/
structure SlCache (ω : Type*) where
  sc_cache : Table SlotData ω
  loaded : ℕ

/-- `slcache_alloc` -/
def slcacheAlloc (elements_capacity : ℕ) (w : ω) : SlCache ω :=
  ⟨cacheInit elements_capacity w, 0⟩

/-- How the calls of one `slcache_slot_map` turn out. -/
structure MapEnv where
  el : AllocEnv
  slot_load : Bool

/-- `CACHE_EL_ADD_COUNT` -/
def countHit (el : Element SlotData) : Element SlotData :=
  { el with ce_access_count := addCount el.ce_access_count }

/-- `slcache_slot_map`. The element is returned also where the slot could not be loaded. -/
def slcacheSlotMap (ops : SlotOps ω) (env : MapEnv) (slot_id : ℕ) (s : SlCache ω) :
    Option (SlCache ω × Option ℕ) :=
  match findKey slot_id s.sc_cache with
  | some i =>
    (s.sc_cache.slot i).map fun el =>
      ({ s with sc_cache := s.sc_cache.setSlot i (some (countHit el)) }, some i)
  | none =>
    match cacheElementMap (callbacks ops) env.el .zero s.sc_cache with
    | none => none
    | some (c, none) => some ({ s with sc_cache := c }, none)
    | some (c, some sub) =>
      match c.slot sub with
      | none => none
      | some el =>
        if env.slot_load then
          some (⟨c.setSlot sub (some { el with data := ⟨some ⟨slot_id, s.loaded⟩⟩ }),
            s.loaded + 1⟩, some sub)
        else (cacheElementMarkEviction sub c).map fun c => ({ s with sc_cache := c }, some sub)

/-- What a client or the thread does to the cache. -/
inductive Op
  | map (env : MapEnv) (slot_id : ℕ)
  | markDirty (i : ℕ)
  | markEviction (i : ℕ)
  | pin (i : ℕ)
  | unpin (i : ℕ)
  | evict (key : ℕ)
  | pass

def step (ops : SlotOps ω) (s : SlCache ω) : Op → Option (SlCache ω)
  | .map env slot_id => (slcacheSlotMap ops env slot_id s).map Prod.fst
  | .markDirty i => (cacheElementMarkDirty i s.sc_cache).map fun c => { s with sc_cache := c }
  | .markEviction i => (cacheElementMarkEviction i s.sc_cache).map fun c => { s with sc_cache := c }
  | .pin i => (cacheElementPin i s.sc_cache).map fun c => { s with sc_cache := c }
  | .unpin i => (cacheElementMarkUnpin i s.sc_cache).map fun c => { s with sc_cache := c }
  | .evict key =>
    (cacheElementEvict (callbacks ops) key s.sc_cache).map fun c => { s with sc_cache := c }
  | .pass => some { s with sc_cache := threadPass (callbacks ops) s.sc_cache }

/-! ## One element for each slot -/

/-- The element in slot `i` of the table holds the object `slot`. -/
def HoldsAt (c : Table SlotData ω) (i : ℕ) (slot : Slot) : Prop :=
  ∃ el, c.slot i = some el ∧ el.data.sce_slot = some slot

/-- No two live elements hold the same slot. -/
def OneEach (s : SlCache ω) : Prop :=
  ∀ i j slot slot', HoldsAt s.sc_cache i slot → HoldsAt s.sc_cache j slot' →
    slot.slot_id = slot'.slot_id → i = j

/-- A call that maps a slot that is cached returns an element with the object that is there. -/
def ReturnsCached (ops : SlotOps ω) (s : SlCache ω) : Op → Prop
  | .map env slot_id => ∀ i slot, HoldsAt s.sc_cache i slot → slot.slot_id = slot_id →
    ∀ s' r, slcacheSlotMap ops env slot_id s = some (s', r) →
      ∃ j, r = some j ∧ HoldsAt s'.sc_cache j slot
  | _ => True

/-- If the slot a call maps is cached, the element that holds it is the first one whose `ce_id` is
the id of the slot. -/
def FoundByKey (s : SlCache ω) : Op → Prop
  | .map _ slot_id => ∀ i slot, HoldsAt s.sc_cache i slot → slot.slot_id = slot_id →
    findKey slot_id s.sc_cache = some i
  | _ => True

/-- The objects that are held have been loaded. -/
def Loaded (s : SlCache ω) : Prop := ∀ i slot, HoldsAt s.sc_cache i slot → slot.load < s.loaded

/-! ## What the cache does by itself -/

section Kept

variable {ops : SlotOps ω} {c c₁ c₂ : Table SlotData ω} {i j n : ℕ} {el : Element SlotData}
  {slot : Slot}

/-- Every element of the second table was in its place in the first, with the same object. -/
def NothingNew (c c' : Table SlotData ω) : Prop := ∀ i slot, HoldsAt c' i slot → HoldsAt c i slot

lemma NothingNew.trans (h : NothingNew c c₁) (h' : NothingNew c₁ c₂) : NothingNew c c₂ :=
  fun i slot hslot => h i slot (h' i slot hslot)

/-- An element changes, but not what it holds. -/
lemma nothingNew_setSlot {el' : Element SlotData} (hel : c.slot i = some el)
    (hdata : el'.data = el.data) : NothingNew c (c.setSlot i (some el')) := by
  rintro j slot ⟨el₁, hel₁, hslot⟩
  by_cases hji : j = i
  · subst hji
    rw [slot_setSlot_self (lt_capacity_of_slot hel)] at hel₁
    cases hel₁
    exact ⟨el, hel, hdata ▸ hslot⟩
  · rw [slot_setSlot_ne hji] at hel₁
    exact ⟨el₁, hel₁, hslot⟩

lemma kept_nothingNew (ops : SlotOps ω) (c : Table SlotData ω) :
    Kept (callbacks ops) (NothingNew c) where
  flush := by
    intro c₁ i el hel _ h
    exact h.trans (nothingNew_setSlot hel rfl)
  drop := by
    rintro c₁ i el hel - h j slot ⟨el₁, hel₁, hslot⟩
    by_cases hji : j = i
    · subst hji
      rw [slot_dropSlot_self hel] at hel₁
      cases hel₁
    · rw [slot_dropSlot_ne hji] at hel₁
      exact h j slot ⟨el₁, hel₁, hslot⟩

lemma nothingNew_refl (c : Table SlotData ω) : NothingNew c c := fun _ _ h => h

lemma nothingNew_markFlags {f : ElFlags → ElFlags} (h : markFlags f i c = some c₁) :
    NothingNew c c₁ := by
  unfold markFlags at h
  cases hel : c.slot i with
  | none => simp [hel] at h
  | some el =>
    simp only [hel] at h
    split_ifs at h
    · cases h
      exact nothingNew_refl c
    · cases h
      exact nothingNew_setSlot hel rfl

end Kept

/-! ## Steps -/

section Steps

variable {ops : SlotOps ω} {env : MapEnv} {s s' : SlCache ω} {slot_id : ℕ} {r : Option ℕ} {op : Op}

lemma OneEach.mono (h : OneEach s) (hnew : NothingNew s.sc_cache s'.sc_cache) : OneEach s' :=
  fun i j slot slot' hi hj hid => h i j slot slot' (hnew i slot hi) (hnew j slot' hj) hid

lemma Loaded.mono (h : Loaded s) (hnew : NothingNew s.sc_cache s'.sc_cache)
    (hle : s.loaded ≤ s'.loaded) : Loaded s' :=
  fun i slot hi => lt_of_lt_of_le (h i slot (hnew i slot hi)) hle

/-- What a call of `slcache_slot_map` can do. -/
inductive MapEffect (slot_id : ℕ) (s : SlCache ω) : SlCache ω → Option ℕ → Prop
  /-- An element has the id for its key. -/
  | hit {i : ℕ} {t : SlCache ω} (hkey : findKey slot_id s.sc_cache = some i)
      (hsame : ∀ j slot, HoldsAt t.sc_cache j slot ↔ HoldsAt s.sc_cache j slot)
      (hloaded : t.loaded = s.loaded) : MapEffect slot_id s t (some i)
  /-- There is no new element. -/
  | noElement {t : SlCache ω} (hkey : findKey slot_id s.sc_cache = none)
      (hnew : NothingNew s.sc_cache t.sc_cache) (hloaded : t.loaded = s.loaded) :
      MapEffect slot_id s t none
  /-- A new element has no slot. -/
  | notLoaded {sub : ℕ} {t : SlCache ω} (hkey : findKey slot_id s.sc_cache = none)
      (hnew : NothingNew s.sc_cache t.sc_cache) (hnone : ∀ slot, ¬HoldsAt t.sc_cache sub slot)
      (hloaded : t.loaded = s.loaded) : MapEffect slot_id s t (some sub)
  /-- A new element has the slot. -/
  | newSlot {sub : ℕ} {t : SlCache ω} (hkey : findKey slot_id s.sc_cache = none)
      (hself : ∀ slot, HoldsAt t.sc_cache sub slot ↔ slot = ⟨slot_id, s.loaded⟩)
      (hother : ∀ j ≠ sub, ∀ slot, HoldsAt t.sc_cache j slot → HoldsAt s.sc_cache j slot)
      (hloaded : t.loaded = s.loaded + 1) : MapEffect slot_id s t (some sub)

lemma holdsAt_countHit {c : Table SlotData ω} {i j : ℕ} {el : Element SlotData} {slot : Slot}
    (hel : c.slot i = some el) :
    HoldsAt (c.setSlot i (some (countHit el))) j slot ↔ HoldsAt c j slot := by
  have hnew : NothingNew c (c.setSlot i (some (countHit el))) := nothingNew_setSlot hel rfl
  constructor
  · exact hnew j slot
  · rintro ⟨el₁, hel₁, hslot⟩
    by_cases hji : j = i
    · subst hji
      obtain rfl : el = el₁ := slot_inj hel hel₁
      exact ⟨countHit el, slot_setSlot_self (lt_capacity_of_slot hel), hslot⟩
    · exact ⟨el₁, by rwa [slot_setSlot_ne hji], hslot⟩

/-- A new element holds nothing, and the others are those that were there. -/
lemma cacheElementMap_new {c c' : Table SlotData ω} {sub : ℕ} {env : AllocEnv}
    (h : cacheElementMap (callbacks ops) env .zero c = some (c', some sub)) :
    NothingNew c c' ∧ ∃ p, c'.slot sub = some (newElement p .zero) := by
  rcases cacheElementMap_eq h with ⟨-, hr, -⟩ | ⟨sub', c₁, -, hroom, hfill⟩
  · cases hr
  · rcases fillSlot_some hfill with ⟨rfl, -, p, rfl⟩
    rcases hroom.slot with ⟨hlt, -, -⟩
    have hself : (c₁.setSlot sub (some (newElement p .zero))).slot sub =
        some (newElement p .zero) := slot_setSlot_self hlt
    refine ⟨?_, p, hself⟩
    have hnew := hroom.kept (kept_nothingNew ops c) (nothingNew_refl c)
    rintro j slot ⟨el, hel, hslot⟩
    by_cases hj : j = sub
    · subst hj
      cases hself.symm.trans hel
      cases hslot
    · exact hnew j slot ⟨el, (slot_setSlot_ne hj).symm.trans hel, hslot⟩

lemma cacheElementMap_none {c c' : Table SlotData ω} {env : AllocEnv}
    (h : cacheElementMap (callbacks ops) env .zero c = some (c', none)) : NothingNew c c' := by
  rcases cacheElementMap_eq h with ⟨rfl, -, -⟩ | ⟨sub', c₁, -, hroom, hfill⟩
  · exact nothingNew_refl c'
  · rcases fillSlot_none hfill with ⟨rfl, -⟩
    exact hroom.kept (kept_nothingNew ops c) (nothingNew_refl c)

theorem slcacheSlotMap_effect (h : slcacheSlotMap ops env slot_id s = some (s', r)) :
    MapEffect slot_id s s' r := by
  unfold slcacheSlotMap at h
  cases hkey : findKey slot_id s.sc_cache with
  | some i =>
    rcases slot_of_findKey hkey with ⟨el, hel, -⟩
    simp only [hkey, hel, Option.map_some, Option.some.injEq, Prod.mk.injEq] at h
    rcases h with ⟨rfl, rfl⟩
    exact .hit hkey (fun _ _ => holdsAt_countHit hel) rfl
  | none =>
    simp only [hkey] at h
    rcases hmap : cacheElementMap (callbacks ops) env.el .zero s.sc_cache with _ | ⟨c, _ | sub⟩
    · simp [hmap] at h
    · simp only [hmap, Option.some.injEq, Prod.mk.injEq] at h
      rcases h with ⟨rfl, rfl⟩
      exact .noElement hkey (cacheElementMap_none hmap) rfl
    · rcases cacheElementMap_new hmap with ⟨hnew, p, hslot⟩
      have hlt := lt_capacity_of_slot hslot
      simp only [hmap, hslot] at h
      split_ifs at h with hload
      · simp only [Option.some.injEq, Prod.mk.injEq] at h
        rcases h with ⟨rfl, rfl⟩
        refine .newSlot hkey ?_ ?_ rfl
        · intro slot
          simp [HoldsAt, slot_setSlot_self hlt, eq_comm]
        · rintro j hj slot ⟨el, hel, hdata⟩
          rw [slot_setSlot_ne hj] at hel
          exact hnew j slot ⟨el, hel, hdata⟩
      · rcases Option.map_eq_some_iff.mp h with ⟨c₁, hmark, heq⟩
        simp only [Prod.mk.injEq] at heq
        rcases heq with ⟨rfl, rfl⟩
        have hmarked := nothingNew_markFlags hmark
        refine .notLoaded hkey (hnew.trans hmarked) ?_ rfl
        -- its payload is still zeroed
        intro slot hslot'
        rcases hmarked sub slot hslot' with ⟨el, hel, hdata⟩
        cases hslot.symm.trans hel
        cases hdata

/-- A slot that no element holds may be given to a new one. -/
lemma OneEach.newSlot {sub : ℕ} (h : OneEach s)
    (hself : ∀ slot, HoldsAt s'.sc_cache sub slot ↔ slot = ⟨slot_id, s.loaded⟩)
    (hother : ∀ j ≠ sub, ∀ slot, HoldsAt s'.sc_cache j slot → HoldsAt s.sc_cache j slot)
    (hno : ∀ i slot, HoldsAt s.sc_cache i slot → slot.slot_id ≠ slot_id) : OneEach s' := by
  have hid : ∀ slot, HoldsAt s'.sc_cache sub slot → slot.slot_id = slot_id :=
    fun slot hheld => congrArg Slot.slot_id ((hself slot).mp hheld)
  intro i j slot slot' hi hj hsame
  by_cases hisub : i = sub <;> by_cases hjsub : j = sub
  · rw [hisub, hjsub]
  · rw [hisub] at hi
    exact absurd (hsame.symm.trans (hid slot hi)) (hno j slot' (hother j hjsub slot' hj))
  · rw [hjsub] at hj
    exact absurd (hsame.trans (hid slot' hj)) (hno i slot (hother i hisub slot hi))
  · exact h i j slot slot' (hother i hisub slot hi) (hother j hjsub slot' hj) hsame

/-- One call. -/
lemma map_once_iff (hloaded : Loaded s) (hone : OneEach s)
    (heff : MapEffect slot_id s s' r) :
    (OneEach s' ∧ ∀ i slot, HoldsAt s.sc_cache i slot → slot.slot_id = slot_id →
      ∃ j, r = some j ∧ HoldsAt s'.sc_cache j slot) ↔
      ∀ i slot, HoldsAt s.sc_cache i slot → slot.slot_id = slot_id →
        findKey slot_id s.sc_cache = some i := by
  cases heff with
  | @hit k _ hkey hsame _ =>
    have hone' : OneEach s' := hone.mono fun i slot hi => (hsame i slot).mp hi
    constructor
    · rintro ⟨-, hret⟩ i slot hi hid
      rcases hret i slot hi hid with ⟨j, hj, hheld⟩
      cases hj
      rw [hkey, hone i k slot slot hi ((hsame k slot).mp hheld) rfl]
    · intro hfound
      refine ⟨hone', ?_⟩
      intro i slot hi hid
      exact ⟨i, hkey.symm.trans (hfound i slot hi hid), (hsame i slot).mpr hi⟩
  | noElement hkey hnew _ =>
    rw [hkey]
    constructor
    · rintro ⟨-, hret⟩ i slot hi hid
      rcases hret i slot hi hid with ⟨j, hj, -⟩
      cases hj
    · intro hfound
      exact ⟨hone.mono hnew, fun i slot hi hid => absurd (hfound i slot hi hid) (by simp)⟩
  | notLoaded hkey hnew hnone _ =>
    rw [hkey]
    constructor
    · rintro ⟨-, hret⟩ i slot hi hid
      rcases hret i slot hi hid with ⟨j, hj, hheld⟩
      cases hj
      exact absurd hheld (hnone slot)
    · intro hfound
      exact ⟨hone.mono hnew, fun i slot hi hid => absurd (hfound i slot hi hid) (by simp)⟩
  | @newSlot sub _ hkey hself hother _ =>
    rw [hkey]
    constructor
    · rintro ⟨-, hret⟩ i slot hi hid
      rcases hret i slot hi hid with ⟨j, hj, hheld⟩
      cases hj
      -- the object is not the one that was there
      have hload := hloaded i slot hi
      rw [(hself slot).mp hheld] at hload
      exact absurd hload (lt_irrefl _)
    · intro hfound
      have hno : ∀ i slot, HoldsAt s.sc_cache i slot → slot.slot_id ≠ slot_id :=
        fun i slot hi hid => absurd (hfound i slot hi hid) (by simp)
      exact ⟨hone.newSlot hself hother hno, fun i slot hi hid => absurd hid (hno i slot hi)⟩

/-- A step that is no call of `slcache_slot_map` brings nothing new. -/
lemma nothingNew_step (hop : ∀ env slot_id, op ≠ .map env slot_id)
    (hstep : step ops s op = some s') :
    NothingNew s.sc_cache s'.sc_cache ∧ s'.loaded = s.loaded := by
  have hkept := kept_nothingNew ops s.sc_cache
  cases op with
  | map env slot_id => exact absurd rfl (hop env slot_id)
  | evict key =>
    rcases Option.map_eq_some_iff.mp hstep with ⟨c, hev, rfl⟩
    exact ⟨hkept.evict (nothingNew_refl _) hev, rfl⟩
  | pass =>
    cases hstep
    exact ⟨hkept.threadPass (nothingNew_refl _), rfl⟩
  | _ =>
    rcases Option.map_eq_some_iff.mp hstep with ⟨c, hmark, rfl⟩
    exact ⟨nothingNew_markFlags hmark, rfl⟩

theorem step_once_iff (hloaded : Loaded s) (hone : OneEach s) (hstep : step ops s op = some s') :
    OneEach s' ∧ ReturnsCached ops s op ↔ FoundByKey s op := by
  cases op with
  | map env slot_id =>
    rcases Option.map_eq_some_iff.mp hstep with ⟨⟨t, r⟩, hmap, rfl⟩
    rw [FoundByKey, ← map_once_iff hloaded hone (slcacheSlotMap_effect hmap)]
    simp [ReturnsCached, hmap]
  | _ =>
    rcases nothingNew_step (by simp) hstep with ⟨hnew, -⟩
    simp [ReturnsCached, FoundByKey, hone.mono hnew]

lemma loaded_step (hloaded : Loaded s) (hstep : step ops s op = some s') : Loaded s' := by
  cases op with
  | map env slot_id =>
    rcases Option.map_eq_some_iff.mp hstep with ⟨⟨t, r⟩, hmap, rfl⟩
    cases slcacheSlotMap_effect hmap with
    | hit hkey hsame heq => exact hloaded.mono (fun j slot hj => (hsame j slot).mp hj) heq.ge
    | noElement hkey hnew heq => exact hloaded.mono hnew heq.ge
    | notLoaded hkey hnew hnone heq => exact hloaded.mono hnew heq.ge
    | @newSlot sub _ hkey hself hother heq =>
      intro j slot hj
      by_cases hjsub : j = sub
      · rw [hjsub, hself] at hj
        rw [hj, heq]
        exact Nat.lt_succ_self _
      · rw [heq]
        exact Nat.lt_succ_of_lt (hloaded j slot (hother j hjsub slot hj))
  | _ =>
    rcases nothingNew_step (by simp) hstep with ⟨hnew, heq⟩
    exact hloaded.mono hnew heq.ge

end Steps

lemma not_holdsAt_slcacheAlloc {cap i : ℕ} {w : ω} {slot : Slot} :
    ¬HoldsAt (slcacheAlloc cap w).sc_cache i slot := by
  rintro ⟨el, hel, -⟩
  cases (slot_cacheInit cap w).symm.trans hel

/-- **When a slot has one cache element.** In a run from an empty cache every slot is held by at
most one element, and mapping a slot that is cached returns its element, if and only if no call maps
a cached slot whose element does not have the id of the slot for its key. -/
theorem one_element_each_iff {ops : SlotOps ω} {cap : ℕ} {w : ω} {t : List Op} :
    Throughout (step ops) OneEach (slcacheAlloc cap w) t ∧
      Along (step ops) (ReturnsCached ops) (slcacheAlloc cap w) t ↔
      Along (step ops) FoundByKey (slcacheAlloc cap w) t := by
  refine throughout_and_along_iff (I := Loaded) ?_ ?_ ?_ ?_
  · intro s op s' hstep hloaded
    exact loaded_step hloaded hstep
  · intro s op s' hstep hloaded hone
    exact step_once_iff hloaded hone hstep
  · intro i slot hi
    exact absurd hi not_holdsAt_slcacheAlloc
  · intro i j slot slot' hi
    exact absurd hi not_holdsAt_slcacheAlloc

/-- Slot 7 is mapped twice, and held twice. -/
theorem slot_mapped_twice :
    ∃ s, run (step ⟨fun _ w => w, fun _ w => w⟩) (slcacheAlloc 2 ())
        [.map ⟨⟨some 0x1000, true⟩, true⟩ 7, .map ⟨⟨some 0x2000, true⟩, true⟩ 7] = some s ∧
      HoldsAt s.sc_cache 0 ⟨7, 0⟩ ∧ HoldsAt s.sc_cache 1 ⟨7, 1⟩ ∧ ¬OneEach s := by
  refine ⟨_, rfl, ⟨_, rfl, rfl⟩, ⟨_, rfl, rfl⟩, ?_⟩
  intro hone
  have heq : 0 = 1 := hone 0 1 ⟨7, 0⟩ ⟨7, 1⟩ ⟨_, rfl, rfl⟩ ⟨_, rfl, rfl⟩ rfl
  cases heq

end KanekFs.SlotCache
