import KanekFs.Page.PageCache
import Mathlib.Data.Set.Disjoint

/-!
# When the page cache is coherent

`pgcache_element_map` and `pgcache_element_map_zero` look a page up by its start address alone,
so nothing keeps two live elements from covering the same block.

* `gains` is the slot and the extent that an operation brings into the cache or enlarges,
  computed from the operation and the table before it. No other operation adds blocks to the
  cache: `step_extents`.
* `StepOk` asks that this extent is disjoint from those of the other elements, and
  `coherent_step_iff` says that this is what keeps the cache coherent.
* `throughout_coherent_iff` is the result for runs from an empty cache.
-/

namespace KanekFs.Page

open Bytes Cache Run

/-! ## Definitions -/

/-- The blocks `[start, start + count)`. -/
def span (start : ℕ) (count : ℤ) : Set ℕ := Set.Ico start (start + count.toNat)

/-- The blocks an element covers. -/
def extent (el : PgElement) : Set ℕ := span el.data.pe_block_addr el.data.pe_num_blocks

/-- No block is covered by two different live elements. -/
def Coherent (c : PgCache) : Prop :=
  ∀ b i j el el', c.slot i = some el → c.slot j = some el' → b ∈ extent el → b ∈ extent el' → i = j

/-- The slot, start and number of blocks of the extent that an operation brings into the cache
or enlarges, if there is one. -/
def gains (c : PgCache) : Op → Option (ℕ × ℕ × ℤ)
  | .map env addr n =>
    match findKey addr c with
    | some i => (c.slot i).bind fun el =>
        -- the growth path keeps the start of the element, whatever address was asked for
        if el.data.pe_num_blocks < n ∧ env.page_alloc = true ∧ env.read = true then
          some (i, el.data.pe_block_addr, n)
        else none
    | none =>
      if env.el.Ok ∧ env.page_alloc = true ∧ env.read = true then
        (mapSlot c).map fun sub => (sub, addr, n)
      else none
  | .mapZero env addr n =>
    match findKey addr c with
    -- an element that is found is not enlarged here
    | some _ => none
    | none =>
      if env.el.Ok ∧ env.page_alloc = true then (mapSlot c).map fun sub => (sub, addr, n) else none
  | _ => none

/-- The extent an operation brings in or enlarges is disjoint from all the elements in the other
slots. -/
def StepOk (c : PgCache) (op : Op) : Prop :=
  ∀ sub start n, gains c op = some (sub, start, n) →
    ∀ j ≠ sub, ∀ el, c.slot j = some el → Disjoint (span start n) (extent el)

/-! ## Steps that bring nothing in -/

/-- Every element of `c'` covers nothing, or covers what the element of its slot covered. -/
def Shrinks (c c' : PgCache) : Prop :=
  ∀ j el', c'.slot j = some el' → extent el' = ∅ ∨ ∃ el, c.slot j = some el ∧ extent el' = extent el

section Steps

variable {c c' c₁ : PgCache} {i sub : ℕ} {el el' : PgElement} {op : Op}

lemma Shrinks.refl (c : PgCache) : Shrinks c c := fun _ el hel => .inr ⟨el, hel, rfl⟩

lemma Shrinks.trans (h : Shrinks c c₁) (h' : Shrinks c₁ c') : Shrinks c c' := by
  intro j el' hj
  -- follow the element of a slot back through both steps
  rcases h' j el' hj with hempty | ⟨el₁, hj₁, heq⟩
  · exact .inl hempty
  · rcases h j el₁ hj₁ with hempty | ⟨el, hel, heq'⟩
    · exact .inl (heq.trans hempty)
    · exact .inr ⟨el, hel, heq.trans heq'⟩

/-- One slot changes, and its new element covers nothing or what the old one covered. -/
lemma Shrinks.of_slot (hother : ∀ j ≠ i, c'.slot j = c.slot j)
    (hself : ∀ el', c'.slot i = some el' →
      extent el' = ∅ ∨ ∃ el, c.slot i = some el ∧ extent el' = extent el) : Shrinks c c' := by
  intro j el' hj
  by_cases hji : j = i
  · subst hji
    exact hself el' hj
  · exact .inr ⟨el', (hother j hji) ▸ hj, rfl⟩

/-- The element of one slot is replaced by one that covers the same blocks. -/
lemma Shrinks.of_put (hel : c.slot i = some el) (hself : c'.slot i = some el')
    (hextent : extent el' = extent el) (hother : ∀ j ≠ i, c'.slot j = c.slot j) : Shrinks c c' :=
  Shrinks.of_slot hother fun _ he => .inr ⟨el, hel, slot_inj hself he ▸ hextent⟩

lemma Shrinks.setSlot (hel : c.slot i = some el) (hextent : extent el' = extent el) :
    Shrinks c (c.setSlot i (some el')) :=
  Shrinks.of_put hel (slot_setSlot_self (lt_capacity_of_slot hel)) hextent
    fun _ hj => slot_setSlot_ne hj

lemma Coherent.shrink (h : Coherent c) (hs : Shrinks c c') : Coherent c' := by
  intro b i j e e' hi hj hb hb'
  -- both elements cover what the elements of their slots covered
  rcases hs i e hi with hempty | ⟨el, hel, heq⟩
  · simp [hempty] at hb
  · rcases hs j e' hj with hempty | ⟨el', hel', heq'⟩
    · simp [hempty] at hb'
    · exact h b i j el el' hel hel' (heq ▸ hb) (heq' ▸ hb')

/-- Evictions and thread passes bring nothing in. -/
lemma kept_shrinks (c : PgCache) : Kept callbacks (Shrinks c) where
  flush {c₁ i el} hel _ h :=
    have hflush : Shrinks c₁ (flushSlot callbacks i el c₁) :=
      Shrinks.of_put hel (slot_flushSlot_self hel) rfl fun j hj => slot_setSlot_ne hj
    h.trans hflush
  drop {c₁ i el} hel _ h := by
    refine h.trans (Shrinks.of_slot (i := i) (fun j hj => slot_dropSlot_ne hj) ?_)
    intro el' hel'
    simp [slot_dropSlot_self hel] at hel'

lemma Room.shrinks (h : Room callbacks c sub c') : Shrinks c c' :=
  Room.kept (kept_shrinks c) h (Shrinks.refl c)

lemma shrinks_markFlags {f : ElFlags → ElFlags} (h : markFlags f i c = some c') :
    Shrinks c c' := by
  unfold markFlags at h
  cases hel : c.slot i with
  | none => simp [hel] at h
  | some el =>
    simp only [hel] at h
    split_ifs at h with hactive hlock
    · rw [Option.some.injEq] at h
      exact h ▸ Shrinks.refl c
    · rw [Option.some.injEq] at h
      exact h ▸ Shrinks.setSlot hel rfl

lemma shrinks_clientWrite {ws : List (ℕ × List Byte)} (h : clientWrite i ws c = some c') :
    Shrinks c c' := by
  unfold clientWrite at h
  cases hel : c.slot i with
  | none => simp [hel] at h
  | some el =>
    cases hmem : el.data.pe_mem_ptr with
    | null => simp [hel, hmem] at h
    | freed => simp [hel, hmem] at h
    | mem l =>
      simp only [hel, hmem] at h
      split_ifs at h
      -- the write changes the page, the mark the flags
      refine Shrinks.trans (Shrinks.setSlot hel ?_) (shrinks_markFlags h)
      rfl

/-! ## What a step does to the extents -/

/-- A new element covers nothing until it is filled. -/
lemma extent_newElement (p : ℕ) (f : ElFlags) :
    extent { newElement p PageData.zero with ce_flags := f } = ∅ := by
  simp [extent, span, newElement, PageData.zero]

/-- An operation brings nothing in, or it puts the extent `gains` names into its slot and leaves
the other slots alone. -/
def Extents (c : PgCache) (op : Op) (c' : PgCache) : Prop :=
  (gains c op = none ∧ Shrinks c c') ∨
    ∃ sub start n, gains c op = some (sub, start, n) ∧
      (∃ el', c'.slot sub = some el' ∧ extent el' = span start n) ∧
      ∀ j ≠ sub, c'.slot j = c.slot j

/-- What an attempt to make room leaves of the extents. -/
lemma Shrinks.of_room (h : c' = c ∨ ∃ sub, Room callbacks c sub c') : Shrinks c c' := by
  rcases h with rfl | ⟨sub, hroom⟩
  · exact Shrinks.refl _
  · exact Room.shrinks hroom

lemma extents_map {env : MapEnv} {addr : ℕ} {n : ℤ} {r : Option ℕ}
    (h : pgcacheElementMap env addr n c = some (c', r)) : Extents c (.map env addr n) c' := by
  cases pgcacheElementMap_effect h with
  | hit hkey hel hn =>
    exact .inl ⟨by simp [gains, hkey, hel, not_lt.mpr hn], Shrinks.setSlot hel rfl⟩
  | grown hkey hel hn hlock hok hself hother hworld =>
    exact .inr ⟨_, _, n, by simp [gains, hkey, hel, hn, hok], ⟨_, hself, rfl⟩, hother⟩
  | growFailed m hkey hel hfail hself hother =>
    exact .inl ⟨by simp [gains, hkey, hel, hfail], Shrinks.of_put hel hself rfl hother⟩
  -- no more than an eviction has taken place
  | noElement hkey hno hroom =>
    refine .inl ⟨?_, Shrinks.of_room hroom⟩
    rcases hno with hno | hno <;> simp [gains, hkey, hno]
  | filled hkey hsub hroom hok hself hother hworld =>
    rcases hroom.slot with ⟨-, -, hsame⟩
    rcases hok with ⟨hel, hpage⟩
    refine .inr ⟨_, addr, n, by simp [gains, hkey, hsub, hel, hpage], ⟨_, hself, rfl⟩, ?_⟩
    exact fun j hj => (hother j hj).trans (hsame j hj)
  -- the new element was not filled
  | fillFailed f hkey hroom hfail hself hother =>
    refine .inl ⟨by simp [gains, hkey, hfail], (Room.shrinks hroom).trans
      (Shrinks.of_slot hother ?_)⟩
    intro el' hel'
    exact .inl (slot_inj hself hel' ▸ extent_newElement _ _)

lemma extents_mapZero {env : MapEnv} {addr : ℕ} {n : ℤ} {r : Option ℕ}
    (h : pgcacheElementMapZero env addr n c = some (c', r)) :
    Extents c (.mapZero env addr n) c' := by
  cases pgcacheElementMapZero_effect h with
  | hit hkey hel =>
    exact .inl ⟨by simp [gains, hkey], Shrinks.setSlot hel rfl⟩
  | noElement hkey hno hroom =>
    refine .inl ⟨?_, Shrinks.of_room hroom⟩
    rcases hno with hno | hno <;> simp [gains, hkey, hno]
  | filled hkey hsub hroom hok hself hother =>
    rcases hroom.slot with ⟨-, -, hsame⟩
    refine .inr ⟨_, addr, n, by simp [gains, hkey, hsub, hok], ⟨_, hself, rfl⟩, ?_⟩
    exact fun j hj => (hother j hj).trans (hsame j hj)
  | fillFailed hkey hroom hfail hself hother =>
    refine .inl ⟨by simp [gains, hkey, hfail], (Room.shrinks hroom).trans
      (Shrinks.of_slot hother ?_)⟩
    intro el' hel'
    exact .inl (slot_inj hself hel' ▸ extent_newElement _ .mapped)

theorem step_extents (h : step c op = some c') : Extents c op c' := by
  cases op with
  | map env addr n =>
    rcases Option.map_eq_some_iff.mp h with ⟨⟨c'', r⟩, hmap, rfl⟩
    exact extents_map hmap
  | mapZero env addr n =>
    rcases Option.map_eq_some_iff.mp h with ⟨⟨c'', r⟩, hmap, rfl⟩
    exact extents_mapZero hmap
  | write i ws => exact .inl ⟨rfl, shrinks_clientWrite h⟩
  | markDirty i =>
    have hmark : cacheElementMarkDirty i c = some c' := h
    exact .inl ⟨rfl, shrinks_markFlags hmark⟩
  | markEviction i =>
    have hmark : cacheElementMarkEviction i c = some c' := h
    exact .inl ⟨rfl, shrinks_markFlags hmark⟩
  | pin i =>
    have hmark : cacheElementPin i c = some c' := h
    exact .inl ⟨rfl, shrinks_markFlags hmark⟩
  | unpin i =>
    have hmark : cacheElementMarkUnpin i c = some c' := h
    exact .inl ⟨rfl, shrinks_markFlags hmark⟩
  | evict key => exact .inl ⟨rfl, (kept_shrinks c).evict (Shrinks.refl c) h⟩
  | pass =>
    have hpass := Option.some.inj h
    exact .inl ⟨rfl, hpass ▸ (kept_shrinks c).threadPass (Shrinks.refl c)⟩

/-! ## Coherence -/

/-- A step keeps the cache coherent exactly when the extent it brings in is disjoint from those
of the other elements. -/
theorem coherent_step_iff (hc : Coherent c) (h : step c op = some c') :
    Coherent c' ↔ StepOk c op := by
  rcases step_extents h with ⟨hnone, hshrink⟩ | ⟨sub, start, n, hgain, ⟨el', hself, hspan⟩, hother⟩
  · constructor
    · intro _ sub start n hgain
      simp [hnone] at hgain
    · exact fun _ => hc.shrink hshrink
  · constructor
    · rintro hc' sub' start' n' hgain' j hj el hel
      rw [hgain, Option.some.injEq, Prod.mk.injEq, Prod.mk.injEq] at hgain'
      rcases hgain' with ⟨rfl, rfl, rfl⟩
      refine Set.disjoint_left.mpr fun b hb hb' => hj ?_
      -- the other element was there before the step
      exact hc' b j sub el el' ((hother j hj).trans hel) hself hb' (hspan ▸ hb)
    · intro hok b i j e e' hi hj hb hb'
      have hdisj := hok sub start n hgain
      -- two elements that were there before are coherent; the new one is disjoint from the rest
      by_cases hi' : i = sub <;> by_cases hj' : j = sub
      · exact hi'.trans hj'.symm
      · obtain rfl : el' = e := slot_inj hself (hi' ▸ hi)
        rw [hspan] at hb
        exact absurd hb' (Set.disjoint_left.mp (hdisj j hj' e' (hother j hj' ▸ hj)) hb)
      · obtain rfl : el' = e' := slot_inj hself (hj' ▸ hj)
        rw [hspan] at hb'
        exact absurd hb (Set.disjoint_left.mp (hdisj i hi' e (hother i hi' ▸ hi)) hb')
      · exact hc b i j e e' (hother i hi' ▸ hi) (hother j hj' ▸ hj) hb hb'

end Steps

/-- A run from an empty cache stays coherent exactly when each of its steps brings in an extent
that no other element covers. -/
theorem throughout_coherent_iff (capacity : ℕ) (d : Disk) (t : List Op) :
    Throughout step Coherent (pgcacheAlloc capacity d) t ↔
      Along step StepOk (pgcacheAlloc capacity d) t := by
  have hempty : Coherent (pgcacheAlloc capacity d) := by
    intro b i j el el' hi
    simp [pgcacheAlloc, slot_cacheInit] at hi
  exact throughout_iff_along (I := fun _ => True) (fun _ _ _ _ _ => trivial)
    (fun _ _ _ hs _ hP => coherent_step_iff hP hs) trivial hempty

/-- Two calls with different start addresses map block 1 twice. -/
theorem map_twice_overlaps : ∃ c, run step (pgcacheAlloc 2 fun _ => [])
    [.map (.ok 4096) 0 2, .map (.ok 8192) 1 1] = some c ∧ ¬ Coherent c := by
  refine ⟨_, rfl, ?_⟩
  intro hc
  have h := hc 1 0 1 _ _ rfl rfl ⟨by decide, by decide⟩ ⟨by decide, by decide⟩
  simp at h

end KanekFs.Page
