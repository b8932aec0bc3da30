import KanekFs.Page.Mapping

/-!
# Failing map calls

What a call of `pgcache_element_map` or `pgcache_element_map_zero` that returns `NULL` leaves
behind, with `pc_mutex` around the call.

* `Sound` elements are usable and unlocked. `sound_step` and `sound_run`: steps that meet `Grows`
  keep all elements sound, also where a page cannot be had for a new element.
* `harmless_iff_of_sound`: from there, a call that returns `NULL` does no harm if and only if it
  meets `Grows`. Both exits of the growth path leave the element locked, and
  `pgcache_element_map_zero` leaves its new element in the table without a page.
* `failures_harmless`: the same for every state of a run.
-/

namespace KanekFs.Page

open Bytes Cache Run

/-! ## Definitions -/

/-- `pgcache_t`; `pc_locked` is the state of `pc_mutex`. -/
structure Guarded where
  pc_cache : PgCache
  pc_locked : Bool

/-- A function that locks `pc_mutex` first, and unlocks it behind its only exit. -/
def guarded (body : PgCache → Option (PgCache × Option ℕ)) (s : Guarded) :
    Option (Guarded × Option ℕ) :=
  -- locked by another call that never returned
  if s.pc_locked then none
  else
    let s := { s with pc_locked := true }
    (body s.pc_cache).map fun r => ({ pc_cache := r.1, pc_locked := false }, r.2)

/-- A call that maps an extent. -/
inductive MapCall
  | map (env : MapEnv) (addr : ℕ) (numblocks : ℤ)
  | mapZero (env : MapEnv) (addr : ℕ) (numblocks : ℤ)

def MapCall.op : MapCall → Op
  | .map env addr numblocks => .map env addr numblocks
  | .mapZero env addr numblocks => .mapZero env addr numblocks

def MapCall.exec : MapCall → Guarded → Option (Guarded × Option ℕ)
  | .map env addr numblocks => guarded (pgcacheElementMap env addr numblocks)
  | .mapZero env addr numblocks => guarded (pgcacheElementMapZero env addr numblocks)

/-- The element has memory for its blocks, or it has none and is marked for eviction. -/
def Usable (el : PgElement) : Prop :=
  (∃ l, el.data.pe_mem_ptr = .mem l ∧
    el.data.pe_num_blocks * kfsBlocksize ≤ (PageMem.mem l).bytes) ∨
  (el.data.pe_mem_ptr = .null ∧ el.ce_flags.evict = true)

/-- What a failing call may leave behind. -/
structure Harmless (s : Guarded) : Prop where
  pc_mutex : s.pc_locked = false
  ce_mutex : Each (fun el => el.ce_locked = false) s.pc_cache
  usable : Each Usable s.pc_cache

/-- The growth of an element does not fail, a new element for zeroes gets its page, and the size of
a page that is brought in fits. -/
def Grows (c : PgCache) : Op → Prop
  | .map env addr n =>
    (findKey addr c = none → (mapSlot c).isSome → env.Succeeds → 0 < n → FitsInt n) ∧
    ∀ i el, findKey addr c = some i → c.slot i = some el → el.data.pe_num_blocks < n →
      (env.page_alloc = true ∧ env.read = true) ∧ (0 < n → FitsInt n)
  | .mapZero env addr n =>
    findKey addr c = none → (mapSlot c).isSome → env.el.Ok →
      env.page_alloc = true ∧ (0 < n → FitsInt n)
  | _ => True

/-! ## Sound elements -/

/-- Usable, and not left locked. -/
structure Sound (el : PgElement) : Prop where
  usable : Usable el
  unlocked : el.ce_locked = false

lemma durable_sound : Durable Sound where
  count _ _ h := ⟨h.usable, h.unlocked⟩
  flags el f hevict h := by
    refine ⟨?_, h.unlocked⟩
    rcases h.usable with hmem | ⟨hnull, hmark⟩
    · exact .inl hmem
    · exact .inr ⟨hnull, hevict hmark⟩
  write el l ws hmem h := by
    refine ⟨.inl ⟨writePage l ws, rfl, ?_⟩, h.unlocked⟩
    rcases h.usable with ⟨l', hmem', hbytes⟩ | ⟨hnull, -⟩
    · obtain rfl : l = l' := PageMem.mem.inj (hmem.symm.trans hmem')
      simpa [PageMem.bytes] using hbytes
    · cases hmem.symm.trans hnull

section Steps

variable {env : MapEnv} {addr i : ℕ} {n : ℤ} {c c' : PgCache} {op : Op} {r : Option ℕ}

/-- A call for a new page that returns `NULL` has found no element for it, or has marked the
element it found for eviction. -/
lemma map_null_of_absent (hkey : findKey addr c = none)
    (h : pgcacheElementMap env addr n c = some (c', none)) :
    (c' = c ∨ ∃ sub, Room callbacks c sub c') ∨
      ∃ sub c₁ p, Room callbacks c sub c₁ ∧ (∀ j ≠ sub, c'.slot j = c₁.slot j) ∧
        c'.slot sub = some { newElement p PageData.zero with
          ce_flags := { ElFlags.mapped with evict := true } } := by
  simp only [pgcacheElementMap, hkey] at h
  rcases hmap : cacheElementMap callbacks env.el PageData.zero c with _ | ⟨c₂, _ | sub⟩
  · simp [hmap] at h
  · simp only [hmap, Option.some.injEq, Prod.mk.injEq, and_true] at h
    exact .inl (h ▸ (cacheElementMap_none hmap).2)
  · rcases cacheElementMap_new hmap with ⟨-, c₁, p, -, hroom, hlt, hslot, hother, -⟩
    simp only [hmap] at h
    by_cases hfail : env.page_alloc = false ∨ env.read = false
    · simp only [fillPage_failed hslot hfail, Option.some.injEq, Prod.mk.injEq, and_true] at h
      subst h
      refine .inr ⟨sub, c₁, p, hroom, ?_, slot_setSlot_self hlt⟩
      intro j hj
      rw [slot_setSlot_ne hj, hother j hj]
    · simp [fillPage, hslot, hfail] at h

theorem sound_map (h : Each Sound c) (hc : Grows c (.map env addr n))
    (hmap : pgcacheElementMap env addr n c = some (c', r)) : Each Sound c' := by
  cases pgcacheElementMap_effect hmap with
  | hit hkey hel hn =>
    exact h.setSlot (lt_capacity_of_slot hel) (durable_sound.count _ _ (h _ _ hel))
  | grown hkey hel hn hlock hok hself hother hworld =>
    refine h.put ?_ hother
    intro e he
    obtain rfl := slot_inj hself he
    refine ⟨.inl ⟨_, rfl, ?_⟩, hlock⟩
    exact le_bytes_of_length (length_extentRead ..) (hc.2 _ _ hkey hel hn).2
  | growFailed m hkey hel hfail hself hother =>
    exact absurd (hc.2 _ _ hkey hel (lt_of_map_none hkey hel hmap)).1 hfail
  | noElement hkey hno hroom => exact durable_sound.room h hroom
  | filled hkey hsub hroom hok hself hother hworld =>
    refine (durable_sound.room h (.inr ⟨_, hroom⟩)).put ?_ hother
    intro e he
    obtain rfl := slot_inj hself he
    refine ⟨.inl ⟨_, rfl, ?_⟩, rfl⟩
    exact le_bytes_of_length (length_extentRead ..) (hc.1 hkey (by simp [hsub]) hok)
  | fillFailed f hkey hroom hfail hself hother =>
    rcases map_null_of_absent hkey hmap with hroom | ⟨sub, c₁, p, hroom, hother, hself⟩
    · exact durable_sound.room h hroom
    · refine (durable_sound.room h (.inr ⟨_, hroom⟩)).put ?_ hother
      intro e he
      obtain rfl := slot_inj hself he
      exact ⟨.inr ⟨rfl, rfl⟩, rfl⟩

theorem sound_mapZero (h : Each Sound c) (hc : Grows c (.mapZero env addr n))
    (hmap : pgcacheElementMapZero env addr n c = some (c', r)) : Each Sound c' := by
  cases pgcacheElementMapZero_effect hmap with
  | hit hkey hel =>
    exact h.setSlot (lt_capacity_of_slot hel) (durable_sound.count _ _ (h _ _ hel))
  | noElement hkey hno hroom => exact durable_sound.room h hroom
  | filled hkey hsub hroom hok hself hother =>
    refine (durable_sound.room h (.inr ⟨_, hroom⟩)).put ?_ hother
    intro e he
    obtain rfl := slot_inj hself he
    refine ⟨.inl ⟨_, rfl, ?_⟩, rfl⟩
    exact le_bytes_of_length List.length_replicate (hc hkey (by simp [hsub]) hok.1).2
  | fillFailed hkey hroom hfail hself hother =>
    by_cases hnew : (mapSlot c).isSome ∧ env.el.Ok
    · have halloc := (hc hkey hnew.1 hnew.2).1
      simp [hfail] at halloc
    · exact durable_sound.room h (room_of_mapZero hkey hnew hmap)

/-- **One step.** -/
theorem sound_step (h : Each Sound c) (hc : Grows c op) (hstep : step c op = some c') :
    Each Sound c' := by
  refine durable_sound.step h ?_ ?_ hstep
  · rintro env addr n r rfl hmap
    exact sound_map h hc hmap
  · rintro env addr n r rfl hmap
    exact sound_mapZero h hc hmap

/-- **Every run.** -/
theorem sound_run {cap : ℕ} {d : Disk} {t : List Op}
    (hC : Along step Grows (pgcacheAlloc cap d) t) :
    Throughout step (Each Sound) (pgcacheAlloc cap d) t :=
  run_invariant (fun _ _ _ hs hc h => sound_step h hc hs) (each_cacheInit cap d) hC

/-! ## Calls that return `NULL` -/

/-- A growth that fails leaves the element locked. -/
lemma grows_of_unlocked_map (hmap : pgcacheElementMap env addr n c = some (c', none))
    (hunlocked : Each (fun el => el.ce_locked = false) c') : Grows c (.map env addr n) := by
  cases pgcacheElementMap_effect hmap with
  | growFailed m hkey hel hfail hself hother =>
    cases hunlocked _ _ hself
  | noElement hkey hno hroom =>
    constructor
    · intro _ hsub hok
      rcases hno with hnone | hel
      · simp [hnone] at hsub
      · exact absurd hok.1 hel
    · intro i el hkey'
      simp [hkey] at hkey'
  | fillFailed f hkey hroom hfail hself hother =>
    constructor
    · intro _ _ hok
      exact absurd hok.2 hfail
    · intro i el hkey'
      simp [hkey] at hkey'

/-- A new element for zeroes that gets no page is not usable. -/
lemma grows_of_usable_mapZero (hmap : pgcacheElementMapZero env addr n c = some (c', none))
    (husable : Each Usable c') : Grows c (.mapZero env addr n) := by
  intro hkey hsub hok
  cases pgcacheElementMapZero_effect hmap with
  | hit hkey' => simp [hkey] at hkey'
  | noElement _ hno _ =>
    rcases hno with hnone | hel
    · simp [hnone] at hsub
    · exact absurd hok hel
  | fillFailed _ _ _ hself _ =>
    rcases husable _ _ hself with ⟨l, hmem, -⟩ | ⟨-, hmark⟩
    · cases hmem
    · cases hmark

lemma harmless_of_sound (h : Each Sound c) : Harmless ⟨c, false⟩ where
  pc_mutex := rfl
  ce_mutex i el hel := (h i el hel).unlocked
  usable i el hel := (h i el hel).usable

/-- The exact condition, for a call in a sound cache. -/
theorem harmless_iff_of_sound {call : MapCall} {s' : Guarded} (h : Each Sound c)
    (hcall : call.exec ⟨c, false⟩ = some (s', none)) : Harmless s' ↔ Grows c call.op := by
  cases call with
  | map env addr n =>
    rcases Option.map_eq_some_iff.mp hcall with ⟨⟨c', r⟩, hmap, heq⟩
    simp only [Prod.mk.injEq] at heq
    rcases heq with ⟨rfl, rfl⟩
    constructor
    · intro hharmless
      exact grows_of_unlocked_map hmap hharmless.ce_mutex
    · intro hc
      exact harmless_of_sound (sound_map h hc hmap)
  | mapZero env addr n =>
    rcases Option.map_eq_some_iff.mp hcall with ⟨⟨c', r⟩, hmap, heq⟩
    simp only [Prod.mk.injEq] at heq
    rcases heq with ⟨rfl, rfl⟩
    constructor
    · intro hharmless
      exact grows_of_usable_mapZero hmap hharmless.usable
    · intro hc
      exact harmless_of_sound (sound_mapZero h hc hmap)

end Steps

/-- A call that maps an extent and returns `NULL` does no harm, exactly where it meets `Grows`. -/
def FailuresHarmless (c : PgCache) : Prop :=
  ∀ (call : MapCall) s', call.exec ⟨c, false⟩ = some (s', none) → (Harmless s' ↔ Grows c call.op)

/-- **Failing map calls leave the page cache usable**, in every state of a run whose steps grow what
they have to, and exactly where they do so themselves. -/
theorem failures_harmless {cap : ℕ} {d : Disk} {t : List Op}
    (hC : Along step Grows (pgcacheAlloc cap d) t) :
    Throughout step FailuresHarmless (pgcacheAlloc cap d) t := by
  refine (sound_run hC).mono ?_
  intro c h call s' hcall
  exact harmless_iff_of_sound h hcall

/-- A page is read, another one is made, and for a third one there is no memory. -/
theorem failures_harmless_three : Throughout step FailuresHarmless (pgcacheAlloc 2 fun _ => [])
    [.map (.ok 4096) 0 2, .pass, .mapZero (.ok 8192) 5 1,
      .map ⟨⟨none, true⟩, true, true⟩ 9 1] := by
  refine failures_harmless (along_of_forall fun op hop c => ?_)
  have hfits : FitsInt 2 ∧ FitsInt 1 := by
    unfold FitsInt kfsBlocksize
    omega
  simp only [List.mem_cons, List.not_mem_nil, or_false] at hop
  rcases hop with rfl | rfl | rfl | rfl
  · exact ⟨fun _ _ _ _ => hfits.1, fun _ _ _ _ _ => ⟨⟨rfl, rfl⟩, fun _ => hfits.1⟩⟩
  · trivial
  · exact fun _ _ _ => ⟨rfl, fun _ => hfits.2⟩
  · exact ⟨fun _ _ _ _ => hfits.2, fun _ _ _ _ _ => ⟨⟨rfl, rfl⟩, fun _ => hfits.2⟩⟩

/-- A page of one block is to grow to two, and `realloc` fails: its element stays locked, and has
no memory. -/
theorem failed_growth_stays_locked :
    ∃ c s', run step (pgcacheAlloc 2 fun _ => []) [.map (.ok 4096) 5 1] = some c ∧
      (MapCall.map ⟨⟨none, true⟩, false, true⟩ 5 2).exec ⟨c, false⟩ = some (s', none) ∧
      (s'.pc_cache.slot 0).map (fun el => (el.ce_locked, el.data.pe_mem_ptr)) =
        some (true, .null) ∧ ¬Harmless s' := by
  refine ⟨_, _, rfl, rfl, rfl, ?_⟩
  intro h
  cases h.ce_mutex 0 _ rfl

end KanekFs.Page
