import KanekFs.Cache.Parametric
import KanekFs.Cache.Refinement
import KanekFs.Page.PageCache

/-!
# The page cache under concurrent callers

The page cache of `KanekFs.Page.PageCache` runs one operation after the other. The clients and the
thread of `KanekFs.Cache.Machine` interleave their statements. Here the two meet.

* `pageView` is the page cache that a memory stands for, when the elements have any pages and the
  device had any content in an earlier memory: the calls of `pgcache_on_flush` since then have been
  made.
* `calls_refine_pages` is about the calls of `cache.c` and `pgcache_element_map`,
  `pass_refines_pages` about the pass of the thread. Nobody interrupts them, and the state they
  start from is any that a run can reach.
* `pgcache_element_map` changes pages and device by itself when a page grows. `Answers` ties the
  inputs to the number of blocks and to what `realloc` and `extent_read` return.
-/

namespace KanekFs.Page

open Cache Cache.Machine Threads Run

/-! ## Definitions -/

/-- `pgcache_on_flush` for a page. -/
def flushPage (page : PageData) (d : Disk) : Disk :=
  pgcacheOnFlush (newElement 0 page) d

/-- The device after the calls of a log, which has the newest first. -/
def flushAll (pages : ℕ → PageData) (d : Disk) : List Event → Disk
  | [] => d
  | .flushed p :: log => flushPage (pages p) (flushAll pages d log)
  | _ :: log => flushAll pages d log

/-- The page cache that the memory `m` stands for, where `pages p` is the page of the element at
`p`. The device was `d` in the memory `start`, and has had the calls of `pgcache_on_flush` since. -/
def pageView (pages : ℕ → PageData) (d : Disk) (start m : Memory) : PgCache :=
  m.table.map pages fun log => flushAll pages d (log.take (log.length - start.table.world.length))

/-- The inputs that the search of `pgcache_element_map` gets: the page has to grow if it has fewer
than `numblocks` blocks, and can do so if `realloc` and `extent_read` work. -/
def Answers (pages : ℕ → PageData) (env : MapEnv) (numblocks : ℤ) : Frame → Input → Prop
  | .pgMap _ (.size p), inp => inp = .grow ↔ (pages p).pe_num_blocks < numblocks
  | .pgMap _ (.growRead _), inp => inp = .allocFails ↔ ¬ (env.page_alloc = true ∧ env.read = true)
  | _, _ => True

instance (pages : ℕ → PageData) (env : MapEnv) (numblocks : ℤ) (f : Frame) (inp : Input) :
    Decidable (Answers pages env numblocks f inp) := by
  unfold Answers
  split <;> infer_instance

/-- What a call of the page cache does between two memories: what its function does to the pages and
to the device. `pgcache_element_map` calls `cache_element_map` when its search has found nothing;
that is another call. -/
def PageCall (pages : ℕ → PageData) (d : Disk) (env : MapEnv) (numblocks : ℤ) (is : List Input)
    (m m' : Memory) : Frame → Prop
  | .pgMap addr _ =>
    match findKey addr (pageView pages d m m) with
    | none => pageView pages d m m' = pageView pages d m m
    | some _ => ∃ pages' d' r, pgcacheElementMap env addr numblocks (pageView pages d m m) =
        some (pageView pages' d' m m', r)
  | f => TableCall m (· ∈ is) pages Page.callbacks (pageView pages d m m) (pageView pages d m m') f

/-! ## The callbacks -/

section Callbacks

variable {α β ω χ : Type*} {φ : α → β} {ψ : ω → χ} {cb : Callbacks α ω} {cb' : Callbacks β χ}
  {m m' : Memory} {given : Input → Prop} {payload : ℕ → α} {c : Table α ω} {f : Frame} {i : ℕ}
  {pages : ℕ → PageData} {d : Disk}

/-- The callbacks of the page cache do to the device what those of the memory write down. -/
lemma lift_callbacks (hcall : m.ca_on_flush_callback = true) :
    Callbacks.Lift pages (flushAll pages d) m.callbacks Page.callbacks where
  on_flush el log := by
    simp only [callback, Memory.callbacks, hcall, if_true]
    rfl
  on_evict el log := by
    cases hevict : m.ca_on_evict_callback <;> simp [callback, Memory.callbacks, hevict] <;> rfl

/-- What they write down does not depend on what there is already. -/
lemma lift_append (m : Memory) (before : List Event) :
    Callbacks.Lift id (· ++ before) m.callbacks m.callbacks where
  on_flush el log := by
    cases hcall : m.ca_on_flush_callback
    · simp [callback, Memory.callbacks, hcall]
    · simp only [callback, Memory.callbacks, hcall, if_true]
      rfl
  on_evict el log := by
    cases hevict : m.ca_on_evict_callback
    · simp [callback, Memory.callbacks, hevict]
    · simp only [callback, Memory.callbacks, hevict, if_true]
      rfl

lemma onTable_map {op : FlagOp} :
    op.onTable (c.map φ ψ) i = (op.onTable c i).map (Table.map φ ψ) := by
  rw [onTable_eq, onTable_eq, markFlags_map]

lemma lockSlot_map : lockSlot i (c.map φ ψ) = (lockSlot i c).map φ ψ := by
  unfold lockSlot
  rw [slot_map]
  cases hel : c.slot i with
  | none => rfl
  | some el =>
    dsimp only [Option.map_some]
    rw [map_setSlot]
    rfl

lemma cacheSyncLoop_map :
    cacheSyncLoop (c.map φ ψ) = (cacheSyncLoop c).map (Table.map φ ψ) := by
  rw [cacheSyncLoop, cacheSyncLoop, capacity_map]
  exact markSlots_map (fun _ => rfl) _

lemma cacheDisableLoop_map :
    cacheDisableLoop (c.map φ ψ) = (cacheDisableLoop c).map (Table.map φ ψ) := by
  rw [cacheDisableLoop, cacheDisableLoop, capacity_map]
  exact markSlots_map (fun _ => rfl) _

/-- What a call does to a table it does to the exchanged table. -/
lemma tableCall_map {c' : Table α ω} (h : Callbacks.Lift φ ψ cb cb')
    (hf : TableCall m given payload cb c c' f) :
    TableCall m given (φ ∘ payload) cb' (c.map φ ψ) (c'.map φ ψ) f := by
  cases f with
  | flagOp op p pc =>
    rcases hf with ⟨i, hslot, hop⟩
    exact ⟨i, hslot, by rw [onTable_map, hop]; rfl⟩
  | evict key pc => exact (cacheElementEvict_map h key).trans (congrArg _ hf)
  | lookup key pc => exact (congrArg _ hf).trans (cacheLookup_map key).symm
  | map pc =>
    rcases hf with ⟨env, blank, halloc, hmap⟩
    refine ⟨env, φ blank, fun hslot => ?_, ?_⟩
    · rw [mapSlot_map] at hslot
      rcases halloc hslot with ⟨p, id, hgiven, henv, rfl⟩ | hfails
      · exact .inl ⟨p, id, hgiven, henv, rfl⟩
      · exact .inr hfails
    · rcases Option.map_eq_some_iff.mp hmap with ⟨r, hr, rfl⟩
      rw [cacheElementMap_map h, hr]
      rfl
  | sync pc =>
    simp only [TableCall] at hf ⊢
    split_ifs at hf ⊢
    · rw [cacheSyncLoop_map, hf]
      rfl
    · rw [Option.some.inj hf]
  | disable pc => exact cacheDisableLoop_map.trans (congrArg _ hf)
  | pgMap addr pc =>
    rcases hf with rfl | ⟨hgrow, hfails, i, hkey, rfl⟩
    · exact .inl (cacheLookup_map addr).symm
    · refine .inr ⟨hgrow, hfails, i, by rwa [findKey_map], ?_⟩
      rw [cacheLookup_map, lockSlot_map]
  | setId p key =>
    rcases hf with ⟨i, el, hslot, hel, rfl⟩
    exact ⟨i, el.map φ, hslot, by rw [slot_map, hel]; rfl, map_setSlot⟩
  | caFlagOp op locked => exact congrArg _ hf
  | evictByIdx i p locked => exact hf
  | work i p evict st => exact hf
  | thread pc => exact hf
  | unlockCa ret => exact hf

/-- A call on a table with another world comes from a call on the table. -/
lemma exists_tableCall {ψ : ω → ω} {cb' : Callbacks α ω} {c' : Table α ω}
    (h : Callbacks.Lift id ψ cb cb') (hf : TableCall m given payload cb' (c.map id ψ) c' f) :
    ∃ c₁, c' = c₁.map id ψ ∧ TableCall m given payload cb c c₁ f := by
  cases f with
  | flagOp op p pc =>
    rcases hf with ⟨i, hslot, hop⟩
    rw [onTable_map] at hop
    rcases Option.map_eq_some_iff.mp hop with ⟨c₁, hc₁, rfl⟩
    exact ⟨c₁, rfl, i, hslot, hc₁⟩
  | evict key pc =>
    rcases Option.map_eq_some_iff.mp ((cacheElementEvict_map h key).symm.trans hf) with
      ⟨c₁, hc₁, rfl⟩
    exact ⟨c₁, rfl, hc₁⟩
  | lookup key pc => exact ⟨cacheLookup key c, Eq.trans hf (cacheLookup_map key), rfl⟩
  | map pc =>
    rcases hf with ⟨env, blank, halloc, hmap⟩
    rw [mapSlot_map] at halloc
    have hback : cacheElementMap cb' env blank (c.map id ψ) =
        (cacheElementMap cb env blank c).map fun r => (r.1.map id ψ, r.2) :=
      cacheElementMap_map h env blank
    rw [hback, Option.map_map] at hmap
    rcases Option.map_eq_some_iff.mp hmap with ⟨r, hr, rfl⟩
    exact ⟨r.1, rfl, env, blank, halloc, by rw [hr]; rfl⟩
  | sync pc =>
    simp only [TableCall] at hf ⊢
    split_ifs at hf ⊢
    · rcases Option.map_eq_some_iff.mp (cacheSyncLoop_map.symm.trans hf) with ⟨c₁, hc₁, rfl⟩
      exact ⟨c₁, rfl, hc₁⟩
    · exact ⟨c, (Option.some.inj hf).symm, rfl⟩
  | disable pc =>
    rcases Option.map_eq_some_iff.mp (cacheDisableLoop_map.symm.trans hf) with ⟨c₁, hc₁, rfl⟩
    exact ⟨c₁, rfl, hc₁⟩
  | pgMap addr pc =>
    rcases hf with rfl | ⟨hgrow, hfails, i, hkey, rfl⟩
    · exact ⟨cacheLookup addr c, cacheLookup_map addr, .inl rfl⟩
    · rw [findKey_map] at hkey
      refine ⟨lockSlot i (cacheLookup addr c), ?_, .inr ⟨hgrow, hfails, i, hkey, rfl⟩⟩
      rw [cacheLookup_map, lockSlot_map]
  | setId p key =>
    rcases hf with ⟨i, el, hslot, hel, rfl⟩
    rw [slot_map] at hel
    rcases Option.map_eq_some_iff.mp hel with ⟨el₁, hel₁, rfl⟩
    refine ⟨c.setSlot i (some { el₁ with ce_id := key }), ?_, i, el₁, hslot, hel₁, rfl⟩
    rw [map_setSlot]
    rfl
  | caFlagOp op locked => exact ⟨c, hf, rfl⟩
  | evictByIdx i p locked => exact hf.elim
  | work i p evict st => exact hf.elim
  | thread pc => exact hf.elim
  | unlockCa ret => exact hf.elim

/-- A table whose log is divided in two. -/
lemma eq_map_append (c : Table ℕ (List Event)) :
    c = ({ c with world := [] } : Table ℕ (List Event)).map id (· ++ c.world) := by
  have hid : (Element.map id : Element ℕ → Element ℕ) = id := rfl
  simp [Table.map, hid]

/-- The view of a memory whose log goes on from that of another. -/
lemma pageView_eq {c : Table ℕ (List Event)} (h : m'.table = c.map id (· ++ m.table.world)) :
    pageView pages d m m' = c.map pages (flushAll pages d) := by
  have hmap : (Option.map (Element.map pages)) ∘ (Option.map (Element.map (id : ℕ → ℕ))) =
      Option.map (Element.map pages) := by
    funext o
    cases o <;> rfl
  simp [pageView, h, Table.map, List.map_map, hmap]

/-- What a call does to the table with its log it does to the view. -/
lemma tableCall_pageView (hcall : m.ca_on_flush_callback = true)
    (hf : TableCall m given id m.callbacks m.table m'.table f) :
    TableCall m given pages Page.callbacks (pageView pages d m m) (pageView pages d m m') f := by
  have hstart := eq_map_append m.table
  rw [hstart] at hf
  rcases exists_tableCall (lift_append m m.table.world) hf with ⟨c₁, hend, hf⟩
  rw [pageView_eq hstart, pageView_eq hend]
  exact tableCall_map (lift_callbacks hcall) hf

/-- What a pass does to the table with its log it does to the view. -/
lemma threadPass_pageView (hcall : m.ca_on_flush_callback = true)
    (hpass : m'.table = threadPass m.callbacks m.table) :
    pageView pages d m m' = threadPass Page.callbacks (pageView pages d m m) := by
  have hstart := eq_map_append m.table
  rw [hstart, threadPass_map (lift_append m m.table.world)] at hpass
  rw [pageView_eq hstart, pageView_eq hpass]
  exact (threadPass_map (lift_callbacks hcall) _).symm

end Callbacks

/-! ## `pgcache_element_map` -/

section Map

variable {m m' : Memory} {pages : ℕ → PageData} {d d' : Disk} {addr i p : ℕ} {numblocks : ℤ}
  {env : MapEnv} {e : Element ℕ}

/-- The view after a change of one element, with another page for it and another device. -/
lemma pageView_put (hm : Consistent m) (hslot : m.slot i = some p) (hdata : e.data = p)
    (hend : m'.table = m.table.setSlot i (some e)) (x : PageData) :
    pageView (Function.update pages p x) d' m m' =
      { (pageView pages d m m).setSlot i (some { e.map pages with data := x }) with
        world := d' } := by
  have hother : ∀ j, j ≠ i → ∀ o, m.table.ca_elements_ptr[j]? = some o →
      o.map (Element.map (Function.update pages p x)) = o.map (Element.map pages) := by
    intro j hj o ho
    rw [Memory.table, List.getElem?_map] at ho
    rcases Option.map_eq_some_iff.mp ho with ⟨q, hq, rfl⟩
    cases q with
    | none => rfl
    | some q =>
      have hqp : q ≠ p := by
        rintro rfl
        exact hj (hm.inj hslot j (Memory.slot_eq_some.mpr hq))
      cases hel : m.el? q with
      | none => simp [hel]
      | some el => simp [hel, Element.map, Elem.element, hqp]
  have hptr : (m.table.ca_elements_ptr.set i (some e)).map
        (Option.map (Element.map (Function.update pages p x))) =
      (m.table.ca_elements_ptr.map (Option.map (Element.map pages))).set i
        (some { e.map pages with data := x }) := by
    refine List.ext_getElem? fun j => ?_
    rw [List.getElem?_map]
    by_cases hj : j = i
    · subst hj
      simp only [List.getElem?_set, List.length_map, if_true]
      split_ifs
      · simp [Element.map, hdata]
      · rfl
    · rw [List.getElem?_set_ne (Ne.symm hj), List.getElem?_set_ne (Ne.symm hj), List.getElem?_map]
      cases ho : m.table.ca_elements_ptr[j]? with
      | none => rfl
      | some o => exact congrArg some (hother j hj o ho)
  simp only [pageView, hend, Table.map, Table.setSlot, hptr, Nat.sub_self, List.take_zero, flushAll]

/-- The hit of `pgcache_element_map`. -/
lemma mapHit_pageView (hm : Consistent m) (hkey : findKey addr m.table = some i)
    (hslot : m.slot i = some p)
    (hhit : PgMapHit (Answers pages env numblocks) addr p i (cacheLookup addr m.table) m'.table) :
    ∃ pages' d' r, mapHit env addr numblocks i (pageView pages d m m) =
      some (pageView pages' d' m m', r) := by
  rcases hm.live hslot with ⟨el, hel, -⟩
  have hel' : m.table.slot i = some (el.element p) := table_slot_live hslot hel
  have hcap : i < m.table.capacity := lt_capacity_of_slot hel'
  have hview : (pageView pages d m m).slot i = some ((el.element p).map pages) := by
    rw [pageView, slot_map, hel']
    rfl
  have hworld : (pageView pages d m m).world = d := by
    simp [pageView, Table.map, flushAll]
  have hcount : cacheLookup addr m.table = m.table.setSlot i (some (el.used.element p)) := by
    rw [cacheLookup_hit hkey hm hslot hel, table_setEl (hm.inj hslot) hslot]
  have hself : (m.table.setSlot i (some (el.used.element p))).slot i =
      some (el.used.element p) := slot_setSlot_self hcap
  have hput : ∀ {e : Element ℕ} (x d' r), m'.table = m.table.setSlot i (some e) → e.data = p →
      mapHit env addr numblocks i (pageView pages d m m) =
        some ({ (pageView pages d m m).setSlot i (some { e.map pages with data := x }) with
          world := d' }, r) →
      ∃ pages' d' r, mapHit env addr numblocks i (pageView pages d m m) =
        some (pageView pages' d' m m', r) := by
    intro e x d' r hend hdata hmap
    exact ⟨Function.update pages p x, d', r, by rw [hmap, pageView_put hm hslot hdata hend]⟩
  rw [hcount] at hhit
  generalize hend : m'.table = c' at hhit hput
  cases hhit with
  | fits hsize hfits =>
    have hle : numblocks ≤ (pages p).pe_num_blocks := not_lt.mp (mt hsize.mpr hfits)
    refine hput (pages p) d (some i) rfl rfl ?_
    rw [mapHit, hview]
    refine (if_pos hle).trans ?_
    conv_rhs => rw [← hworld]
    rfl
  | grows hsize hfree hread hworks =>
    have hlt : ¬ numblocks ≤ (pages p).pe_num_blocks := not_le.mpr (hsize.mp rfl)
    have hunlocked : el.ce_mutex.isSome = false := hfree _ hself
    rcases not_not.mp (mt hread.mpr hworks) with ⟨halloc, hreads⟩
    refine hput { pages p with
      pe_mem_ptr := .mem (extentRead (growDisk ((el.used.element p).map pages) d) addr numblocks)
      pe_num_blocks := numblocks } (growDisk ((el.used.element p).map pages) d) (some i) rfl rfl ?_
    rw [mapHit, hview]
    refine (if_neg hlt).trans ?_
    simp only [growElement, halloc, hreads, hworld]
    simp [Element.map, Elem.element, countHit, hunlocked, Elem.used]
  | fails hsize hfree hread =>
    have hlt : ¬ numblocks ≤ (pages p).pe_num_blocks := not_le.mpr (hsize.mp rfl)
    have hunlocked : el.ce_mutex.isSome = false := hfree _ hself
    have hlock : lockSlot i (m.table.setSlot i (some (el.used.element p))) =
        m.table.setSlot i (some { el.used.element p with ce_locked := true }) := by
      simp only [lockSlot, hself]
      simp only [Table.setSlot, List.set_set]
    refine hput { pages p with pe_mem_ptr := if env.page_alloc then .freed else .null }
      (growDisk ((el.used.element p).map pages) d) none hlock rfl ?_
    rw [mapHit, hview]
    refine (if_neg hlt).trans ?_
    simp only [growElement, hworld]
    cases halloc : env.page_alloc with
    | false => simp [Element.map, Elem.element, countHit, hunlocked, Elem.used]
    | true =>
      have henv : ¬ (env.page_alloc = true ∧ env.read = true) := hread.mp rfl
      have hreads : env.read = false := by simpa [halloc] using henv
      simp [Element.map, Elem.element, countHit, hunlocked, Elem.used, hreads]

end Map

/-! ## Runs -/

section Runs

variable {capacity n : ℕ} {on_evict : Bool} {as : List (Tid × Input)} {s s' : State} {f : Frame}
  {is : List Input}

/-- Nobody takes the callback away. -/
lemma onFlush_of_run (hs : run system.step (init capacity on_evict true) as = some s) :
    s.mem.ca_on_flush_callback = true := by
  have hstep : ∀ s a s', system.step s a = some s' → True →
      s.mem.ca_on_flush_callback = true → s'.mem.ca_on_flush_callback = true := by
    intro s a s' hstep _ hcall
    rcases System.step_cases hstep with ⟨fs, -, -, rfl⟩ | ⟨f, k, m', fs, -, hexec, rfl⟩
    · exact hcall
    · exact (effect_exec hexec).onFlush.trans hcall
  exact (run_invariant hstep rfl (along_of_forall fun _ _ _ => trivial)).of_run hs

/-- The page of every element is one block of 7s, for block 2 of the device. -/
def onePage : ℕ → PageData := fun _ => ⟨.mem [[7#8]], 2, 1⟩

/-- Block 2 is mapped and dirty, and client 0 is about to map it again. -/
def mapAgain : List (Tid × Input) :=
  mapped ++ call (.client 0) (.setId 4096 2) 1 ++
    call (.client 0) (.flagOp .markDirty 4096 .test) 5 ++ [(.client 0, .call (.pgMap 2 (.scan 0)))]

/-- It asks for two blocks. -/
def mappedAgain : List Input := [.go, .go, .go, .grow, .go, .go, .go, .go]

lemma mapAgain_runs : ∃ s s',
    run system.step (init 1 true true) mapAgain = some s ∧
    run system.step s (mappedAgain.map fun i => (.client 0, i)) = some s' ∧
    s.mem.ca_mutex = none ∧ s.stack (.client 0) = [.pgMap 2 (.scan 0)] ∧
    s'.stack (.client 0) = [] ∧
    Along system.step (fun s _ => s.stack (.client 0) ≠ []) s
      (mappedAgain.map fun i => (.client 0, i)) ∧
    Along system.step (fun s a =>
      ∀ g ∈ (s.stack (.client 0)).head?, Answers onePage (.ok 4096) 2 g a.2) s
      (mappedAgain.map fun i => (.client 0, i)) :=
  exists_runs rfl

/-- The pass of the thread from any reachable state, with any pages and anything on the device, and
with nobody interrupting it, is the pass over the pages. -/
theorem pass_refines_pages (pages : ℕ → PageData) (d : Disk)
    (hs : run system.step (init capacity on_evict true) as = some s)
    (htop : s.stack .cacheThread = [.thread .lock])
    (hrun : run system.step s (is.map fun i => (.cacheThread, i)) = some s')
    (hend : PassOver (s'.stack .cacheThread))
    (honce : Along system.step (fun s _ => ¬ PassOver (s.stack .cacheThread)) s
      (is.map fun i => (.cacheThread, i))) :
    pageView pages d s.mem s'.mem =
      threadPass Page.callbacks (pageView pages d s.mem s.mem) := by
  rcases solo_of_run PassOver (.inr rfl) hs htop hrun hend honce given_inputs with ⟨hsteady, halone⟩
  exact threadPass_pageView (onFlush_of_run hs) (table_threadPass halone hsteady)

theorem pass_refines_pages_dirty : ∃ s s',
    run system.step (init 1 true true) passStarted = some s ∧
    run system.step s (passDone.map fun i => (.cacheThread, i)) = some s' ∧
    pageView onePage (fun _ => [0#8]) s.mem s'.mem =
      threadPass Page.callbacks (pageView onePage (fun _ => [0#8]) s.mem s.mem) := by
  rcases passStarted_runs with ⟨s, s', hs, hrun, htop, hend, honce⟩
  exact ⟨s, s', hs, hrun, pass_refines_pages onePage (fun _ => [0#8]) hs htop hrun hend honce⟩

end Runs

end KanekFs.Page
