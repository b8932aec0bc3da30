import KanekFs.Cache.Answer

/-!
# `cache_sync` as a barrier and the shutdown

Both calls hand their elements to a pass of the thread and trust its answer. The answer does not
say whether the pass skipped an element whose mutex was taken, nor which request it is for, so
neither call keeps its promise in every run. They do in the runs that meet `Attends`.

* `disable_sees` and `sync_sees`: the calls see what they are for, all elements of the table, and
  those that are not pinned.
* `sync_barrier`: when `cache_sync` returns 0, what it marked has been flushed and evicted.
* `disable_loses_nothing`: when `cache_disable` returns, so has everything that was in the table,
  once each, and the thread is gone.
-/

namespace KanekFs.Cache.Machine

open Threads Run

abbrev ObservedState := Threads.State Tid (Memory × Hist) Frame

variable {capacity : ℕ} {on_evict on_flush : Bool} {as : List (Tid × Input)} {s : ObservedState}
  {r : Request}

/-! ## What a call sees -/

section Sees

variable {m m' : Memory} {h h' : Hist} {t t' : Tid} {p i : ℕ} {el el' : Elem} {f : Frame}
  {fs k k' : List Frame} {inp : Input}

/-- `cache_disable` sees every element of the table. -/
theorem disable_sees (hslot : m.slot i = some p) (hel : m.heap p = .live el) :
    ⟨p, el.ce_flags.dirty, m.log⟩ ∈ observe m t (.disable .lock) inp h t := by
  have hsee : m.see p = some ⟨p, el.ce_flags.dirty, m.log⟩ := by
    simp [Memory.see, Memory.el?_eq_some.mpr hel]
  simp only [observe, Function.update_self]
  exact List.mem_filterMap.mpr ⟨p, Memory.mem_entries.mpr ⟨i, hslot⟩, hsee⟩

/-- Every element in a slot below `i` is pinned, or `t` has seen it. -/
def SeenBelow (s : Memory × Hist) (t : Tid) (i : ℕ) : Prop :=
  ∀ j < i, ∀ p el, s.1.slot j = some p → s.1.heap p = .live el → el.ce_flags.pin = false →
    ∃ o ∈ s.2 t, o.p = p

/-- How far the scan of `cache_sync` has come. -/
def scanned (m : Memory) : List Frame → Option ℕ
  | .sync (.scan i) :: _ | .flagOp _ _ _ :: .sync (.scan i) :: _ => some i
  | .sync .setLoop :: _ => some m.ca_elements_ptr.length
  | _ => none

/-- No element is unpinned while somebody has `ca_mutex`. -/
def KeepsPins (m : Memory) (f : Frame) : Prop :=
  m.ca_mutex = none ∨ ∀ p, f ≠ .flagOp .markUnpin p .assign

lemma syncs_of_scanned (h : scanned m k = some i) : ∃ g ∈ k, g.syncs = true := by
  unfold scanned at h
  split at h
  · exact ⟨_, List.mem_cons_self .., rfl⟩
  · exact ⟨_, List.mem_cons_of_mem _ (List.mem_cons_self ..), rfl⟩
  · exact ⟨_, List.mem_cons_self .., rfl⟩
  · cases h

/-- A scan is made under `ca_mutex`. -/
lemma Own.of_scanned (hown : Own m t k) (h : scanned m' k = some i) :
    m.ca_mutex = some t ∧ Consistent m := by
  unfold scanned at h
  split at h
  · exact ⟨hown.holds rfl, hown.2.1 rfl⟩
  · rcases hown.2.2 with hnil | ⟨-, hm, -⟩
    · cases hnil
    · exact ⟨hown.1.mp (by simp [Frame.inCa]), hm⟩
  · exact ⟨hown.holds rfl, hown.2.1 rfl⟩
  · cases h

/-- An element of the table that is not pinned was not pinned before. -/
lemma unpinned_before (hexec : exec m t f inp = some (m', fs)) (hclears : f.clears = false)
    (hc : ∀ p, f ≠ .flagOp .markUnpin p .assign) (hm : Consistent m) (hslot : m.slot i = some p)
    (hel' : m'.heap p = .live el') (hpin : el'.ce_flags.pin = false) :
    ∃ el, m.heap p = .live el ∧ el.ce_flags.pin = false := by
  rcases hm.live hslot with ⟨el, hel, -⟩
  have hcell := (effect_exec hexec).cells p
  rw [hel, hel'] at hcell
  cases hcell with
  | assigned hfl =>
    refine ⟨el, hel, ?_⟩
    rw [hfl] at hpin
    have hassigned := assigned f p el.ce_flags
    generalize f.assigns p el.ce_flags = fl at hassigned hpin
    cases hassigned with
    | flagOp op =>
      cases op with
      | pin => simp [FlagOp.assign] at hpin
      | markUnpin => exact absurd rfl (hc p)
      | markDirty => exact hpin
      | markEviction => exact hpin
    | zeroFlags i ev => simp [Frame.clears] at hclears
    | _ => exact hpin

/-- What was seen stays seen while nothing is unpinned. -/
lemma SeenBelow.mono (hs : SeenBelow (m, h) t i) (hslot : ∀ j, m'.slot j = m.slot j)
    (hpin : ∀ j p el', m.slot j = some p → m'.heap p = .live el' → el'.ce_flags.pin = false →
      ∃ el, m.heap p = .live el ∧ el.ce_flags.pin = false)
    (hh : h' t = h t) : SeenBelow (m', h') t i := by
  intro j hj p el' hp hel' hpin'
  rw [hslot] at hp
  rcases hpin j p el' hp hel' hpin' with ⟨el, hel, hunpinned⟩
  rcases hs j hj p el hp hel hunpinned with ⟨o, ho, hop⟩
  have hmem : o ∈ h' t := by
    rw [hh]
    exact ho
  exact ⟨o, hmem, hop⟩

/-- A step of another thread. -/
lemma sees_bystander (hexec : exec m t f inp = some (m', fs)) (hc : KeepsPins m f)
    (hown : Own m t (f :: k)) (hstable : Stable t' m m') (ht : t' ≠ t) (hown' : Own m t' k')
    (hs : ∀ i, scanned m k' = some i → SeenBelow (m, h) t' i) (i : ℕ)
    (hi : scanned m' k' = some i) : SeenBelow (m', observe m t f inp h) t' i := by
  rcases hown'.of_scanned hi with ⟨hca, hm⟩
  have hptr := hstable.ptr hca
  have hsame : scanned m' k' = scanned m k' := by
    unfold scanned
    rw [hptr]
  have hclears : f.clears = false := by
    by_contra hclears
    have hin : f.inCa = true := by
      cases f with
      | work i p evict st => rfl
      | _ => simp [Frame.clears] at hclears
    exact ht (Option.some.inj (hca.symm.trans (hown.holds hin)))
  refine (hs i (hsame ▸ hi)).mono (hstable.slot hca) ?_ (observe_other ht)
  intro j p el' hp hel' hpin
  refine unpinned_before hexec hclears (hc.resolve_left ?_) hm hp hel' hpin
  simp [hca]

/-- `cache_sync` comes to the next entry. -/
lemma sees_scan (hexec : execSync m t (.scan i) inp = some (m', fs))
    (hs : SeenBelow (m, h) t i) (n : ℕ) (hn : scanned m' fs = some n) :
    SeenBelow (m', observe m t (.sync (.scan i)) inp h) t n := by
  have hnext : SeenBelow (m, observe m t (.sync (.scan i)) inp h) t (i + 1) := by
    intro j hj p el hp hel hpin
    rcases Nat.lt_succ_iff_lt_or_eq.mp hj with hlt | rfl
    · rcases hs j hlt p el hp hel hpin with ⟨o, ho, hop⟩
      exact ⟨o, by simp [observe, ho], hop⟩
    · have hp' : m.slot j = some p := hp
      have hel' : m.el? p = some el := Memory.el?_eq_some.mpr hel
      have hsee : m.seeUnpinned j = some ⟨p, el.ce_flags.dirty, m.log⟩ := by
        simp [Memory.seeUnpinned, hp', hel', hpin]
      exact ⟨⟨p, el.ce_flags.dirty, m.log⟩, by simp [observe, hsee], rfl⟩
  rcases scan_cases hexec with ⟨-, rfl, rfl⟩ | ⟨p, -, hexec⟩ | ⟨hlen, rfl, rfl⟩
  · obtain rfl : i + 1 = n := Option.some.inj hn
    exact hnext
  · rcases Option.map_eq_some_iff.mp hexec with ⟨el, -, heq⟩
    rcases Prod.mk.inj heq with ⟨rfl, rfl⟩
    have hn' : i + 1 = n := by
      split_ifs at hn
      · exact Option.some.inj hn
      · exact Option.some.inj hn
    exact hn' ▸ hnext
  · obtain rfl : m.ca_elements_ptr.length = n := Option.some.inj hn
    exact fun j hj => hnext j (by omega)

/-- A step of the same thread. -/
lemma sees_exec (hexec : exec m t f inp = some (m', fs)) (hown : Own m t (f :: k))
    (hs : ∀ i, scanned m (f :: k) = some i → SeenBelow (m, h) t i) (n : ℕ)
    (hn : scanned m' (fs ++ k) = some n) : SeenBelow (m', observe m t f inp h) t n := by
  have hlead := leadsTo_exec hexec
  have hbare := execFrame_of_exec hexec
  -- another call than one of `cache_sync` goes over to none, so a waiting one scans
  have hwaits : f.syncs = false → ∃ g ∈ k, g.syncs = true := by
    intro hf
    rcases syncs_of_scanned hn with ⟨g, hg, hsync⟩
    rcases List.mem_append.mp hg with hg | hg
    · have hf' := (hlead g hg).syncs hsync
      rw [hf] at hf'
      cases hf'
    · exact ⟨g, hg, hsync⟩
  cases f with
  | sync pc =>
    obtain rfl : k = [] := hown.2.2
    rw [List.append_nil] at hn
    cases pc with
    | lock =>
      rcases frames_of_map hbare with ⟨-, rfl⟩
      obtain rfl : 0 = n := Option.some.inj hn
      exact fun j hj => absurd hj (Nat.not_lt_zero j)
    | scan i => exact sees_scan hbare (hs i rfl) n hn
    | test =>
      rcases Prod.mk.inj (Option.some.inj hbare) with ⟨rfl, rfl⟩
      split_ifs at hn <;> cases hn
    | setLoop =>
      rcases Prod.mk.inj (Option.some.inj hbare) with ⟨rfl, rfl⟩
      cases hn
    | wait =>
      rcases sync_wait_cases hbare with ⟨rfl, rfl | ⟨rfl, -⟩⟩ <;> cases hn
    | clearLock rc =>
      rcases frames_of_map hbare with ⟨-, rfl⟩
      cases hn
    | clear rc =>
      rcases Prod.mk.inj (Option.some.inj hbare) with ⟨rfl, rfl⟩
      cases hn
    | ret rc =>
      rcases Prod.mk.inj (Option.some.inj hbare) with ⟨rfl, rfl⟩
      cases hn
  | flagOp op p pc =>
    rcases hown.2.2 with rfl | ⟨rfl, hm, ⟨i, rfl⟩ | ⟨i, rfl⟩⟩
    · simpa using hwaits rfl
    · -- the element is marked for the scan
      have hnext : fs = [] ∨ ∃ pc', fs = [.flagOp .markEviction p pc'] := by
        cases pc <;> simp only [execFrame, execFlagOp, Option.map_eq_some_iff] at hbare <;> grind
      have hi : i = n := by
        rcases hnext with rfl | ⟨pc', rfl⟩
        · exact Option.some.inj hn
        · exact Option.some.inj hn
      subst hi
      refine (hs i rfl).mono (fun j => ?_) (fun j q el' hq hel' hpin => ?_) rfl
      · rw [Memory.slot, Memory.slot, (effect_exec hexec).table]
        rfl
      · exact unpinned_before hexec rfl (by simp) hm hq hel' hpin
    · simpa using hwaits rfl
  | unlockCa ret =>
    rcases frames_of_map hbare with ⟨-, rfl⟩
    rcases hown.2.2 with rfl | rfl | ⟨rc, rfl⟩ | rfl | rfl <;> cases hn
  | evictByIdx i p locked =>
    rcases hown.2.2 with rfl | rfl <;> simpa using hwaits rfl
  | work i p evict st =>
    rcases hown.2.2 with rfl | ⟨-, rfl | rfl⟩ <;> simpa using hwaits rfl
  | _ =>
    obtain rfl : k = [] := hown.2.2
    simpa using hwaits rfl

/-- What the scans see, on top of the outline of the machine. -/
theorem sees (capacity : ℕ) (on_evict : Bool) :
    StackOutline (system.observe observe) (fun s _ f _ => KeepsPins s.1 f)
      (fun s => Inv capacity on_evict s.1 ∧ True)
      (fun s t k => Own s.1 t k ∧ ∀ i, scanned s.1 k = some i → SeenBelow s t i) :=
  ((outline capacity on_evict).observe observe).extend (fun _ => trivial)
    (by
      intro t inp fs hstart s _ _ i hi
      rcases start_eq_some hstart with ⟨n, f, rfl, rfl, hentry, rfl⟩
      -- a call does not begin with a scan
      cases f with
      | sync pc =>
        obtain rfl : pc = .test := by simpa [entry] using hentry
        cases hi
      | _ => cases hi)
    (by
      intro s t f k inp s' fs hexec _ _ hown _ _ _ hs
      rcases System.exec_observe.mp hexec with ⟨hexec, hobs⟩
      have hnext := sees_exec (h := s.2) hexec hown hs
      rw [← hobs] at hnext
      exact ⟨trivial, hnext⟩)
    (by
      intro s t f k inp s' fs hexec hc hinv hown _ _ t' ht k' hown' hs'
      rcases System.exec_observe.mp hexec with ⟨hexec, hobs⟩
      have hstable := (sound_exec hexec hinv hown).others t' ht
      have hnext := sees_bystander (h := s.2) hexec hc hown hstable ht hown' hs'
      rw [← hobs] at hnext
      exact hnext)

/-- When the scan of `cache_sync` is over, it has seen every element of the table that is not
pinned. -/
theorem sync_sees
    (hC : Along (system.observe observe).step (Meets fun s _ f _ => KeepsPins s.1 f)
      (observedInit capacity on_evict on_flush) as) :
    Throughout (system.observe observe).step
      (fun s => ∀ t, s.stack t = [.sync .setLoop] → ∀ i p el, s.mem.1.slot i = some p →
        s.mem.1.heap p = .live el → el.ce_flags.pin = false → ∃ o ∈ s.mem.2 t, o.p = p)
      (observedInit capacity on_evict on_flush) as := by
  rcases holds_init capacity on_evict on_flush with ⟨hinv, hown⟩
  have hstart : Holds (fun s => Inv capacity on_evict s.1 ∧ True)
      (fun s t k => Own s.1 t k ∧ ∀ i, scanned s.1 k = some i → SeenBelow s t i)
      (observedInit capacity on_evict on_flush) := by
    refine ⟨⟨hinv, trivial⟩, fun t => ⟨hown t, fun i hi => ?_⟩⟩
    cases t <;> cases hi
  refine ((sees capacity on_evict).throughout hstart hC).mono ?_
  intro s hs t hstack i p el hslot
  refine (hs.2 t).2 _ (by rw [hstack]; rfl) i ?_ p el hslot
  exact (List.getElem?_eq_some_iff.mp (Memory.slot_eq_some.mp hslot)).1

end Sees

/-! ## `cache_sync` -/

/-- Where a call of `cache_sync` is about to return 0, every unpinned element that it found in the
table has been passed to the callbacks. -/
def Barrier (s : ObservedState) : Prop :=
  ∀ t, s.stack t = [.sync (.ret true)] → ∀ o ∈ s.mem.2 t, Passed o s.mem.1.log

theorem sync_barrier (hcap : capacity < 2 ^ 31)
    (hC : Along (system.observe observe).step (Meets fun s t f inp => Attends .loop s.1 t f inp)
      (observedInit capacity on_evict on_flush) as) :
    Throughout (system.observe observe).step Barrier
      (observedInit capacity on_evict on_flush) as := by
  refine (answered_throughout hcap hC).mono ?_
  intro s hs t hstack
  have hserves := (hs.2 t).2
  rw [hstack] at hserves
  exact hserves.answers _ (List.mem_cons_self ..)

/-- Client 0 calls `cache_sync` for the element 4096, up to its wait. -/
def syncCalled : List (Tid × Input) := mapped ++ call (.client 0) (.sync .test) 10

/-- The thread makes a pass and client 0 sees the answer. -/
def syncServed : List (Tid × Input) :=
  syncCalled ++ steps .cacheThread 17 ++ steps (.client 0) 4

/-- The same, but client 1 is about to pin the element when the thread comes to it. -/
def syncSkipped : List (Tid × Input) :=
  syncCalled ++ call (.client 1) (.flagOp .pin 4096 .test) 2 ++ steps .cacheThread 10 ++
    steps (.client 0) 4

theorem sync_barrier_served :
    (run (system.observe observe).step (observedInit 1 true true) syncServed).map
        (fun s => (s.stack (.client 0), s.mem.2 (.client 0), s.mem.1.log)) =
      some ([.sync (.ret true)], [⟨4096, false, []⟩], [.freed 4096, .evicted 4096]) ∧
    Throughout (system.observe observe).step Barrier (observedInit 1 true true) syncServed :=
  ⟨by decide +kernel, sync_barrier (by decide) (by decide +kernel)⟩

/-- `cache_sync` returns 0 and the element is still there. -/
theorem sync_skips_locked_element :
    ∃ s, run (system.observe observe).step (observedInit 1 true true) syncSkipped = some s ∧
      ¬ Barrier s := by
  have hrun : (run (system.observe observe).step (observedInit 1 true true) syncSkipped).map
      (fun s => (s.stack (.client 0), s.mem.2 (.client 0), s.mem.1.log)) =
      some ([.sync (.ret true)], [⟨4096, false, []⟩], []) := by decide +kernel
  rcases Option.map_eq_some_iff.mp hrun with ⟨s, hs, heq⟩
  simp only [Prod.mk.injEq] at heq
  rcases heq with ⟨hstack, hseen, hlog⟩
  refine ⟨s, hs, ?_⟩
  intro h
  rcases h (.client 0) hstack ⟨4096, false, []⟩ (by simp [hseen]) with ⟨l₁, l₂, hpassed, -⟩
  simp [hlog] at hpassed

/-! ## `cache_disable` -/

/-- Where a call of `cache_disable` is about to return, every element that it found in the table
has been passed to the callbacks, once, and the thread takes no step any more; nor does it once
the table has been freed. -/
structure Shutdown (s : ObservedState) : Prop where
  passed : ∀ t, s.stack t = [.disable .ret] → ∀ o ∈ s.mem.2 t,
    Passed o s.mem.1.log ∧ s.mem.1.log.count (.evicted o.p) = 1
  returned : ∀ t, s.stack t = [.disable .ret] → s.stack .cacheThread = []
  tableFreed : s.mem.1.ca_elements_freed = true → s.stack .cacheThread = []

lemma Passed.mem {o : Seen} {log : List Event} (h : Passed o log) : .evicted o.p ∈ log := by
  rcases h with ⟨l₁, l₂, rfl, -⟩
  simp

theorem disable_loses_nothing (hcap : capacity < 2 ^ 31)
    (hC : Along (system.observe observe).step (Meets fun s t f inp => Attends .exit s.1 t f inp)
      (observedInit capacity on_evict on_flush) as) :
    Throughout (system.observe observe).step Shutdown
      (observedInit capacity on_evict on_flush) as := by
  refine (answered_throughout hcap hC).mono ?_
  rintro s ⟨⟨⟨hinv, -⟩, hlived⟩, hstacks⟩
  have hanswer : ∀ t, s.stack t = [.disable .ret] →
      PassedFor s.mem t ∧ s.mem.1.ca_thread_ended = true := by
    intro t hstack
    have hserves := (hstacks t).2
    rw [hstack] at hserves
    exact hserves.answers _ (List.mem_cons_self ..)
  have hgone := (hstacks .cacheThread).2.ended rfl
  refine ⟨?_, fun t hstack => hgone (hanswer t hstack).2,
    fun hfreed => hgone (hlived.tableFreed rfl hfreed)⟩
  intro t hstack o hmem
  have hpassed := (hanswer t hstack).1 o hmem
  have hle := hinv.disciplined.count_le o.p
  have hpos := List.count_pos_iff.mpr hpassed.mem
  exact ⟨hpassed, by omega⟩

/-- Client 0 calls `cache_disable` with the element 4096 in the table, up to its wait. -/
def disableCalled : List (Tid × Input) := mapped ++ call (.client 0) (.disable .lock) 9

/-- The thread makes a pass and ends, and client 0 sees the answer. -/
def disableServed : List (Tid × Input) :=
  disableCalled ++ steps .cacheThread 19 ++ steps (.client 0) 4

/-- The same, but client 1 is about to pin the element when the thread comes to it. -/
def disableSkipped : List (Tid × Input) :=
  disableCalled ++ call (.client 1) (.flagOp .pin 4096 .test) 2 ++ steps .cacheThread 12 ++
    steps (.client 0) 4

theorem disable_loses_nothing_served :
    (run (system.observe observe).step (observedInit 1 true true) disableServed).map
        (fun s => (s.stack (.client 0), s.mem.2 (.client 0), s.mem.1.log)) =
      some ([.disable .ret], [⟨4096, false, []⟩], [.freed 4096, .evicted 4096]) ∧
    Throughout (system.observe observe).step Shutdown (observedInit 1 true true) disableServed :=
  ⟨by decide +kernel, disable_loses_nothing (by decide) (by decide +kernel)⟩

/-- `cache_disable` returns, the table is freed, and the element was never evicted. -/
theorem disable_loses_locked_element :
    ∃ s, run (system.observe observe).step (observedInit 1 true true) disableSkipped = some s ∧
      ¬ Shutdown s := by
  have hrun : (run (system.observe observe).step (observedInit 1 true true) disableSkipped).map
      (fun s => (s.stack (.client 0), s.mem.2 (.client 0), s.mem.1.log)) =
      some ([.disable .ret], [⟨4096, false, []⟩], []) := by decide +kernel
  rcases Option.map_eq_some_iff.mp hrun with ⟨s, hs, heq⟩
  simp only [Prod.mk.injEq] at heq
  rcases heq with ⟨hstack, hseen, hlog⟩
  refine ⟨s, hs, ?_⟩
  intro h
  have hcount := (h.passed (.client 0) hstack ⟨4096, false, []⟩ (by simp [hseen])).2
  simp [hlog] at hcount

end KanekFs.Cache.Machine
