import KanekFs.Cache.Alone

/-!
# The cache as one caller at a time sees it

The functions of the cache on a memory do to the table it stands for what the functions of
`KanekFs.Cache.Table` say.

* `TableCall` says which function on tables a call of a client is.
* `calls_refine_table`: every call of a client that runs from its start to its end, from any
  reachable state in which `ca_mutex` is free. `pass_refines_table`: the pass of the thread.
-/

namespace KanekFs.Cache.Machine

open Threads Run Word

section Work

variable {capacity : ℕ} {on_evict : Bool} {m m' m₁ : Memory} {t : Tid} {i p : ℕ} {el : Elem}
  {given : Frame → Input → Prop} {inputs : Input → Prop}

/-! ## Mapping -/

lemma findIdx?_congr {α : Type*} {f g : α → Bool} {l : List α} (h : ∀ a ∈ l, f a = g a) :
    l.findIdx? f = l.findIdx? g := by
  induction l with
  | nil => rfl
  | cons a l ih =>
    rw [List.findIdx?_cons, List.findIdx?_cons, h a (by simp), ih fun b hb => h b (by simp [hb])]

lemma firstEmpty_table (hm : Consistent m) :
    firstEmpty m.table = m.ca_elements_ptr.findIdx? Option.isNone := by
  rw [firstEmpty, Memory.table, List.findIdx?_map]
  refine findIdx?_congr fun o ho => ?_
  cases o with
  | none => rfl
  | some p =>
    rcases List.mem_iff_getElem?.mp ho with ⟨i, hi⟩
    rcases hm.live (Memory.slot_eq_some.mpr hi) with ⟨el, hel, -⟩
    simp [Memory.el?_eq_some.mpr hel]

/-- The slots from `i` on. -/
lemma drop_table (hlt : i < m.ca_elements_ptr.length) :
    m.table.ca_elements_ptr.drop i = m.table.slot i :: m.table.ca_elements_ptr.drop (i + 1) := by
  have hlt' : i < m.table.ca_elements_ptr.length := by simpa [Memory.table] using hlt
  rw [List.drop_eq_getElem_cons hlt', Table.slot, List.getElem?_eq_getElem hlt']
  rfl

/-- The search for the least recently used element ends the call, or has found one to evict. -/
lemma returns_lru {l : Lru} (h : Returns system t given m [.map (.lru i l)] m')
    (hm : Consistent m) :
    ((lruLoop (m.table.ca_elements_ptr.drop i) i l).bind Lru.sub = none ∧
      Returns system t given m [.unlockCa none] m') ∨
    ∃ sub p, (lruLoop (m.table.ca_elements_ptr.drop i) i l).bind Lru.sub = some sub ∧
      m.slot sub = some p ∧
      Returns system t given m [.evictByIdx sub p false, .map (.malloc sub)] m' := by
  -- by induction on the slots that are left
  generalize hn : m.ca_elements_ptr.length - i = n
  induction n generalizing i l with
  | zero =>
    have hdrop : m.table.ca_elements_ptr.drop i = [] := by
      refine List.drop_eq_nil_iff.mpr ?_
      rw [← Table.capacity, table_capacity]
      omega
    have hend : ¬ i < m.ca_elements_ptr.length := by omega
    rw [hdrop, lruLoop, Option.bind_some]
    rcases solo_frame h (by simp) with ⟨inp, m₁, fs, -, hexec, h⟩
    rw [execFrame, execMap, if_neg hend] at hexec
    cases hsub : l.sub with
    | none =>
      rw [hsub] at hexec
      rcases Prod.mk.inj (Option.some.inj hexec) with ⟨rfl, rfl⟩
      exact .inl ⟨rfl, h⟩
    | some sub =>
      rw [hsub] at hexec
      rcases Option.map_eq_some_iff.mp hexec with ⟨p, hslot, heq⟩
      rcases Prod.mk.inj heq with ⟨rfl, rfl⟩
      exact .inr ⟨sub, p, rfl, hslot, h⟩
  | succ n ih =>
    have hlt : i < m.ca_elements_ptr.length := by omega
    rw [drop_table hlt]
    cases hslot : m.slot i with
    | none =>
      have h := returns_next h (n := m) (l := [.unlockCa none]) fun _ => by
        simp [execFrame, execMap, hlt, hslot]
      rw [table_slot_none hslot, lruLoop]
      exact .inl ⟨rfl, h⟩
    | some p =>
      rcases hm.live hslot with ⟨el, hel, -⟩
      have h := returns_next h (n := m)
          (l := [.map (.lru (i + 1) (l.step i el.ce_flags el.ce_access_count))]) fun _ => by
        simp [execFrame, execMap, hlt, hslot, Memory.el?_eq_some.mpr hel]
      rw [table_slot_live hslot hel, lruLoop]
      exact ih h (by omega)

/-- A new element enters the table. -/
lemma table_published {sub id : ℕ} (hm : Consistent m) (hp : m.heap p = .unused)
    (hheap : m'.heap = (m.setEl p (newElem id)).heap)
    (hptr : m'.ca_elements_ptr = m.ca_elements_ptr.set sub (some p))
    (huse : m'.ca_elements_in_use = incInUse m.ca_elements_in_use) (hlog : m'.log = m.log) :
    m'.table = (fillSlot ⟨some id, true⟩ p sub m.table).1 := by
  have hinj : ∀ j, m.slot j = some p → j = sub := by
    intro j hj
    rcases hm.live hj with ⟨el, hel, -⟩
    simp [hp] at hel
  have hel : m'.el? p = some (newElem id) := Memory.el?_eq_some.mpr (hheap ▸ setEl_self)
  refine table_eq ?_ huse (by rw [Memory.table, hlog]; rfl)
  rw [table_put hinj (fun q hqp => hheap ▸ setEl_other hqp) hptr, Option.bind_some, hel]
  rfl

/-- What a call with these inputs gets from `malloc`: an address, with the payload of it and the id
that is found there, or nothing. -/
def Allocated {α : Type*} (inputs : Input → Prop) (payload : ℕ → α) (env : AllocEnv) (blank : α) :
    Prop :=
  (∃ p id, inputs (.alloc p id) ∧ env = ⟨some id, true⟩ ∧ blank = payload p) ∨
    inputs .allocFails ∧ env = ⟨none, true⟩

/-- The end of `cache_element_map`, in an empty slot. -/
lemma table_malloc {sub : ℕ} (h : Returns system t (fun _ => inputs) m [.map (.malloc sub)] m')
    (hm : Consistent m) :
    ∃ env blank, Allocated inputs id env blank ∧ (fillSlot env blank sub m.table).1 = m'.table := by
  rcases solo_frame h (by simp) with ⟨inp, m₁, fs, hinp, hexec, h⟩
  rcases malloc_cases hexec with ⟨p, id, rfl, hp, rfl, rfl⟩ | ⟨rfl, rfl, rfl⟩
  · have h := returns_next h fun _ => rfl
    refine ⟨⟨some id, true⟩, p, .inl ⟨p, id, hinp, rfl, rfl⟩, ?_⟩
    rw [returns_unlockCa h]
    exact Eq.symm (table_published hm hp rfl rfl rfl rfl)
  · exact ⟨⟨none, true⟩, 0, .inr ⟨hinp, rfl⟩, (returns_unlockCa h).symm⟩

/-- `cache_element_map`. -/
lemma table_map (h : Returns system t (fun _ => inputs) m [.map .lock] m')
    (hs : Steady capacity on_evict t m [.map .lock]) :
    ∃ env blank, (mapSlot m.table ≠ none → Allocated inputs id env blank) ∧
      (cacheElementMap m.callbacks env blank m.table).map Prod.fst = some m'.table := by
  rcases returns_lockCa h hs fun _ => rfl with ⟨h, hs⟩
  have hm : Consistent (m.lockedBy t) := hs.2.2.1 rfl
  change ∃ env blank, (mapSlot (m.lockedBy t).table ≠ none → Allocated inputs id env blank) ∧
    (cacheElementMap (m.lockedBy t).callbacks env blank (m.lockedBy t).table).map Prod.fst =
      some m'.table
  generalize m.lockedBy t = m₀ at h hs hm
  simp only [cacheElementMap, mapSlot, firstEmpty_table hm]
  cases hfind : m₀.ca_elements_ptr.findIdx? Option.isNone with
  | some sub =>
    have h := returns_next h (n := m₀) (l := [.map (.malloc sub)]) fun _ => by
      simp [execFrame, execMap, hfind]
    rcases table_malloc h hm with ⟨env, blank, halloc, hfill⟩
    exact ⟨env, blank, fun _ => halloc, congrArg some hfill⟩
  | none =>
    have h := returns_next h (n := m₀) (l := [.map (.lru 0 Lru.start)]) fun _ => by
      simp [execFrame, execMap, hfind]
    rcases returns_lru h hm with ⟨hnone, h⟩ | ⟨sub, p, hsub, hslot, h⟩
    · have hvictim : lruVictim m₀.table = none := by simpa [lruVictim] using hnone
      refine ⟨⟨none, true⟩, 0, fun hslot => absurd hvictim hslot, ?_⟩
      simp only [hvictim, returns_unlockCa h, Option.map_some]
    · have hvictim : lruVictim m₀.table = some sub := by simpa [lruVictim] using hsub
      have hown : Own m₀ t [.evictByIdx sub p false, .map (.malloc sub)] :=
        own_in (hs.2.holds rfl) ⟨hm, hslot, by simp⟩ (.inr rfl) rfl
      rcases returns_evictByIdx h ⟨hs.1, hown⟩ with ⟨m₁, hev, hs₁, h₁⟩
      rcases table_malloc h₁ hs₁.2.2.1.1 with ⟨env, blank, halloc, hfill⟩
      refine ⟨env, blank, fun _ => halloc, ?_⟩
      simp only [hvictim, hev, Option.map_some, hfill]

/-! ## Loops over the table -/

section Loops

variable {B : Table ℕ (List Event) → ℕ → Option (Table ℕ (List Event))}
  {P : Element ℕ → Bool} {D : Memory → Prop}

/-- A loop over the slots, as the functions on tables see it: `F i m` says that the loop comes to
slot `i` in the memory `m`. -/
lemma table_loop {F : ℕ → Memory → Prop}
    (hnext : ∀ i m, F i m → (m.ca_elements_ptr.length ≤ i ∧ D m) ∨
      i < m.ca_elements_ptr.length ∧ ∃ m₁, F (i + 1) m₁ ∧
        m₁.ca_elements_ptr.length = m.ca_elements_ptr.length ∧ B m.table i = some m₁.table)
    (h : F 0 m) :
    ∃ m₁, (List.range m.table.capacity).foldlM B m.table = some m₁.table ∧ D m₁ := by
  -- by induction on the slots that are left
  have hloop : ∀ n i m, m.ca_elements_ptr.length = i + n → F i m →
      ∃ m₁, (List.range' i n).foldlM B m.table = some m₁.table ∧ D m₁ := by
    intro n
    induction n with
    | zero =>
      intro i m hlen hi
      rcases hnext i m hi with ⟨-, hdone⟩ | ⟨hlt, -⟩
      · exact ⟨m, rfl, hdone⟩
      · omega
    | succ n ih =>
      intro i m hlen hi
      rcases hnext i m hi with ⟨hle, -⟩ | ⟨-, m₁, hi', hlen', hbody⟩
      · omega
      · rcases ih (i + 1) m₁ (by omega) hi' with ⟨m₂, hrest, hdone⟩
        refine ⟨m₂, ?_, hdone⟩
        rw [List.range'_succ, List.foldlM_cons, hbody, Option.bind_eq_bind, Option.bind_some, hrest]
  rw [table_capacity, List.range_eq_range']
  exact hloop _ 0 m (by simp) h

/-! ### Marking -/

/-- The call of `cache_element_mark_eviction` in a loop. -/
lemma returns_markEviction {k : List Frame}
    (h : Returns system t given m (.flagOp .markEviction p .test :: k) m')
    (hs : Steady capacity on_evict t m (.flagOp .markEviction p .test :: k)) (hm : Consistent m)
    (hslot : m.slot i = some p) :
    ∃ m₁, cacheElementMarkEviction i m.table = some m₁.table ∧
      m₁.ca_elements_ptr.length = m.ca_elements_ptr.length ∧
      Steady capacity on_evict t m₁ k ∧ Returns system t given m₁ k m' := by
  rcases Returns.call (k := [.flagOp .markEviction p .test]) preserves_steady h hs with
    ⟨m₁, hmark, hs₁, h₁⟩
  exact ⟨m₁, table_flagOp hmark hm hslot, by rw [hs₁.1.length, hs.1.length], hs₁, h₁⟩

/-- The loops of `cache_sync` and `cache_disable`; `g i` is the loop at slot `i`. -/
lemma returns_marking {g : ℕ → Frame} {fs : List Frame} (hin : ∀ i, (g i).inCa = true)
    (hpre : ∀ m i, Pre m t (g i) ↔ Consistent m)
    (hcaller : ∀ m p i, Consistent m → Caller m (.flagOp .markEviction p .test) [g i])
    (hentry : ∀ m i, Caller m (g i) [])
    (hg : ∀ m i inp, Consistent m → execFrame m t (g i) inp =
      if i < m.ca_elements_ptr.length then
        match m.slot i with
        | none => some (m, [g (i + 1)])
        | some p => (m.el? p).map fun el => (m, if P (el.element p) then [g (i + 1)]
            else [.flagOp .markEviction p .test, g (i + 1)])
      else some (m, fs))
    (h : Returns system t given m [g 0] m') (hs : Steady capacity on_evict t m [g 0]) :
    ∃ m₁, markSlots P (List.range m.table.capacity) m.table = some m₁.table ∧
      Returns system t given m₁ fs m' := by
  refine table_loop (F := fun i m => Returns system t given m [g i] m' ∧
    Steady capacity on_evict t m [g i]) ?_ ⟨h, hs⟩
  rintro i m ⟨h, hs⟩
  have hm : Consistent m := (hpre m i).mp hs.2.2.1
  have hca : m.ca_mutex = some t := hs.2.holds (hin i)
  have hs' : Steady capacity on_evict t m [g (i + 1)] :=
    ⟨hs.1, own_in hca ((hpre m _).mpr hm) (hentry m _) (by simp [hin])⟩
  rcases solo_scan h (by simp) fun _ => hg m i _ hm with
    ⟨hle, h⟩ | ⟨hlt, hnone, h⟩ | ⟨p, m₁, gs, hslot, hexec, h⟩
  · exact .inl ⟨hle, h⟩
  · exact .inr ⟨hlt, m, ⟨h, hs'⟩, rfl, by rw [table_slot_none hnone]⟩
  · rcases hm.live hslot with ⟨el, hel, -⟩
    rw [Memory.el?_eq_some.mpr hel, Option.map_some, Option.some.injEq, Prod.mk.injEq] at hexec
    rcases hexec with ⟨rfl, rfl⟩
    refine .inr ⟨lt_length_of_slot hslot, ?_⟩
    rw [table_slot_live hslot hel]
    split_ifs at h with hskip
    · exact ⟨m, ⟨h, hs'⟩, rfl, if_pos hskip⟩
    · have hown : Own m t [.flagOp .markEviction p .test, g (i + 1)] :=
        own_in hca (by simp [Pre, Frame.inCa]) (hcaller m p _ hm) (by simp [hin])
      rcases returns_markEviction h ⟨hs.1, hown⟩ hm hslot with ⟨m₁, hmark, hlen, hs₁, h₁⟩
      exact ⟨m₁, ⟨h₁, hs₁⟩, hlen, (if_neg hskip).trans hmark⟩

/-- The end of `cache_sync`. -/
lemma table_sync_wait (h : Returns system t given m [.sync .wait] m') : m'.table = m.table := by
  rcases solo_frame h (by simp) with ⟨inp, m₁, fs, -, hexec, h⟩
  obtain ⟨rfl, rc, rfl⟩ : m = m₁ ∧ ∃ rc, [Frame.sync (.clearLock rc)] = fs := by
    rcases sync_wait_cases hexec with ⟨rfl, hfs | ⟨hfs, -⟩⟩
    · exact ⟨rfl, false, hfs⟩
    · exact ⟨rfl, true, hfs⟩
  rcases solo_frame h (by simp) with ⟨inp, m₁, fs, -, hexec, h⟩
  rcases frames_of_map hexec with ⟨hlock, rfl⟩
  rcases Memory.lockCa_eq_some hlock with ⟨-, rfl⟩
  have h := returns_next h fun _ => rfl
  rcases solo_unlockCa h (by simp) with ⟨m₂, htable, h⟩
  have h := returns_next h (l := []) fun _ => rfl
  rw [h.eq_of_nil, htable]
  rfl

/-- `cache_sync`. -/
lemma table_sync (h : Returns system t given m [.sync .test] m')
    (hs : Steady capacity on_evict t m [.sync .test]) :
    (if m.ca_flags.ready then cacheSyncLoop m.table else some m.table) = some m'.table := by
  cases hready : m.ca_flags.ready with
  | false =>
    have h := returns_next h (n := m) (l := []) fun _ => by simp [execFrame, execSync, hready]
    simp [h.eq_of_nil]
  | true =>
    have h := returns_next h (n := m) (l := [.sync .lock]) fun _ => by
      simp [execFrame, execSync, hready]
    have hs : Steady capacity on_evict t m [.sync .lock] :=
      ⟨hs.1, own_out (hs.2.out rfl) (by simp [Pre, Frame.inCa]) rfl rfl⟩
    rcases returns_lockCa h hs fun _ => rfl with ⟨h, hs⟩
    rcases returns_marking (P := fun el => el.ce_flags.pin) (g := fun i => .sync (.scan i))
      (fun _ => rfl) (fun _ _ => by simp [Pre, Frame.inCa])
      (fun _ _ _ hm => .inr ⟨rfl, hm, .inl ⟨_, rfl⟩⟩) (fun _ _ => rfl) (fun _ _ _ _ => rfl)
      h hs with ⟨m₁, hloop, h⟩
    have h := returns_next h fun _ => rfl
    rcases solo_unlockCa h (by simp) with ⟨m₂, htable, h⟩
    rw [table_sync_wait h, htable]
    exact hloop

/-- The end of `cache_disable`. -/
lemma table_disable_wait (h : Returns system t given m [.disable .wait] m') :
    m'.table = m.table := by
  rcases solo_frame h (by simp) with ⟨inp, m₁, fs, -, hexec, h⟩
  rcases disable_wait_cases hexec with ⟨rfl, rfl⟩
  rcases solo_frame h (by simp) with ⟨inp, m₁, fs, -, hexec, h⟩
  obtain ⟨rfl, rfl⟩ : m = m₁ ∧ [Frame.disable .destroyMutex] = fs := by
    simp only [execFrame, execDisable] at hexec
    split_ifs at hexec <;> exact Prod.mk.inj (Option.some.inj hexec)
  have h := returns_next h fun _ => rfl
  have h := returns_next h fun _ => rfl
  have h := returns_next h (l := []) fun _ => rfl
  rw [h.eq_of_nil]
  rfl

/-- `cache_disable`. -/
lemma table_disable (h : Returns system t given m [.disable .lock] m')
    (hs : Steady capacity on_evict t m [.disable .lock]) :
    cacheDisableLoop m.table = some m'.table := by
  rcases returns_lockCa h hs fun _ => rfl with ⟨h, hs⟩
  have hexec : ∀ m i inp, Consistent m → execFrame m t (.disable (.scan i)) inp =
      if i < m.ca_elements_ptr.length then
        match m.slot i with
        | none => some (m, [.disable (.scan (i + 1))])
        | some p => (m.el? p).map fun el => (m, if false then [.disable (.scan (i + 1))]
            else [.flagOp .markEviction p .test, .disable (.scan (i + 1))])
      else some (m, [.disable .setExit]) := by
    intro m i inp hm
    rw [execFrame, execDisable]
    cases hslot : m.slot i with
    | none => rfl
    | some p =>
      rcases hm.live hslot with ⟨el, hel, -⟩
      simp [Memory.el?_eq_some.mpr hel]
  rcases returns_marking (P := fun _ => false) (g := fun i => .disable (.scan i))
    (fun _ => rfl) (fun _ _ => by simp [Pre, Frame.inCa])
    (fun _ _ _ hm => .inr ⟨rfl, hm, .inr ⟨_, rfl⟩⟩) (fun _ _ => rfl) hexec h hs with
    ⟨m₁, hloop, h⟩
  have h := returns_next h fun _ => rfl
  rcases solo_unlockCa h (by simp) with ⟨m₂, htable, h⟩
  rw [table_disable_wait h, htable]
  exact hloop

end Loops

/-! ## The thread -/

/-- The pass is over. -/
def PassOver (k : List Frame) : Prop := k = [.thread .loop] ∨ k = []

instance (k : List Frame) : Decidable (PassOver k) := inferInstanceAs (Decidable (_ ∨ _))

lemma passOver_append (k : List Frame) (i : ℕ) : ¬ PassOver (k ++ [.thread (.elem i)]) := by
  rintro (h | h)
  · have hlast := congrArg List.getLast? h
    simp at hlast
  · simp at h

/-- The work of the thread on an element that it has locked. -/
lemma table_afterTryLock
    (h : Returns system t given (m.setEl p (el.lockedBy t)) [afterTryLock i p el.ce_flags] m')
    (hm : Consistent m) (hslot : m.slot i = some p) (hel : m.heap p = .live el)
    (hactive : el.ce_flags.active = true) (hfree : el.ce_mutex = none) :
    m'.callbacks = m.callbacks ∧ m'.table = threadSlot m.callbacks m.table i := by
  have hactive' : (el.element p).ce_flags.active = true := hactive
  have hunlocked : (el.element p).ce_locked = false := by simp [Elem.element, hfree]
  rw [threadSlot, table_slot_live hslot hel]
  dsimp only
  rw [hactive', hunlocked, if_neg (by simp)]
  cases hevict : el.ce_flags.evict with
  | true =>
    have hwork : afterTryLock i p el.ce_flags =
        .work i p true (if el.ce_flags.dirty then .addCount else .onEvict) := by
      cases hdirty : el.ce_flags.dirty <;> simp [afterTryLock, hdirty, hevict]
    rw [hwork] at h
    have hevict' : (el.element p).ce_flags.evict = true := hevict
    rw [if_pos hevict']
    exact table_eviction h (hm.inj hslot)
  | false =>
    have hevict' : ¬ (el.element p).ce_flags.evict = true := by simp [Elem.element, hevict]
    rw [if_neg hevict', flushIfDirty]
    cases hdirty : el.ce_flags.dirty with
    | true =>
      have hdirty' : (el.element p).ce_flags.dirty = true := hdirty
      rw [afterTryLock, if_pos hdirty, hevict] at h
      have h := returns_flush h setEl_self
      rw [setEl_callFlush, setEl_setEl] at h
      have hel' : ({ (el.lockedBy t).flushed with ce_mutex := none } : Elem) = el.flushed := by
        simp [Elem.lockedBy, Elem.flushed, hfree]
      have h := returns_next h fun _ => by
        rw [if_neg Bool.false_ne_true, execFrame, execWork, unlockEl_held setEl_self rfl,
          setEl_setEl, hel']
        rfl
      rw [h.eq_of_nil, table_flushed (hm.inj hslot) hslot, if_pos hdirty']
      exact ⟨by simp, rfl⟩
    | false =>
      have hdirty' : ¬ (el.element p).ce_flags.dirty = true := by simp [Elem.element, hdirty]
      rw [afterTryLock, if_neg (by simp [hdirty]), if_neg (by simp [hevict])] at h
      have hel' : ({ el.lockedBy t with ce_mutex := none } : Elem) = el := by
        cases el
        simp_all [Elem.lockedBy]
      have h := returns_next h fun _ => by
        rw [execFrame, execWork, unlockEl_held setEl_self rfl, setEl_setEl, hel']
        rfl
      rw [h.eq_of_nil, table_setEl (hm.inj hslot) hslot, if_neg hdirty']
      exact ⟨rfl, rfl⟩

/-- One iteration of the loop of `cache_thread`. -/
lemma solo_threadSlot (h : Solo system t given PassOver m [.thread (.elem i)] m')
    (hs : Steady capacity on_evict t m [.thread (.elem i)]) :
    (m.ca_elements_ptr.length ≤ i ∧ Solo system t given PassOver m [.thread .leave] m') ∨
      i < m.ca_elements_ptr.length ∧ ∃ m₁, m₁.callbacks = m.callbacks ∧
        m₁.table = threadSlot m.callbacks m.table i ∧
        Steady capacity on_evict t m₁ [.thread (.elem (i + 1))] ∧
        Solo system t given PassOver m₁ [.thread (.elem (i + 1))] m' := by
  have hm : Consistent m := hs.2.2.1 rfl
  have hca : m.ca_mutex = some t := hs.2.holds rfl
  have hs' : Steady capacity on_evict t m [.thread (.elem (i + 1))] :=
    ⟨hs.1, own_in hca (fun _ => hm) rfl rfl⟩
  rcases solo_scan h (by simp [PassOver]) fun _ => rfl with
    ⟨hle, h⟩ | ⟨hlt, hnone, h⟩ | ⟨p, m₁, fs, hslot, hexec, h⟩
  · exact .inl ⟨hle, h⟩
  · refine .inr ⟨hlt, m, rfl, ?_, hs', h⟩
    rw [threadSlot, table_slot_none hnone]
  · rcases Prod.mk.inj (Option.some.inj hexec) with ⟨rfl, rfl⟩
    rcases hm.live hslot with ⟨el, hel, hactive⟩
    have h := solo_next h (by simp [PassOver]) (n := m)
        (l := [.thread (.tryLock i p el.ce_flags)]) fun _ => by
      simp [execFrame, execThread, Memory.el?_eq_some.mpr hel, hactive]
    refine .inr ⟨lt_length_of_slot hslot, ?_⟩
    have hs₀ : Steady capacity on_evict t m [.thread (.tryLock i p el.ce_flags)] :=
      ⟨hs.1, own_in hca ⟨hm, hslot⟩ rfl rfl⟩
    rcases solo_steady h (by simp [PassOver]) hs₀ with ⟨inp, m₁, fs, hexec, hs₁, h⟩
    rw [execFrame, execThread, Memory.el?_eq_some.mpr hel, Option.map_some,
      Option.some.injEq] at hexec
    split_ifs at hexec with hfree
    · rcases Prod.mk.inj hexec with ⟨rfl, rfl⟩
      rcases Solo.call (k := [afterTryLock i p el.ce_flags]) preserves_steady h
        (fun k' hk => absurd hk (passOver_append k' _)) hs₁ with ⟨m₂, hwork, hs₂, h⟩
      rcases table_afterTryLock hwork hm hslot hel hactive hfree with ⟨hcb, htable⟩
      exact ⟨m₂, hcb, htable, hs₂, h⟩
    · rcases Prod.mk.inj hexec with ⟨rfl, rfl⟩
      have hlocked : (el.element p).ce_locked = true := by
        simpa [Elem.element, Option.isSome_iff_ne_none] using hfree
      refine ⟨m, rfl, ?_, hs', h⟩
      rw [threadSlot, table_slot_live hslot hel]
      simp [hlocked]

/-- A complete pass of `cache_thread`. -/
lemma table_threadPass (h : Solo system t given PassOver m [.thread .lock] m')
    (hs : Steady capacity on_evict t m [.thread .lock]) :
    m'.table = threadPass m.callbacks m.table := by
  have hleave : ∀ {m}, Solo system t given PassOver m [.thread .leave] m' → m'.table = m.table := by
    intro m h
    have h := solo_next h (by simp [PassOver]) fun _ => rfl
    rcases solo_unlockCa h (by simp [PassOver]) with ⟨m₁, htable, h⟩
    rw [h.eq_of_stop (.inl rfl), htable]
    rfl
  rcases solo_lockCa h (by simp [PassOver]) hs fun _ => rfl with ⟨h, hs⟩
  have huse : m.table.ca_elements_in_use = (m.lockedBy t).ca_elements_in_use := rfl
  rw [threadPass, huse]
  rcases solo_steady h (by simp [PassOver]) hs with ⟨inp, m₁, fs, hexec, hs₁, h⟩
  simp only [execFrame, execThread] at hexec
  split_ifs at hexec with hpos
  · rcases Prod.mk.inj (Option.some.inj hexec) with ⟨rfl, rfl⟩
    rw [if_pos hpos]
    have hloop := table_loop (B := fun c i => some (threadSlot m.callbacks c i))
      (D := fun m => m'.table = m.table)
      (F := fun i m₁ => Solo system t given PassOver m₁ [.thread (.elem i)] m' ∧
        Steady capacity on_evict t m₁ [.thread (.elem i)] ∧ m₁.callbacks = m.callbacks) ?_
      ⟨h, hs₁, rfl⟩
    · rcases hloop with ⟨m₂, hfoldM, hdone⟩
      have hfold := List.foldlM_pure (m := Option) (f := threadSlot m.callbacks)
        (b := m.table) (l := List.range m.table.capacity)
      rw [hdone]
      exact Option.some.inj (hfoldM.symm.trans hfold)
    · rintro i m₁ ⟨h, hs, hcb⟩
      rcases solo_threadSlot h hs with ⟨hle, h⟩ | ⟨hlt, m₂, hcb₂, htable, hs₂, h₂⟩
      · exact .inl ⟨hle, hleave h⟩
      · refine .inr ⟨hlt, m₂, ⟨h₂, hs₂, hcb₂.trans hcb⟩, ?_, by rw [htable, hcb]⟩
        rw [hs₂.1.length, hs.1.length]
  · rcases Prod.mk.inj (Option.some.inj hexec) with ⟨rfl, rfl⟩
    rw [if_neg hpos, hleave h]
    rfl

/-! ## Calls -/

/-- The function on tables that a call of a client is, which it makes in the memory `m` and with the
`inputs`. A page that cannot grow keeps its mutex locked. -/
def TableCall {α ω : Type*} (m : Memory) (inputs : Input → Prop) (payload : ℕ → α)
    (cb : Callbacks α ω) (c c' : Table α ω) : Frame → Prop
  | .flagOp op p _ => ∃ i, m.slot i = some p ∧ op.onTable c i = some c'
  | .evict key _ => cacheElementEvict cb key c = some c'
  | .lookup key _ => c' = cacheLookup key c
  | .map _ => ∃ env blank, (mapSlot c ≠ none → Allocated inputs payload env blank) ∧
      (cacheElementMap cb env blank c).map Prod.fst = some c'
  | .sync _ => (if m.ca_flags.ready then cacheSyncLoop c else some c) = some c'
  | .disable _ => cacheDisableLoop c = some c'
  | .pgMap addr _ => c' = cacheLookup addr c ∨ inputs .grow ∧ inputs .allocFails ∧
      ∃ i, findKey addr c = some i ∧ c' = lockSlot i (cacheLookup addr c)
  | .setId p key => ∃ i el, m.slot i = some p ∧ c.slot i = some el ∧
      c' = c.setSlot i (some { el with ce_id := key })
  | .caFlagOp _ _ => c' = c
  | _ => False

lemma table_setId {key : ℕ} (h : Returns system t given m [.setId p key] m') (hm : Consistent m) :
    ∃ i el, m.slot i = some p ∧ m.table.slot i = some el ∧
      m'.table = m.table.setSlot i (some { el with ce_id := key }) := by
  rcases solo_frame h (by simp) with ⟨inp, m₁, fs, -, hexec, h⟩
  rcases Option.map_eq_some_iff.mp hexec with ⟨el, hel?, heq⟩
  rcases Prod.mk.inj heq with ⟨rfl, rfl⟩
  have hel := Memory.el?_eq_some.mp hel?
  rcases hm.slot_of_live hel with ⟨i, hslot⟩
  refine ⟨i, el.element p, hslot, table_slot_live hslot hel, ?_⟩
  rw [Returns.eq_of_nil h, table_setEl (hm.inj hslot) hslot]
  rfl

lemma table_caFlagOp {op : CaFlagOp} (h : Returns system t given m [.caFlagOp op false] m')
    (hs : Steady capacity on_evict t m [.caFlagOp op false]) : m'.table = m.table := by
  cases haccepted : op.accepted with
  | false =>
    have h := returns_next h (n := m) (l := []) fun _ => by
      simp [execFrame, execCaFlagOp, haccepted]
    rw [h.eq_of_nil]
  | true =>
    have hlock := returns_lockCa h hs (l := [.caFlagOp op true]) fun _ => by
      simp [execFrame, execCaFlagOp, haccepted]
    have h := returns_next hlock.1 fun _ => rfl
    rw [returns_unlockCa h]
    rfl

/-- A call that returns does what its function on tables does. -/
theorem table_call {f : Frame} (hentry : entry f = true) (hm : Consistent m)
    (h : Returns system t (fun _ => inputs) m [f] m') (hs : Steady capacity on_evict t m [f]) :
    TableCall m inputs id m.callbacks m.table m'.table f := by
  cases f with
  | flagOp op p pc =>
    obtain rfl : pc = .test := by simpa [entry] using hentry
    rcases solo_frame h (by simp) with ⟨inp, m₁, fs, -, hexec, -⟩
    rcases Option.map_eq_some_iff.mp hexec with ⟨el, hel?, -⟩
    have hel := Memory.el?_eq_some.mp hel?
    rcases hm.slot_of_live hel with ⟨i, hslot⟩
    exact ⟨i, hslot, table_flagOp h hm hslot⟩
  | evict key pc =>
    obtain rfl : pc = .lock := by simpa [entry] using hentry
    exact table_evict h hs
  | lookup key pc =>
    obtain rfl : pc = .lock := by simpa [entry] using hentry
    exact table_lookup h hs
  | map pc =>
    obtain rfl : pc = .lock := by simpa [entry] using hentry
    exact table_map h hs
  | sync pc =>
    obtain rfl : pc = .test := by simpa [entry] using hentry
    exact table_sync h hs
  | disable pc =>
    obtain rfl : pc = .lock := by simpa [entry] using hentry
    exact table_disable h hs
  | pgMap addr pc =>
    obtain rfl : pc = .scan 0 := by simpa [entry] using hentry
    rcases table_pgMap h hm with ⟨hkey, hsame⟩ | ⟨i, q, hkey, -, hhit⟩
    · exact .inl (by simp [cacheLookup, hkey, hsame])
    · generalize m'.table = c' at hhit
      cases hhit with
      | fits => exact .inl rfl
      | grows => exact .inl rfl
      | fails hsize _ hread => exact .inr ⟨hsize, hread, i, hkey, rfl⟩
  | caFlagOp op locked =>
    obtain rfl : locked = false := by simpa [entry] using hentry
    exact table_caFlagOp h hs
  | setId p key => exact table_setId h hm
  | evictByIdx i p locked => simp [entry] at hentry
  | work i p evict st => simp [entry] at hentry
  | thread pc => simp [entry] at hentry
  | unlockCa ret => simp [entry] at hentry

end Work

/-! ## Runs -/

section Runs

variable {capacity : ℕ} {on_evict on_flush : Bool} {as : List (Tid × Input)} {s s' : State}
  {n : ℕ} {f : Frame} {is : List Input}

lemma steady_of_run (hs : run system.step (init capacity on_evict on_flush) as = some s)
    (t : Tid) : Steady capacity on_evict t s.mem (s.stack t) := by
  have h := (holds_throughout as).of_run hs
  exact ⟨h.1, h.2 t⟩

/-- The steps of one thread, as its execution alone. -/
lemma solo_of_run {t : Tid} {k : List Frame} {given : Frame → Input → Prop}
    (stop : List Frame → Prop) (hnil : stop [])
    (hs : run system.step (init capacity on_evict on_flush) as = some s) (htop : s.stack t = k)
    (hrun : run system.step s (is.map fun i => (t, i)) = some s') (hend : stop (s'.stack t))
    (honce : Along system.step (fun s _ => ¬ stop (s.stack t)) s (is.map fun i => (t, i)))
    (hgiven : Along system.step (fun s a => ∀ f ∈ (s.stack t).head?, given f a.2) s
      (is.map fun i => (t, i))) :
    Steady capacity on_evict t s.mem k ∧ Solo system t given stop s.mem k s'.mem := by
  subst htop
  exact ⟨steady_of_run hs t, (solo_iff_run hnil).mpr ⟨is, s', hrun, rfl, hend,
    honce.and hgiven⟩⟩

/-- Each statement gets one of the inputs. -/
lemma given_inputs {t : Tid} :
    Along system.step (fun s a => ∀ f ∈ (s.stack t).head?, (fun _ => (· ∈ is)) f a.2) s
      (is.map fun i => (t, i)) := by
  refine along_of_forall fun a ha s f _ => ?_
  rcases List.mem_map.mp ha with ⟨i, hi, rfl⟩
  exact hi

/-- A full table, into which client 1 is about to map another element. -/
def secondMap : List (Tid × Input) := mapped ++ [(.client 1, .call (.map .lock))]

/-- The element that is there goes, and the new one comes into its slot. -/
def secondMapped : List Input := List.replicate 13 .go ++ [.alloc 8192 8192, .go, .go]

lemma secondMap_runs : ∃ s s',
    run system.step (init 1 true true) secondMap = some s ∧
    run system.step s (secondMapped.map fun i => (.client 1, i)) = some s' ∧
    s.mem.ca_mutex = none ∧ s.stack (.client 1) = [.map .lock] ∧ s'.stack (.client 1) = [] ∧
    Along system.step (fun s _ => s.stack (.client 1) ≠ []) s
      (secondMapped.map fun i => (.client 1, i)) :=
  exists_runs rfl

/-- The pass of the thread from any reachable state, with nobody interrupting it, is the pass over
the table. -/
theorem pass_refines_table
    (hs : run system.step (init capacity on_evict on_flush) as = some s)
    (htop : s.stack .cacheThread = [.thread .lock])
    (hrun : run system.step s (is.map fun i => (.cacheThread, i)) = some s')
    (hend : PassOver (s'.stack .cacheThread))
    (honce : Along system.step (fun s _ => ¬ PassOver (s.stack .cacheThread)) s
      (is.map fun i => (.cacheThread, i))) :
    s'.mem.table = threadPass s.mem.callbacks s.mem.table := by
  rcases solo_of_run PassOver (.inr rfl) hs htop hrun hend honce given_inputs with ⟨hsteady, halone⟩
  exact table_threadPass halone hsteady

/-- An element is dirty, and the thread about to lock `ca_mutex`. -/
def passStarted : List (Tid × Input) :=
  mapped ++ call (.client 0) (.flagOp .markDirty 4096 .test) 5 ++ steps .cacheThread 2

/-- The element is flushed. -/
def passDone : List Input := List.replicate 13 .go

lemma passStarted_runs : ∃ s s',
    run system.step (init 1 true true) passStarted = some s ∧
    run system.step s (passDone.map fun i => (.cacheThread, i)) = some s' ∧
    s.stack .cacheThread = [.thread .lock] ∧ PassOver (s'.stack .cacheThread) ∧
    Along system.step (fun s _ => ¬ PassOver (s.stack .cacheThread)) s
      (passDone.map fun i => (.cacheThread, i)) :=
  exists_runs rfl

theorem pass_refines_table_dirty : ∃ s s',
    run system.step (init 1 true true) passStarted = some s ∧
    run system.step s (passDone.map fun i => (.cacheThread, i)) = some s' ∧
    s'.mem.table = threadPass s.mem.callbacks s.mem.table := by
  rcases passStarted_runs with ⟨s, s', hs, hrun, htop, hend, honce⟩
  exact ⟨s, s', hs, hrun, pass_refines_table hs htop hrun hend honce⟩

end Runs

end KanekFs.Cache.Machine
