import KanekFs.Cache.Contract
import KanekFs.Cache.Progress
import KanekFs.Cache.Table
import KanekFs.Lib.Solo

/-!
# Calls that nobody interrupts

The cache as its clients and the thread run it concurrently, against the cache as one caller at a
time sees it: `Memory.table` is the table that a memory stands for, and a call that no other
thread interrupts does to it what the function of the same name does.

* `Memory.table` forgets the addresses; the payload of an element is its name, and the world is
  the list of the calls of the callbacks.
* `solo_next` and `solo_scan` execute one statement. An eviction is put together from
  `returns_flush` and `returns_removal`.
* There is one lemma for each function that works on one element.
-/

namespace KanekFs.Cache.Machine

open Threads Run Word

/-- A call of a callback. -/
def Event.isCall : Event → Bool
  | .flushed _ | .evicted _ => true
  | _ => false

/-- The element at `p`, with its name as the payload. -/
def Elem.element (p : ℕ) (el : Elem) : Element ℕ :=
  { ce_id := el.ce_id, ce_flags := el.ce_flags, ce_access_count := el.ce_access_count,
    ce_locked := el.ce_mutex.isSome, data := p }

/-- The table that the memory stands for. -/
def Memory.table (m : Memory) : Table ℕ (List Event) where
  ca_elements_ptr := m.ca_elements_ptr.map fun o => o.bind fun p => (m.el? p).map (Elem.element p)
  ca_elements_in_use := m.ca_elements_in_use
  world := m.log.filter Event.isCall

/-- The callbacks write down that they are called. -/
def Memory.callbacks (m : Memory) : Callbacks ℕ (List Event) where
  on_flush := if m.ca_on_flush_callback then some fun el w => .flushed el.data :: w else none
  on_evict := if m.ca_on_evict_callback then some fun el w => .evicted el.data :: w else none

section Table

variable {m m' : Memory} {t : Tid} {i j p : ℕ} {el el' : Elem} {o : Option ℕ}

lemma table_slot : m.table.slot i = (m.slot i).bind fun p => (m.el? p).map (Elem.element p) := by
  simp only [Table.slot, Memory.table, Memory.slot, List.getElem?_map]
  cases m.ca_elements_ptr[i]? with
  | none => rfl
  | some o => rfl

@[simp] lemma table_capacity : m.table.capacity = m.ca_elements_ptr.length := by
  simp [Table.capacity, Memory.table]

lemma table_slot_none (h : m.slot i = none) : m.table.slot i = none := by
  rw [table_slot, h]
  rfl

lemma table_slot_live (h : m.slot i = some p) (hel : m.heap p = .live el) :
    m.table.slot i = some (el.element p) := by
  simp [table_slot, h, Memory.el?_eq_some.mpr hel]

/-- One slot changes, and the element in it. -/
lemma table_put (hinj : ∀ j, m.slot j = some p → j = i)
    (hheap : ∀ q ≠ p, m'.heap q = m.heap q)
    (hptr : m'.ca_elements_ptr = m.ca_elements_ptr.set i o) :
    m'.table.ca_elements_ptr = m.table.ca_elements_ptr.set i
      (o.bind fun p => (m'.el? p).map (Elem.element p)) := by
  simp only [Memory.table, hptr, List.map_set]
  refine List.ext_getElem? fun j => ?_
  by_cases hj : i = j
  · subst hj
    simp only [List.getElem?_set, List.length_map, if_true]
  · rw [List.getElem?_set_ne hj, List.getElem?_set_ne hj, List.getElem?_map, List.getElem?_map]
    cases hget : m.ca_elements_ptr[j]? with
    | none => rfl
    | some o' =>
      cases o' with
      | none => rfl
      | some q =>
        have hqp : q ≠ p := by
          rintro rfl
          exact hj (hinj j (Memory.slot_eq_some.mpr hget)).symm
        simp [Memory.el?, hheap q hqp]

/-- An element of the table changes. -/
lemma table_setEl (hinj : ∀ j, m.slot j = some p → j = i) (hslot : m.slot i = some p) :
    (m.setEl p el').table = m.table.setSlot i (some (el'.element p)) := by
  have hptr : (m.setEl p el').ca_elements_ptr = m.ca_elements_ptr.set i (some p) := by
    rcases List.getElem?_eq_some_iff.mp (Memory.slot_eq_some.mp hslot) with ⟨hlt, hget⟩
    rw [← hget, List.set_getElem_self, Memory.setEl]
  have hput := table_put hinj (fun q hqp => setEl_other hqp) hptr
  have hel : (m.setEl p el').el? p = some el' := Memory.el?_eq_some.mpr setEl_self
  rw [Option.bind_some, hel, Option.map_some] at hput
  rw [Table.setSlot, ← hput]
  rfl

/-- The element of slot `i` is gone. -/
lemma table_clearSlot (hinj : ∀ j, m.slot j = some p → j = i)
    (hheap : ∀ q ≠ p, m'.heap q = m.heap q)
    (hptr : m'.ca_elements_ptr = m.ca_elements_ptr.set i none) :
    m'.table.ca_elements_ptr = m.table.ca_elements_ptr.set i none := table_put hinj hheap hptr

lemma Consistent.inj (h : Consistent m) (hslot : m.slot i = some p) :
    ∀ j, m.slot j = some p → j = i := fun _ hj => h.slot_inj hj hslot

end Table

/-! ## One statement after the other -/

section Work

variable {capacity : ℕ} {on_evict : Bool} {m m' m₁ : Memory} {t : Tid} {i p : ℕ} {el el' : Elem}
  {e : Event} {f : Frame} {fs k : List Frame} {given : Frame → Input → Prop}

/-- The statement on top, where no other call waits. -/
lemma solo_frame {stop : List Frame → Prop} (h : Solo system t given stop m [f] m')
    (hf : ¬ stop [f]) :
    ∃ inp m₁ fs, given f inp ∧ execFrame m t f inp = some (m₁, fs) ∧
      Solo system t given stop m₁ fs m' := by
  rcases h.cases_step hf with ⟨inp, m₁, fs, hinp, hexec, hrest⟩
  rw [List.append_nil] at hrest
  exact ⟨inp, m₁, fs, hinp, execFrame_of_exec hexec, hrest⟩

/-- A statement with one result only. -/
lemma solo_next {stop : List Frame → Prop} {n : Memory} {l : List Frame}
    (h : Solo system t given stop m [f] m') (hf : ¬ stop [f])
    (hnext : ∀ inp, execFrame m t f inp = some (n, l)) : Solo system t given stop n l m' := by
  rcases solo_frame h hf with ⟨inp, m₂, fs₂, -, hexec, hrest⟩
  have heq := hexec.symm.trans (hnext inp)
  rcases Prod.mk.inj (Option.some.inj heq) with ⟨rfl, rfl⟩
  exact hrest

lemma returns_next {n : Memory} {l : List Frame} (h : Returns system t given m [f] m')
    (hnext : ∀ inp, execFrame m t f inp = some (n, l)) : Returns system t given n l m' :=
  solo_next h (by simp) hnext

/-- A loop over the table comes to its end, to an empty slot, or to an element. -/
lemma solo_scan {stop : List Frame → Prop} {next done : List Frame} {r : ℕ → Result}
    (h : Solo system t given stop m [f] m') (hf : ¬ stop [f])
    (hloop : ∀ inp, execFrame m t f inp = if i < m.ca_elements_ptr.length then
        match m.slot i with
        | none => some (m, next)
        | some p => r p
      else some (m, done)) :
    (m.ca_elements_ptr.length ≤ i ∧ Solo system t given stop m done m') ∨
      (i < m.ca_elements_ptr.length ∧ m.slot i = none ∧ Solo system t given stop m next m') ∨
      ∃ p m₁ fs, m.slot i = some p ∧ r p = some (m₁, fs) ∧ Solo system t given stop m₁ fs m' := by
  rcases solo_frame h hf with ⟨inp, m₁, fs, -, hexec, hrest⟩
  rw [hloop] at hexec
  split_ifs at hexec with hlt
  · cases hslot : m.slot i with
    | none =>
      rw [hslot] at hexec
      rcases Prod.mk.inj (Option.some.inj hexec) with ⟨rfl, rfl⟩
      exact .inr (.inl ⟨hlt, rfl, hrest⟩)
    | some p =>
      rw [hslot] at hexec
      exact .inr (.inr ⟨p, m₁, fs, rfl, hexec, hrest⟩)
  · rcases Prod.mk.inj (Option.some.inj hexec) with ⟨rfl, rfl⟩
    exact .inl ⟨not_lt.mp hlt, hrest⟩

/-- What the statements keep. -/
abbrev Steady (capacity : ℕ) (on_evict : Bool) (t : Tid) (m : Memory) (k : List Frame) : Prop :=
  Inv capacity on_evict m ∧ Own m t k

lemma preserves_steady : Preserves system t (Steady capacity on_evict t) := by
  intro m f k inp m' fs hexec ⟨hinv, hown⟩
  have hsound := sound_exec hexec hinv hown
  exact ⟨hsound.inv, hsound.own⟩

lemma solo_steady {stop : List Frame → Prop} (h : Solo system t given stop m [f] m')
    (hf : ¬ stop [f]) (hs : Steady capacity on_evict t m [f]) :
    ∃ inp m₁ fs, execFrame m t f inp = some (m₁, fs) ∧ Steady capacity on_evict t m₁ fs ∧
      Solo system t given stop m₁ fs m' := by
  rcases h.cases_step hf with ⟨inp, m₁, fs, -, hexec, hrest⟩
  have hs' := preserves_steady hexec hs
  rw [List.append_nil] at hrest hs'
  exact ⟨inp, m₁, fs, execFrame_of_exec hexec, hs', hrest⟩

/-- The end of the critical section. -/
lemma solo_unlockCa {stop : List Frame → Prop} {ret : Option ℕ}
    (h : Solo system t given stop m (.unlockCa ret :: k) m') (hk : ¬ stop (.unlockCa ret :: k)) :
    ∃ m₁, m₁.table = m.table ∧ Solo system t given stop m₁ k m' := by
  rcases h.cases_step hk with ⟨inp, m₁, fs, -, hexec, hrest⟩
  rcases frames_of_map (execFrame_of_exec hexec) with ⟨hunlock, rfl⟩
  rcases Memory.unlockCa_eq_some hunlock with ⟨-, rfl⟩
  refine ⟨_, ?_, hrest⟩
  rfl

lemma returns_unlockCa {ret : Option ℕ} (h : Returns system t given m [.unlockCa ret] m') :
    m'.table = m.table := by
  rcases solo_unlockCa h (by simp) with ⟨m₁, htable, hrest⟩
  rw [Returns.eq_of_nil hrest, htable]

@[simp] lemma setEl_setEl : (m.setEl p el).setEl p el' = m.setEl p el' := by
  simp [Memory.setEl]

/-- `ca_on_flush_callback` is called. -/
def Memory.callFlush (m : Memory) (p : ℕ) : Memory :=
  if m.ca_on_flush_callback then m.emit (.flushed p) else m

/-- `ca_on_evict_callback` is called. -/
def Memory.callEvict (m : Memory) (p : ℕ) : Memory :=
  if m.ca_on_evict_callback then m.emit (.evicted p) else m

lemma setEl_callFlush : (m.setEl p el).callFlush p = (m.callFlush p).setEl p el := by
  unfold Memory.callFlush
  rw [apply_ite (fun m : Memory => m.setEl p el)]
  rfl

/-- The element after its flush. -/
def Elem.flushed (el : Elem) : Elem :=
  { el with ce_access_count := addCount el.ce_access_count
            ce_flags := { el.ce_flags with dirty := false, clean := true } }

/-- The flush of an element. -/
lemma returns_flush {evict : Bool} (h : Returns system t given m [.work i p evict .addCount] m')
    (hel : m.heap p = .live el) :
    Returns system t given ((m.callFlush p).setEl p el.flushed)
      [.work i p evict (if evict then .onEvict else .release)] m' := by
  have h := returns_next h
      (n := m.setEl p { el with ce_access_count := addCount el.ce_access_count })
      (l := [.work i p evict .flush]) fun _ => by
      simp [execFrame, execWork, Memory.addCountEl, Memory.el?_eq_some.mpr hel]
  have h := returns_next h (n := Memory.callFlush _ p) (l := [.work i p evict .clearDirty])
    fun _ => rfl
  rw [setEl_callFlush] at h
  have h := returns_next h (l := [.work i p evict .setClean]) fun _ => by
    rw [execFrame, execWork, setFlags_live setEl_self, setEl_setEl]
    rfl
  have h := returns_next h (l := [.work i p evict (if evict then .onEvict else .release)])
    fun _ => by
      rw [execFrame, execWork, setFlags_live setEl_self, setEl_setEl]
      rfl
  exact h

@[simp] lemma callFlush_heap : (m.callFlush p).heap = m.heap := by
  unfold Memory.callFlush
  split_ifs <;> rfl

@[simp] lemma callFlush_ca_elements_ptr : (m.callFlush p).ca_elements_ptr = m.ca_elements_ptr := by
  unfold Memory.callFlush
  split_ifs <;> rfl

@[simp] lemma callFlush_ca_elements_in_use :
    (m.callFlush p).ca_elements_in_use = m.ca_elements_in_use := by
  unfold Memory.callFlush
  split_ifs <;> rfl

@[simp] lemma callFlush_callbacks : (m.callFlush p).callbacks = m.callbacks := by
  unfold Memory.callFlush
  split_ifs <;> rfl

@[simp] lemma callEvict_heap : (m.callEvict p).heap = m.heap := by
  unfold Memory.callEvict
  split_ifs <;> rfl

@[simp] lemma callEvict_ca_elements_ptr : (m.callEvict p).ca_elements_ptr = m.ca_elements_ptr := by
  unfold Memory.callEvict
  split_ifs <;> rfl

@[simp] lemma callEvict_ca_elements_in_use :
    (m.callEvict p).ca_elements_in_use = m.ca_elements_in_use := by
  unfold Memory.callEvict
  split_ifs <;> rfl

@[simp] lemma setEl_callbacks : (m.setEl p el).callbacks = m.callbacks := rfl

/-- The memory after the removal of the element `p` from slot `i`. -/
def Memory.removed (m : Memory) (i p : ℕ) : Memory :=
  { m.callEvict p with
    heap := Function.update m.heap p .freed
    ca_elements_in_use := decInUse m.ca_elements_in_use
    ca_elements_ptr := m.ca_elements_ptr.set i none
    log := .freed p :: (m.callEvict p).log }

/-- The removal of an element. -/
lemma returns_removal (h : Returns system t given m [.work i p true .onEvict] m')
    (hel : m.heap p = .live el) (hheld : el.ce_mutex = some t) : m' = m.removed i p := by
  have h := returns_next h (n := m.callEvict p) (l := [.work i p true .decInUse]) fun _ => rfl
  have h := returns_next h (n := (m.callEvict p).dec) (l := [.work i p true .zeroFlags])
    fun _ => execWork_decInUse (t := t)
  have hel' : (m.callEvict p).dec.heap p = .live el := by simpa using hel
  have hheld' : ({ el with ce_flags := ElFlags.zero } : Elem).ce_mutex = some t := hheld
  have h := returns_next h (l := [.work i p true .unlock]) fun _ => by
    rw [execFrame, execWork, setFlags_live hel']
    rfl
  have h := returns_next h (l := [.work i p true .destroy]) fun _ => by
    rw [execFrame, execWork, unlockEl_held setEl_self hheld', setEl_setEl]
    rfl
  have h := returns_next h (l := [.work i p true .free]) fun _ => by
    rw [execFrame, execWork, Memory.el?_eq_some.mpr setEl_self]
    rfl
  have h := returns_next h (l := [.work i p true .clearSlot]) fun _ => by
    rw [execFrame, execWork, Memory.freeEl, Memory.el?_eq_some.mpr setEl_self]
    rfl
  have h := returns_next h (l := []) fun _ => rfl
  rw [h.eq_of_nil]
  simp [Memory.removed, Memory.setEl, Memory.dec, Memory.emit]

/-! ### What is seen in the table -/

lemma table_eq {α ω : Type*} {c c' : Table α ω} (hptr : c.ca_elements_ptr = c'.ca_elements_ptr)
    (huse : c.ca_elements_in_use = c'.ca_elements_in_use) (hworld : c.world = c'.world) :
    c = c' := by
  cases c
  cases c'
  simp_all

/-- The world after a call of `ca_on_flush_callback`. -/
lemma world_callFlush (el : Elem) :
    (m.callFlush p).table.world =
      (flushElement m.callbacks (el.element p) m.table.world).2 := by
  unfold Memory.callFlush
  cases hcall : m.ca_on_flush_callback <;>
    simp [flushElement, Memory.callbacks, hcall, Memory.table, Memory.emit, List.filter_cons,
      Event.isCall, Elem.element]

lemma table_removed {el : Element ℕ} (hdata : el.data = p)
    (hinj : ∀ j, m.slot j = some p → j = i) :
    (m.removed i p).table = dropSlot m.callbacks i el m.table.world m.table := by
  refine table_eq ?_ rfl ?_
  · exact table_clearSlot hinj
      (fun q hqp => by simp [Memory.removed, Function.update_of_ne hqp]) rfl
  · unfold Memory.removed Memory.callEvict
    cases hcall : m.ca_on_evict_callback <;>
      simp [dropSlot, Memory.callbacks, hcall, Memory.table, Memory.emit, List.filter_cons,
        Event.isCall, hdata]

/-- The flush of an element in the table. -/
lemma table_flushed (hinj : ∀ j, m.slot j = some p → j = i) (hslot : m.slot i = some p) :
    ((m.callFlush p).setEl p el.flushed).table =
      { m.table.setSlot i (some (flushElement m.callbacks (el.element p) m.table.world).1) with
        world := (flushElement m.callbacks (el.element p) m.table.world).2 } := by
  have hslot' : (m.callFlush p).slot i = some p := by simpa [Memory.slot] using hslot
  have hinj' : ∀ j, (m.callFlush p).slot j = some p → j = i := by
    simpa [Memory.slot] using hinj
  rw [table_setEl hinj' hslot']
  refine table_eq ?_ ?_ ?_
  · simp [Table.setSlot, Memory.table, Memory.el?, flushElement, Elem.flushed, Elem.element]
  · simp [Table.setSlot, Memory.table]
  · exact world_callFlush el

/-! ### Evictions -/

lemma removed_setEl : (m.setEl p el).removed i p = m.removed i p := by
  cases hcall : m.ca_on_evict_callback <;>
    simp [Memory.removed, Memory.callEvict, Memory.setEl, Memory.emit, hcall]

lemma removed_callbacks : (m.removed i p).callbacks = m.callbacks := by
  unfold Memory.removed Memory.callEvict
  split_ifs <;> rfl

lemma table_callFlush_ptr : (m.callFlush p).table.ca_elements_ptr = m.table.ca_elements_ptr := by
  simp [Memory.table, Memory.el?]

/-- The element with its mutex locked. -/
def Elem.lockedBy (t : Tid) (el : Elem) : Elem := { el with ce_mutex := some t }

lemma lockedBy_of_lockEl (h : m.lockEl t p = some m') :
    ∃ el, m.heap p = .live el ∧ el.ce_mutex = none ∧ m' = m.setEl p (el.lockedBy t) :=
  Memory.lockEl_eq_some h

/-- An eviction by the holder of the mutex, with the flush of a dirty element before it. -/
lemma table_eviction
    (h : Returns system t given (m.setEl p (el.lockedBy t))
      [.work i p true (if el.ce_flags.dirty then .addCount else .onEvict)] m')
    (hinj : ∀ j, m.slot j = some p → j = i) :
    m'.callbacks = m.callbacks ∧
      m'.table = dropSlot m.callbacks i (flushIfDirty m.callbacks (el.element p) m.table.world).1
        (flushIfDirty m.callbacks (el.element p) m.table.world).2 m.table := by
  cases hdirty : el.ce_flags.dirty with
  | true =>
    simp only [hdirty, if_true] at h
    have h := returns_removal (returns_flush h setEl_self) setEl_self rfl
    rw [setEl_callFlush, setEl_setEl, removed_setEl] at h
    subst h
    have hinj' : ∀ j, (m.callFlush p).slot j = some p → j = i := by
      simpa [Memory.slot] using hinj
    have hdata : (flushElement m.callbacks (el.element p) m.table.world).1.data = p := rfl
    have hdirty' : (el.element p).ce_flags.dirty = true := hdirty
    refine ⟨by rw [removed_callbacks, callFlush_callbacks], ?_⟩
    rw [table_removed hdata hinj', world_callFlush el, callFlush_callbacks, flushIfDirty,
      if_pos hdirty', dropSlot, dropSlot, table_callFlush_ptr]
    simp [Memory.table]
  | false =>
    simp only [hdirty, Bool.false_eq_true, if_false] at h
    have h := returns_removal h setEl_self rfl
    rw [removed_setEl] at h
    subst h
    have hdata : (el.element p).data = p := rfl
    have hclean : ¬ (el.element p).ce_flags.dirty = true := by simp [Elem.element, hdirty]
    refine ⟨removed_callbacks, ?_⟩
    rw [table_removed hdata hinj, flushIfDirty, if_neg hclean]

/-- `cache_element_evict_by_idx`. -/
lemma table_evictByIdx (h : Returns system t given m [.evictByIdx i p false] m') (hm : Consistent m)
    (hslot : m.slot i = some p) :
    m'.callbacks = m.callbacks ∧ cacheElementEvictByIdx m.callbacks i m.table = some m'.table := by
  rcases h.cases_step with ⟨inp, m₁, fs, -, hexec, h⟩
  rcases frames_of_map (execFrame_of_exec hexec) with ⟨hlock, rfl⟩
  rcases lockedBy_of_lockEl hlock with ⟨el, hel, hfree, rfl⟩
  have h := returns_next h fun _ => by
    rw [execFrame, execEvictByIdx, Memory.el?_eq_some.mpr setEl_self]
    rfl
  rcases table_eviction h (hm.inj hslot) with ⟨hcb, htable⟩
  have hunlocked : (el.element p).ce_locked = false := by simp [Elem.element, hfree]
  refine ⟨hcb, ?_⟩
  rw [cacheElementEvictByIdx, table_slot_live hslot hel, htable]
  simp [hunlocked]

/-! ### Searches -/

section Search

variable {k : ℕ} {F : ℕ → Prop} {H : ℕ → ℕ → Elem → Prop} {E : Prop}

lemma findKey_eq_some {c : Table ℕ (List Event)} {el : Element ℕ} (hel : c.slot i = some el)
    (hkey : el.ce_id = k) (hbefore : ∀ j < i, ∀ el, c.slot j = some el → el.ce_id ≠ k) :
    findKey k c = some i := by
  have hget := getElem?_of_slot hel
  rcases List.getElem?_eq_some_iff.mp hget with ⟨hlt, hget'⟩
  refine List.findIdx?_eq_some_iff_getElem.mpr ⟨hlt, by simp [hget', hkey], fun j hji => ?_⟩
  cases hj : c.ca_elements_ptr[j] with
  | none => simp
  | some el' =>
    have hslot : c.slot j = some el' := by
      simp [Table.slot, List.getElem?_eq_getElem (hji.trans hlt), hj]
    simpa using hbefore j hji el' hslot

lemma findKey_eq_none {c : Table ℕ (List Event)}
    (h : ∀ i el, c.slot i = some el → el.ce_id ≠ k) : findKey k c = none := by
  refine List.findIdx?_eq_none_iff.mpr fun o ho => ?_
  cases o with
  | none => rfl
  | some el =>
    rcases List.mem_iff_getElem?.mp ho with ⟨i, hi⟩
    simpa using h i el (Option.join_eq_some_iff.mpr hi)

/-- A search for a k that comes to slot `i` in `F i` finds the first element with the k, or
has looked at all. -/
lemma search_cases
    (hnext : ∀ i, F i → (m.ca_elements_ptr.length ≤ i ∧ E) ∨
      i < m.ca_elements_ptr.length ∧ ((m.slot i = none ∧ F (i + 1)) ∨
        ∃ p el, m.slot i = some p ∧ m.heap p = .live el ∧
          (el.ce_id = k ∧ H i p el ∨ el.ce_id ≠ k ∧ F (i + 1))))
    (h : F 0) :
    (findKey k m.table = none ∧ E) ∨ ∃ i p el, findKey k m.table = some i ∧
      m.slot i = some p ∧ m.heap p = .live el ∧ H i p el := by
  -- by induction on the slots that are left
  have hloop : ∀ n i, m.ca_elements_ptr.length = i + n → F i →
      (∀ j < i, ∀ el, m.table.slot j = some el → el.ce_id ≠ k) →
      (findKey k m.table = none ∧ E) ∨ ∃ i p el, findKey k m.table = some i ∧
        m.slot i = some p ∧ m.heap p = .live el ∧ H i p el := by
    intro n
    induction n with
    | zero =>
      intro i hlen hi hbefore
      rcases hnext i hi with ⟨-, hmiss⟩ | ⟨hlt, -⟩
      · refine .inl ⟨findKey_eq_none fun j el hj => hbefore j ?_ el hj, hmiss⟩
        have hlt := lt_capacity_of_slot hj
        rw [table_capacity] at hlt
        omega
      · omega
    | succ n ih =>
      intro i hlen hi hbefore
      -- slot `i` is behind as well
      have hgo : F (i + 1) → (∀ el, m.table.slot i = some el → el.ce_id ≠ k) →
          (findKey k m.table = none ∧ E) ∨ ∃ i p el, findKey k m.table = some i ∧
            m.slot i = some p ∧ m.heap p = .live el ∧ H i p el := by
        intro hF hi
        refine ih (i + 1) (by omega) hF fun j hj => ?_
        rcases Nat.lt_succ_iff_lt_or_eq.mp hj with hlt | rfl
        · exact hbefore j hlt
        · exact hi
      rcases hnext i hi with
        ⟨hle, -⟩ | ⟨-, ⟨hnone, hF⟩ | ⟨p, el, hp, hel, ⟨hkey, hhit⟩ | ⟨hne, hF⟩⟩⟩
      · omega
      · exact hgo hF fun el hel => by simp [table_slot_none hnone] at hel
      · exact .inr ⟨i, p, el, findKey_eq_some (table_slot_live hp hel) hkey hbefore, hp, hel, hhit⟩
      · refine hgo hF fun el' hel' => ?_
        rw [table_slot_live hp hel, Option.some.injEq] at hel'
        exact hel' ▸ hne
  exact hloop m.ca_elements_ptr.length 0 (by omega) h (by simp)

end Search

/-! ### The functions -/

/-- The memory in the critical section of `t`. -/
def Memory.lockedBy (m : Memory) (t : Tid) : Memory := { m with ca_mutex := some t }

/-- The lock of `ca_mutex`. -/
lemma solo_lockCa {stop : List Frame → Prop} (h : Solo system t given stop m [f] m')
    (hf : ¬ stop [f]) (hs : Steady capacity on_evict t m [f])
    (hlock : ∀ inp, execFrame m t f inp = (m.lockCa t).map fun m => (m, fs)) :
    Solo system t given stop (m.lockedBy t) fs m' ∧
      Steady capacity on_evict t (m.lockedBy t) fs := by
  rcases solo_steady h hf hs with ⟨inp, m₁, fs', hexec, hs', hrest⟩
  rcases frames_of_map ((hlock inp).symm.trans hexec) with ⟨hlocked, rfl⟩
  rcases Memory.lockCa_eq_some hlocked with ⟨-, rfl⟩
  exact ⟨hrest, hs'⟩

lemma returns_lockCa {l : List Frame} (h : Returns system t given m [f] m')
    (hs : Steady capacity on_evict t m [f])
    (hlock : ∀ inp, execFrame m t f inp = (m.lockCa t).map fun m => (m, l)) :
    Returns system t given (m.lockedBy t) l m' ∧ Steady capacity on_evict t (m.lockedBy t) l :=
  solo_lockCa h (by simp) hs hlock

/-- The call of `cache_element_evict_by_idx`. -/
lemma returns_evictByIdx (h : Returns system t given m (.evictByIdx i p false :: k) m')
    (hs : Steady capacity on_evict t m (.evictByIdx i p false :: k)) :
    ∃ m₁, cacheElementEvictByIdx m.callbacks i m.table = some m₁.table ∧
      Steady capacity on_evict t m₁ k ∧ Returns system t given m₁ k m' := by
  rcases Returns.call (k := [.evictByIdx i p false]) preserves_steady h hs with
    ⟨m₁, hev, hs₁, h₁⟩
  exact ⟨m₁, (table_evictByIdx hev hs.2.2.1.1 hs.2.2.1.2.1).2, hs₁, h₁⟩

/-- `cache_element_evict`. -/
lemma table_evict {key : ℕ} (h : Returns system t given m [.evict key .lock] m')
    (hs : Steady capacity on_evict t m [.evict key .lock]) :
    cacheElementEvict m.callbacks key m.table = some m'.table := by
  rcases returns_lockCa h hs fun _ => rfl with ⟨h, hs⟩
  have hm : Consistent (m.lockedBy t) := hs.2.2.1 rfl
  have hfind := search_cases (m := m.lockedBy t)
    (F := fun i => Returns system t given (m.lockedBy t) [.evict key (.scan i)] m')
    (k := key) (E := m'.table = (m.lockedBy t).table)
    (H := fun i p _ => cacheElementEvictByIdx m.callbacks i m.table = some m'.table) ?_ h
  · change cacheElementEvict m.callbacks key (m.lockedBy t).table = some m'.table
    rcases hfind with ⟨hkey, hmiss⟩ | ⟨i, p, el, hkey, -, -, hev⟩
    · simp only [cacheElementEvict, hkey, hmiss]
    · simp only [cacheElementEvict, hkey]
      exact hev
  intro i hi
  rcases solo_scan hi (by simp) fun _ => rfl with
    ⟨hle, h⟩ | ⟨hlt, hnone, h⟩ | ⟨p, m₁, fs, hslot, hexec, h⟩
  · exact .inl ⟨hle, returns_unlockCa h⟩
  · exact .inr ⟨hlt, .inl ⟨hnone, h⟩⟩
  · rcases hm.live hslot with ⟨el, hel, -⟩
    rw [Memory.el?_eq_some.mpr hel, Option.map_some, Option.some.injEq, Prod.mk.injEq] at hexec
    rcases hexec with ⟨rfl, rfl⟩
    refine .inr ⟨?_, .inr ⟨p, el, hslot, hel, ?_⟩⟩
    · exact (List.getElem?_eq_some_iff.mp (Memory.slot_eq_some.mp hslot)).1
    by_cases hkey : el.ce_id = key
    · rw [if_pos hkey] at h
      have hown : Own (m.lockedBy t) t [.evictByIdx i p false, .unlockCa none] :=
        own_in rfl ⟨hm, hslot, by simp⟩ (.inl rfl) rfl
      rcases returns_evictByIdx h ⟨hs.1, hown⟩ with ⟨m₂, hev, -, h⟩
      rw [← returns_unlockCa h] at hev
      exact .inl ⟨hkey, hev⟩
    · rw [if_neg hkey] at h
      exact .inr ⟨hkey, h⟩

/-- The element that a search finds is used once more. -/
def Elem.used (el : Elem) : Elem := { el with ce_access_count := addCount el.ce_access_count }

lemma cacheLookup_hit {key : ℕ} (hkey : findKey key m.table = some i) (hm : Consistent m)
    (hslot : m.slot i = some p) (hel : m.heap p = .live el) :
    cacheLookup key m.table = (m.setEl p el.used).table := by
  rw [table_setEl (hm.inj hslot) hslot]
  simp only [cacheLookup, hkey, table_slot_live hslot hel]
  rfl

lemma lt_length_of_slot (hslot : m.slot i = some p) : i < m.ca_elements_ptr.length :=
  (List.getElem?_eq_some_iff.mp (Memory.slot_eq_some.mp hslot)).1

/-- `cache_lookup`. -/
lemma table_lookup {key : ℕ} (h : Returns system t given m [.lookup key .lock] m')
    (hs : Steady capacity on_evict t m [.lookup key .lock]) :
    m'.table = cacheLookup key m.table := by
  rcases returns_lockCa h hs fun _ => rfl with ⟨h, hs⟩
  have hm : Consistent (m.lockedBy t) := hs.2.2.1 rfl
  have hfind := search_cases (m := m.lockedBy t)
    (F := fun i => Returns system t given (m.lockedBy t) [.lookup key (.scan i)] m')
    (k := key) (E := m'.table = (m.lockedBy t).table)
    (H := fun i p el => m'.table = ((m.lockedBy t).setEl p el.used).table) ?_ h
  · change m'.table = cacheLookup key (m.lockedBy t).table
    rcases hfind with ⟨hkey, hmiss⟩ | ⟨i, p, el, hkey, hslot, hel, hhit⟩
    · simp only [cacheLookup, hkey, hmiss]
    · rw [cacheLookup_hit hkey hm hslot hel, hhit]
  intro i hi
  rcases solo_scan hi (by simp) fun _ => rfl with
    ⟨hle, h⟩ | ⟨hlt, hnone, h⟩ | ⟨p, m₁, fs, hslot, hexec, h⟩
  · exact .inl ⟨hle, returns_unlockCa h⟩
  · exact .inr ⟨hlt, .inl ⟨hnone, h⟩⟩
  · rcases hm.live hslot with ⟨el, hel, -⟩
    rw [Memory.el?_eq_some.mpr hel, Option.map_some, Option.some.injEq] at hexec
    refine .inr ⟨lt_length_of_slot hslot, .inr ⟨p, el, hslot, hel, ?_⟩⟩
    split_ifs at hexec with hkey
    · rcases Prod.mk.inj hexec with ⟨rfl, rfl⟩
      exact .inl ⟨hkey, returns_unlockCa h⟩
    · rcases Prod.mk.inj hexec with ⟨rfl, rfl⟩
      exact .inr ⟨hkey, h⟩

/-- What a page that has to grow leaves behind: its mutex is locked when the memory runs out. -/
def lockSlot {α ω : Type*} (i : ℕ) (c : Table α ω) : Table α ω :=
  match c.slot i with
  | some el => c.setSlot i (some { el with ce_locked := true })
  | none => c

/-- How `pgcache_element_map` ends for the element at `p`, which is in slot `i`, as the inputs have
it: the page is large enough, it grows, or it cannot grow. -/
inductive PgMapHit (given : Frame → Input → Prop) (addr p i : ℕ) (c : Table ℕ (List Event)) :
    Table ℕ (List Event) → Prop
  | fits {inp} (hsize : given (.pgMap addr (.size p)) inp) (hfits : inp ≠ .grow) :
    PgMapHit given addr p i c c
  | grows {inp} (hsize : given (.pgMap addr (.size p)) .grow)
    (hfree : ∀ el, c.slot i = some el → el.ce_locked = false)
    (hread : given (.pgMap addr (.growRead p)) inp) (hworks : inp ≠ .allocFails) :
    PgMapHit given addr p i c c
  | fails (hsize : given (.pgMap addr (.size p)) .grow)
    (hfree : ∀ el, c.slot i = some el → el.ce_locked = false)
    (hread : given (.pgMap addr (.growRead p)) .allocFails) :
    PgMapHit given addr p i c (lockSlot i c)

/-- The end of the hit of `pgcache_element_map`. -/
lemma table_pgMap_size {addr : ℕ} (h : Returns system t given m [.pgMap addr (.size p)] m')
    (hm : Consistent m) (hslot : m.slot i = some p) : PgMapHit given addr p i m.table m'.table := by
  have hret : ∀ {m r}, Returns system t given m [.pgMap addr (.ret r)] m' → m' = m := fun h =>
    (returns_next h (l := []) fun _ => rfl).eq_of_nil
  rcases solo_frame h (by simp) with ⟨inp, m₁, fs, hsize, hexec, h⟩
  have hcases : (inp = .grow ∧ m₁ = m ∧ fs = [.pgMap addr (.growLock p)]) ∨
      (inp ≠ .grow ∧ m₁ = m ∧ fs = [.pgMap addr (.ret (some p))]) := by
    cases inp with
    | grow => exact .inl ⟨rfl, by simpa [execFrame, execPgMap, eq_comm] using hexec⟩
    | _ => exact .inr ⟨by simp, by simpa [execFrame, execPgMap, eq_comm] using hexec⟩
  rcases hcases with ⟨rfl, rfl, rfl⟩ | ⟨hfits, rfl, rfl⟩
  · rcases solo_frame h (by simp) with ⟨inp, m₂, fs, -, hexec, h⟩
    rcases frames_of_map hexec with ⟨hlock, rfl⟩
    rcases lockedBy_of_lockEl hlock with ⟨el, hel, hunlocked, rfl⟩
    have hslot' : m₁.table.slot i = some (el.element p) := table_slot_live hslot hel
    have hfree : ∀ e, m₁.table.slot i = some e → e.ce_locked = false := by
      intro e he
      rw [hslot', Option.some.injEq] at he
      simp [← he, Elem.element, hunlocked]
    rcases solo_frame h (by simp) with ⟨inp, m₂, fs, hread, hexec, h⟩
    have hcases : (inp = .allocFails ∧ m₂ = m₁.setEl p (el.lockedBy t) ∧
          fs = [.pgMap addr (.ret none)]) ∨
        (inp ≠ .allocFails ∧ m₂ = m₁.setEl p (el.lockedBy t) ∧
          fs = [.pgMap addr (.growUnlock p)]) := by
      cases inp with
      | allocFails => exact .inl ⟨rfl, by simpa [execFrame, execPgMap, eq_comm] using hexec⟩
      | _ =>
        refine .inr ⟨by simp, ?_⟩
        simpa [execFrame, execPgMap, Memory.el?_eq_some.mpr setEl_self, eq_comm] using hexec
    rcases hcases with ⟨rfl, rfl, rfl⟩ | ⟨hworks, rfl, rfl⟩
    · have hlocked : m'.table = lockSlot i m₁.table := by
        rw [hret h, table_setEl (hm.inj hslot) hslot, lockSlot, hslot']
        rfl
      rw [hlocked]
      exact .fails hsize hfree hread
    · have h := returns_next h (l := [.pgMap addr (.ret (some p))]) fun _ => by
        rw [execFrame, execPgMap, unlockEl_held setEl_self rfl, setEl_setEl]
        rfl
      have hsame : m'.table = m₁.table := by
        rw [hret h, table_setEl (hm.inj hslot) hslot]
        refine setSlot_slot ?_
        rw [hslot']
        simp [Elem.element, Elem.lockedBy, hunlocked]
      rw [hsame]
      exact .grows hsize hfree hread hworks
  · rw [hret h]
    exact .fits hsize hfits

/-- The search of `pgcache_element_map`, and its hit. -/
lemma table_pgMap {addr : ℕ} (h : Returns system t given m [.pgMap addr (.scan 0)] m')
    (hm : Consistent m) :
    (findKey addr m.table = none ∧ m'.table = m.table) ∨
      ∃ i p, findKey addr m.table = some i ∧ m.slot i = some p ∧
        PgMapHit given addr p i (cacheLookup addr m.table) m'.table := by
  have hfind := search_cases (m := m)
    (F := fun i => Returns system t given m [.pgMap addr (.scan i)] m')
    (k := addr) (E := m' = m)
    (H := fun i p el => PgMapHit given addr p i (m.setEl p el.used).table m'.table) ?_ h
  · rcases hfind with ⟨hkey, rfl⟩ | ⟨i, p, el, hkey, hslot, hel, hhit⟩
    · exact .inl ⟨hkey, rfl⟩
    · refine .inr ⟨i, p, hkey, hslot, ?_⟩
      rwa [cacheLookup_hit hkey hm hslot hel]
  intro i hi
  rcases solo_scan hi (by simp) fun _ => rfl with
    ⟨hle, h⟩ | ⟨hlt, hnone, h⟩ | ⟨p, m₁, fs, hslot, hexec, h⟩
  · exact .inl ⟨hle, Returns.eq_of_nil h⟩
  · exact .inr ⟨hlt, .inl ⟨hnone, h⟩⟩
  · rcases Prod.mk.inj (Option.some.inj hexec) with ⟨rfl, rfl⟩
    rcases hm.live hslot with ⟨el, hel, hactive⟩
    have h := returns_next h fun _ => by
      rw [execFrame, execPgMap, Memory.el?_eq_some.mpr hel]
      rfl
    refine .inr ⟨lt_length_of_slot hslot, .inr ⟨p, el, hslot, hel, ?_⟩⟩
    by_cases hkey : el.ce_id = addr
    · rw [if_pos hkey] at h
      have h := returns_next h (n := m.setEl p el.used) fun _ => by
        rw [execFrame, execPgMap, Memory.addCountEl, Memory.el?_eq_some.mpr hel]
        rfl
      have hm' : Consistent (m.setEl p el.used) := consistent_setEl hm hel rfl
      exact .inl ⟨hkey, table_pgMap_size h hm' hslot⟩
    · rw [if_neg hkey] at h
      exact .inr ⟨hkey, h⟩

/-- The function on tables that `op` is. -/
def FlagOp.onTable {α ω : Type*} (c : Table α ω) (i : ℕ) : FlagOp → Option (Table α ω)
  | .markDirty => cacheElementMarkDirty i c
  | .markEviction => cacheElementMarkEviction i c
  | .pin => cacheElementPin i c
  | .markUnpin => cacheElementMarkUnpin i c

/-- The assignments of `op`. -/
def FlagOp.result : FlagOp → ElFlags → ElFlags
  | .markDirty, f => { f with dirty := true, clean := false }
  | op, f => op.assign f

lemma onTable_eq {α ω : Type*} {op : FlagOp} {c : Table α ω} :
    op.onTable c i = markFlags op.result i c := by
  cases op <;> rfl

/-- The mutex is unlocked, and the call has returned. -/
lemma returns_unlockEl {op : FlagOp}
    (h : Returns system t given (m.setEl p (el.lockedBy t)) [.flagOp op p .unlock] m')
    (hfree : el.ce_mutex = none) : m'.table = (m.setEl p el).table := by
  have hel : ({ el.lockedBy t with ce_mutex := none } : Elem) = el := by
    cases el
    simp_all [Elem.lockedBy]
  have h := returns_next h fun _ => by
    rw [execFrame, execFlagOp, unlockEl_held setEl_self rfl, setEl_setEl, hel]
    rfl
  rw [h.eq_of_nil]
  split_ifs <;> rfl

/-- `cache_element_mark_dirty` and its kin. -/
lemma table_flagOp {op : FlagOp} (h : Returns system t given m [.flagOp op p .test] m')
    (hm : Consistent m) (hslot : m.slot i = some p) : op.onTable m.table i = some m'.table := by
  rcases hm.live hslot with ⟨el, hel, hactive⟩
  have h := returns_next h (n := m) (l := [.flagOp op p .lock]) fun _ => by
    simp [execFrame, execFlagOp, Memory.el?_eq_some.mpr hel, hactive]
  rcases solo_frame h (by simp) with ⟨inp, m₁, fs, -, hexec, h⟩
  rcases frames_of_map hexec with ⟨hlock, rfl⟩
  rcases lockedBy_of_lockEl hlock with ⟨el', hel', hfree, rfl⟩
  obtain rfl := live_inj hel hel'
  have hresult : m'.table =
      (m.setEl p { el with ce_flags := op.result el.ce_flags }).table := by
    have h := returns_next h fun _ => by
      rw [execFrame, execFlagOp, setFlags_live setEl_self, setEl_setEl]
      rfl
    by_cases hop : op = .markDirty
    · rw [if_pos hop] at h
      subst hop
      have h := returns_next h fun _ => by
        rw [execFrame, execFlagOp, setFlags_live setEl_self, setEl_setEl]
        rfl
      exact returns_unlockEl h hfree
    · rw [if_neg hop] at h
      have heq : op.result el.ce_flags = op.assign el.ce_flags := by
        cases op <;> first | rfl | exact absurd rfl hop
      rw [heq]
      exact returns_unlockEl h hfree
  rw [onTable_eq, markFlags, table_slot_live hslot hel, hresult,
    table_setEl (hm.inj hslot) hslot]
  simp [Elem.element, hactive, hfree]

end Work

end KanekFs.Cache.Machine
