import KanekFs.Cache.Machine
import Mathlib.Data.List.ReduceOption

/-!
# What the mutexes of the cache protect

`ca_mutex` protects the table and its counter, `ce_mutex` the flags of one element. Whoever holds
one of them may break what it protects, and has to put it right before the unlock.

* `Consistent` is what holds of the cache whenever `ca_mutex` is free: the counter counts the
  entries, no element has two of them, the elements in the table are the live ones, all of them
  are active, and none of them has been passed to `ca_on_evict_callback`.
* `Inv` holds always. The flags of an element whose mutex is free are in order, and the callbacks
  called so far keep their discipline.
* `Pre` says what a statement relies on, `Caller` which calls can wait for a call, and `Own` puts
  them together for a thread. Three paths remove elements, with one removal (`execWork`) each goes
  through: at its statements the cache is `Consistent` as it will be when the removal is over.
-/

namespace KanekFs.Cache.Machine

open Threads Run Word

/-! ## The table -/

/-- The elements in the table. -/
def Memory.entries (m : Memory) : List ℕ := m.ca_elements_ptr.reduceOption

section Entries

variable {l : List (Option ℕ)} {i p : ℕ}

/-- An entry is filled. -/
lemma reduceOption_set_some (h : l[i]? = some none) :
    (l.set i (some p)).reduceOption.Perm (p :: l.reduceOption) := by
  induction l generalizing i with
  | nil => simp at h
  | cons a l ih =>
    cases i with
    | zero =>
      obtain rfl : a = none := by simpa using h
      simp
    | succ i =>
      have hperm := ih (i := i) (by simpa using h)
      cases a with
      | none => simpa using hperm
      | some q => simpa using (hperm.cons q).trans (List.Perm.swap p q _)

/-- An entry is cleared. -/
lemma reduceOption_set_none (h : l[i]? = some (some p)) :
    l.reduceOption.Perm (p :: (l.set i none).reduceOption) := by
  have hlt : i < l.length := (List.getElem?_eq_some_iff.mp h).1
  have hset : (l.set i none).set i (some p) = l := by
    rw [List.set_set]
    exact List.ext_getElem? fun j => by
      by_cases hj : i = j
      · subst hj
        simp [List.getElem?_set_self hlt, h]
      · simp [List.getElem?_set_ne hj]
  simpa [hset] using reduceOption_set_some (l := l.set i none) (p := p) (i := i)
    (by simp [List.getElem?_set_self hlt])

end Entries

lemma Memory.slot_eq_some {m : Memory} {i p : ℕ} :
    m.slot i = some p ↔ m.ca_elements_ptr[i]? = some (some p) := by
  simp [Memory.slot, Option.join_eq_some_iff]

lemma Memory.mem_entries {m : Memory} {p : ℕ} : p ∈ m.entries ↔ ∃ i, m.slot i = some p := by
  rw [Memory.entries, List.reduceOption_mem_iff, List.mem_iff_getElem?]
  simp [Memory.slot_eq_some]

/-! ## The elements -/

/-- An active element is dirty or clean. -/
def FlagsOk (f : ElFlags) : Prop := f.active = true → f.dirty ≠ f.clean

/-- What of a cell only the holder of `ca_mutex` changes: whether there is an element, and whether
it is active. -/
def Cell.shape : Cell → Option (Option Bool)
  | .unused => none
  | .freed => some none
  | .live el => some (some el.ce_flags.active)

lemma Cell.shape_eq_live {c : Cell} {b : Bool} :
    c.shape = some (some b) ↔ ∃ el, c = .live el ∧ el.ce_flags.active = b := by
  cases c <;> simp [Cell.shape]

lemma Cell.shape_eq_freed {c : Cell} : c.shape = some none ↔ c = .freed := by
  cases c <;> simp [Cell.shape]

/-- What holds of the cache when `ca_mutex` is free. -/
structure Consistent (m : Memory) : Prop where
  count : m.ca_elements_in_use = u32 m.entries.length
  nodup : m.entries.Nodup
  mem : ∀ p, p ∈ m.entries ↔ (m.heap p).shape = some (some true)
  active : ∀ p, (m.heap p).shape ≠ some (some false)
  evicted : ∀ p, .evicted p ∈ m.log → m.heap p = .freed

/-- The memory as it will be when the element `p` is removed from slot `i`. -/
def Memory.without (m : Memory) (i p : ℕ) : Memory :=
  { m with heap := Function.update m.heap p .freed
           ca_elements_ptr := m.ca_elements_ptr.set i none }

/-- The memory as it was before `p` was allocated. -/
def Memory.unmapped (m : Memory) (p : ℕ) : Memory :=
  { m with heap := Function.update m.heap p .unused }

/-- `ca_elements_in_use--`. -/
def Memory.dec (m : Memory) : Memory :=
  { m with ca_elements_in_use := decInUse m.ca_elements_in_use }

section Consistent

variable {m m' : Memory} {i p : ℕ} {el : Elem}

/-- Another memory with the same table and elements of the same shape. -/
lemma Consistent.congr (h : Consistent m) (hptr : m'.ca_elements_ptr = m.ca_elements_ptr)
    (huse : m'.ca_elements_in_use = m.ca_elements_in_use)
    (hshape : ∀ p, (m'.heap p).shape = (m.heap p).shape)
    (hlog : ∀ p, .evicted p ∈ m'.log → .evicted p ∈ m.log) : Consistent m' where
  count := by simpa [Memory.entries, hptr, huse] using h.count
  nodup := by simpa [Memory.entries, hptr] using h.nodup
  mem p := by simpa [Memory.entries, hptr, hshape] using h.mem p
  active p := by simpa [hshape] using h.active p
  evicted p hp := by
    have hfreed := h.evicted p (hlog p hp)
    rwa [← Cell.shape_eq_freed, hshape, Cell.shape_eq_freed]

/-- An element in the table is live and active. -/
lemma Consistent.live (h : Consistent m) (hslot : m.slot i = some p) :
    ∃ el, m.heap p = .live el ∧ el.ce_flags.active = true :=
  Cell.shape_eq_live.mp ((h.mem p).mp (Memory.mem_entries.mpr ⟨i, hslot⟩))

lemma Consistent.slot_of_live (h : Consistent m) (hel : m.heap p = .live el) :
    ∃ i, m.slot i = some p := by
  refine Memory.mem_entries.mp ((h.mem p).mpr ?_)
  cases hactive : el.ce_flags.active with
  | true => simp [hel, Cell.shape, hactive]
  | false => exact absurd (by simp [hel, Cell.shape, hactive]) (h.active p)

lemma Consistent.active_of_live (h : Consistent m) (hel : m.heap p = .live el) :
    el.ce_flags.active = true := by
  rcases h.slot_of_live hel with ⟨i, hslot⟩
  rcases h.live hslot with ⟨el', hel', hactive⟩
  exact live_inj hel hel' ▸ hactive

lemma Consistent.not_evicted (h : Consistent m) (hel : m.heap p = .live el) :
    .evicted p ∉ m.log := by
  intro hp
  simp [h.evicted p hp] at hel

/-- The table has room for the count. -/
lemma entries_length_le : m.entries.length ≤ m.ca_elements_ptr.length :=
  List.reduceOption_length_le _

lemma entries_without : (m.without i p).entries = (m.ca_elements_ptr.set i none).reduceOption := by
  rw [Memory.entries, Memory.without]

@[simp] lemma dec_ca_elements_ptr : m.dec.ca_elements_ptr = m.ca_elements_ptr := by
  rw [Memory.dec]

@[simp] lemma dec_heap : m.dec.heap = m.heap := by rw [Memory.dec]

@[simp] lemma dec_ca_mutex : m.dec.ca_mutex = m.ca_mutex := by rw [Memory.dec]

@[simp] lemma dec_callback : m.dec.ca_on_evict_callback = m.ca_on_evict_callback := by
  rw [Memory.dec]

@[simp] lemma dec_slot : m.dec.slot i = m.slot i := by simp [Memory.slot]

@[simp] lemma dec_log : m.dec.log = m.log := by rw [Memory.dec]

/-- A removal: the counter goes down, the element is freed and its entry cleared. The callback
may have been called. -/
theorem Consistent.removed (h : Consistent m) (hslot : m.slot i = some p)
    (hptr : m'.ca_elements_ptr = m.ca_elements_ptr)
    (huse : m'.ca_elements_in_use = decInUse m.ca_elements_in_use)
    (hheap : m'.heap = m.heap)
    (hlog : ∀ q, .evicted q ∈ m'.log → q = p ∨ .evicted q ∈ m.log) :
    Consistent (m'.without i p) := by
  have hperm : m.entries.Perm (p :: (m.ca_elements_ptr.set i none).reduceOption) :=
    reduceOption_set_none (Memory.slot_eq_some.mp hslot)
  have hnodup := List.nodup_cons.mp (hperm.nodup_iff.mp h.nodup)
  have hcount := h.count
  rw [hperm.length_eq, List.length_cons] at hcount
  constructor
  · -- one entry fewer, and the counter one less
    rw [entries_without, hptr]
    simp only [Memory.without]
    rw [huse, hcount, decInUse_u32]
  · rw [entries_without, hptr]
    exact hnodup.2
  · intro q
    rw [entries_without, hptr]
    have hq := h.mem q
    by_cases hqp : q = p
    · subst hqp
      simpa [Memory.without, Cell.shape] using hnodup.1
    · rw [hperm.mem_iff] at hq
      simpa [Memory.without, hheap, Function.update_of_ne hqp, hqp] using hq
  · intro q
    by_cases hqp : q = p
    · subst hqp
      simp [Memory.without, Cell.shape]
    · simpa [Memory.without, hheap, Function.update_of_ne hqp] using h.active q
  · intro q hq
    by_cases hqp : q = p
    · subst hqp
      simp [Memory.without]
    · have hold := (hlog q hq).resolve_left hqp
      simpa [Memory.without, hheap, Function.update_of_ne hqp] using h.evicted q hold

/-- A new element is published in an empty slot. -/
theorem Consistent.published (h : Consistent (m.unmapped p)) (hel : m.heap p = .live el)
    (hactive : el.ce_flags.active = true) (hslot : m.ca_elements_ptr[i]? = some none) :
    Consistent { m with ca_elements_in_use := incInUse m.ca_elements_in_use
                        ca_elements_ptr := m.ca_elements_ptr.set i (some p) } := by
  have hperm := reduceOption_set_some (p := p) hslot
  have hnew : p ∉ m.entries := by
    intro hp
    have hshape := (h.mem p).mp hp
    simp [Memory.unmapped, Cell.shape] at hshape
  constructor
  · have hcount : m.ca_elements_in_use = u32 m.entries.length := h.count
    simp only [Memory.entries] at hcount ⊢
    rw [hcount, hperm.length_eq, List.length_cons, incInUse_u32]
  · exact hperm.nodup_iff.mpr (List.nodup_cons.mpr ⟨hnew, h.nodup⟩)
  · intro q
    simp only [Memory.entries]
    rw [hperm.mem_iff, List.mem_cons]
    by_cases hqp : q = p
    · subst hqp
      simp [hel, Cell.shape, hactive]
    · have hq := h.mem q
      simpa [Memory.unmapped, Memory.entries, Function.update_of_ne hqp, hqp] using hq
  · intro q
    by_cases hqp : q = p
    · subst hqp
      simp [hel, Cell.shape, hactive]
    · simpa [Memory.unmapped, Function.update_of_ne hqp] using h.active q
  · intro q hq
    have hfreed := h.evicted q hq
    by_cases hqp : q = p
    · subst hqp
      simp [Memory.unmapped] at hfreed
    · simpa [Memory.unmapped, Function.update_of_ne hqp] using hfreed

end Consistent

/-! ## The discipline of the callbacks -/

/-- After `ca_on_evict_callback` was called for an element neither callback is called for it. The
log has the newest event first. -/
def Disciplined (log : List Event) : Prop :=
  ∀ l₁ l₂ p, log = l₁ ++ .evicted p :: l₂ → .evicted p ∉ l₁ ∧ .flushed p ∉ l₁

lemma disciplined_nil : Disciplined [] := by
  intro l₁ l₂ p h
  simp at h

/-- One more event: a call of a callback is the only one that can break the discipline. -/
lemma Disciplined.cons {e : Event} {log : List Event} (h : Disciplined log)
    (he : ∀ p, e = .evicted p ∨ e = .flushed p → .evicted p ∉ log) : Disciplined (e :: log) := by
  intro l₁ l₂ p hl
  cases l₁ with
  | nil => simp
  | cons e' l₁ =>
    rcases List.cons.inj hl with ⟨rfl, rfl⟩
    rcases h l₁ l₂ p rfl with ⟨hevicted, hflushed⟩
    simp only [List.mem_cons, not_or]
    refine ⟨⟨?_, hevicted⟩, ?_, hflushed⟩
    · intro heq
      exact he p (.inl heq.symm) (by simp)
    · intro heq
      exact he p (.inr heq.symm) (by simp)

/-- The callback is called at most once for an element. -/
lemma Disciplined.count_le {log : List Event} (h : Disciplined log) (p : ℕ) :
    log.count (.evicted p) ≤ 1 := by
  by_cases hp : .evicted p ∈ log
  · rcases List.append_of_mem hp with ⟨l₁, l₂, rfl⟩
    have hfirst := (h l₁ l₂ p rfl).1
    have hrest : .evicted p ∉ l₂ := by
      intro hmem
      rcases List.append_of_mem hmem with ⟨l₃, l₄, rfl⟩
      exact (h (l₁ ++ .evicted p :: l₃) l₄ p (by simp)).1 (by simp)
    simp [List.count_append, List.count_eq_zero_of_not_mem hfirst,
      List.count_eq_zero_of_not_mem hrest]
  · simp [List.count_eq_zero_of_not_mem hp]

/-! ## The outline -/

/-- What holds in every state. -/
structure Inv (capacity : ℕ) (on_evict : Bool) (m : Memory) : Prop where
  length : m.ca_elements_ptr.length = capacity
  callback : m.ca_on_evict_callback = on_evict
  idle : m.ca_mutex = none → Consistent m
  flags : ∀ p el, m.heap p = .live el → el.ce_mutex = none → FlagsOk el.ce_flags
  disciplined : Disciplined m.log
  freed : on_evict = true → ∀ p, m.heap p = .freed → .evicted p ∈ m.log

/-- The call is between its lock and its unlock of `ca_mutex`. -/
def Frame.inCa : Frame → Bool
  | .evictByIdx _ _ _ | .work _ _ _ _ | .unlockCa _ => true
  | .evict _ (.scan _) | .lookup _ (.scan _) => true
  | .map .find | .map (.lru _ _) | .map (.malloc _) | .map (.publish _ _) => true
  | .sync (.scan _) | .sync .setLoop | .sync (.clear _) => true
  | .disable (.scan _) | .disable .setExit => true
  | .caFlagOp _ locked => locked
  | .thread .enter | .thread (.elem _) | .thread (.read _ _) | .thread (.tryLock _ _ _)
  | .thread .leave => true
  | _ => false

/-- The mutex of `p` is held by `t`, and its flags are in order. -/
def HeldOk (m : Memory) (t : Tid) (p : ℕ) : Prop :=
  OnElem m p fun el => el.ce_mutex = some t ∧ FlagsOk el.ce_flags

/-- The evict callback, if there is one, was called for `p`. -/
def Called (m : Memory) (p : ℕ) : Prop := m.ca_on_evict_callback = true → .evicted p ∈ m.log

/-- What the work on the element `p` of slot `i` relies on at each of its statements. -/
def WorkPre (m : Memory) (t : Tid) (i p : ℕ) (evict : Bool) : Stage → Prop
  | .addCount | .flush | .clearDirty => Consistent m ∧ HeldOk m t p
  | .setClean => Consistent m ∧
      OnElem m p fun el => el.ce_mutex = some t ∧ el.ce_flags.dirty = false
  | .onEvict => Consistent m ∧ HeldOk m t p ∧ evict = true
  | .release => Consistent m ∧ HeldOk m t p ∧ evict = false
  -- the removal has begun
  | .decInUse => Consistent (m.dec.without i p) ∧
      (∃ el, m.heap p = .live el ∧ el.ce_mutex = some t) ∧ Called m p ∧ evict = true
  | .zeroFlags => Consistent (m.without i p) ∧
      (∃ el, m.heap p = .live el ∧ el.ce_mutex = some t) ∧ Called m p ∧ evict = true
  | .unlock => Consistent (m.without i p) ∧
      (∃ el, m.heap p = .live el ∧ el.ce_mutex = some t ∧ el.ce_flags.active = false) ∧
      Called m p ∧ evict = true
  | .destroy | .free => Consistent (m.without i p) ∧
      (∃ el, m.heap p = .live el ∧ el.ce_flags.active = false) ∧ Called m p ∧ evict = true
  | .clearSlot => Consistent (m.without i p) ∧ m.heap p = .freed ∧ evict = true

/-- What a statement relies on when it is the next one. -/
def Pre (m : Memory) (t : Tid) : Frame → Prop
  | .flagOp _ p .assign | .flagOp _ p .unlock => HeldOk m t p
  | .flagOp _ p .clearClean =>
    OnElem m p fun el => el.ce_mutex = some t ∧ el.ce_flags.dirty = true
  | .pgMap _ (.growRead p) | .pgMap _ (.growUnlock p) => HeldOk m t p
  | .evictByIdx i p locked =>
    Consistent m ∧ m.slot i = some p ∧ (locked = true → HeldOk m t p)
  | .work i p evict st => m.slot i = some p ∧ WorkPre m t i p evict st
  | .map (.malloc sub) => Consistent m ∧ m.ca_elements_ptr[sub]? = some none
  | .map (.publish sub p) => Consistent (m.unmapped p) ∧
      (∃ el, m.heap p = .live el ∧ el.ce_flags.active = true) ∧ m.ca_elements_ptr[sub]? = some none
  | .thread (.read i p) | .thread (.tryLock i p _) => Consistent m ∧ m.slot i = some p
  | f => f.inCa = true → Consistent m

/-- Which calls can wait for a call. -/
def Caller (m : Memory) : Frame → List Frame → Prop
  | .flagOp op _ _, k => k = [] ∨ op = .markEviction ∧
      Consistent m ∧ ((∃ i, k = [.sync (.scan i)]) ∨ ∃ i, k = [.disable (.scan i)])
  | .evictByIdx i _ _, k => k = [.unlockCa none] ∨ k = [.map (.malloc i)]
  | .work i _ evict _, k => k = [.thread (.elem (i + 1))] ∨
      evict = true ∧ (k = [.unlockCa none] ∨ k = [.map (.malloc i)])
  | .unlockCa _, k => k = [] ∨ k = [.sync .wait] ∨ (∃ rc, k = [.sync (.ret rc)]) ∨
      k = [.thread .loop] ∨ k = [.disable .wait]
  | _, k => k = []

/-- The stack of `t` is in order: `t` has `ca_mutex` exactly when one of its calls is in the
critical section. -/
def Own (m : Memory) (t : Tid) : List Frame → Prop
  | [] => m.ca_mutex ≠ some t
  | f :: k => ((f :: k).any Frame.inCa = true ↔ m.ca_mutex = some t) ∧ Pre m t f ∧ Caller m f k

/-! ## Interference -/

/-- What a step of another thread leaves `t` to rely on. -/
structure Stable (t : Tid) (m m' : Memory) : Prop where
  freed : ∀ p, m.heap p = .freed → m'.heap p = .freed
  held : ∀ p el, m.heap p = .live el → el.ce_mutex = some t →
    OnElem m' p fun el' => el'.ce_mutex = some t ∧ el'.ce_flags = el.ce_flags
  log : m.log <:+ m'.log
  callback : m'.ca_on_evict_callback = m.ca_on_evict_callback
  mutex : m'.ca_mutex = some t ↔ m.ca_mutex = some t
  ptr : m.ca_mutex = some t → m'.ca_elements_ptr = m.ca_elements_ptr
  inUse : m.ca_mutex = some t → m'.ca_elements_in_use = m.ca_elements_in_use
  shape : m.ca_mutex = some t → ∀ p, (m'.heap p).shape = (m.heap p).shape
  evicted : m.ca_mutex = some t → ∀ p, .evicted p ∈ m'.log → .evicted p ∈ m.log

section Interference

variable {m m' : Memory} {t : Tid} {i p : ℕ} {f : Frame} {k : List Frame}

lemma Stable.onElem (h : Stable t m m') {R : ElFlags → Prop}
    (hp : OnElem m p fun el => el.ce_mutex = some t ∧ R el.ce_flags) :
    OnElem m' p fun el => el.ce_mutex = some t ∧ R el.ce_flags := by
  rcases hp with hfreed | ⟨el, hel, hmutex, hR⟩
  · exact .inl (h.freed p hfreed)
  · exact (h.held p el hel hmutex).mono fun el' ⟨hm, hf⟩ => ⟨hm, hf ▸ hR⟩

lemma Stable.slot (h : Stable t m m') (hca : m.ca_mutex = some t) (i : ℕ) :
    m'.slot i = m.slot i := by
  rw [Memory.slot, Memory.slot, h.ptr hca]

lemma Stable.consistent (h : Stable t m m') (hca : m.ca_mutex = some t) (hm : Consistent m) :
    Consistent m' :=
  hm.congr (h.ptr hca) (h.inUse hca) (h.shape hca) (h.evicted hca)

lemma Stable.live (h : Stable t m m') (hca : m.ca_mutex = some t) {b : Bool}
    (hp : ∃ el, m.heap p = .live el ∧ el.ce_flags.active = b) :
    ∃ el, m'.heap p = .live el ∧ el.ce_flags.active = b := by
  rwa [← Cell.shape_eq_live, h.shape hca, Cell.shape_eq_live]

/-- A live element is not freed behind the back of the holder of `ca_mutex`. -/
lemma Stable.live_held (h : Stable t m m') (hca : m.ca_mutex = some t) {R : ElFlags → Prop}
    (hp : ∃ el, m.heap p = .live el ∧ el.ce_mutex = some t ∧ R el.ce_flags) :
    ∃ el, m'.heap p = .live el ∧ el.ce_mutex = some t ∧ R el.ce_flags := by
  rcases hp with ⟨el, hel, hmutex, hR⟩
  rcases h.live hca ⟨el, hel, rfl⟩ with ⟨el', hel', -⟩
  exact ⟨el', hel', (h.onElem (R := R) (.inr ⟨el, hel, hmutex, hR⟩)).of_live hel'⟩

lemma Stable.without (h : Stable t m m') (hca : m.ca_mutex = some t)
    (hm : Consistent (m.without i p)) : Consistent (m'.without i p) := by
  refine hm.congr ?_ (h.inUse hca) ?_ (h.evicted hca)
  · simp only [Memory.without, h.ptr hca]
  · intro q
    by_cases hqp : q = p
    · subst hqp
      simp [Memory.without]
    · simpa [Memory.without, Function.update_of_ne hqp] using h.shape hca q

lemma Stable.unmapped (h : Stable t m m') (hca : m.ca_mutex = some t)
    (hm : Consistent (m.unmapped p)) : Consistent (m'.unmapped p) := by
  refine hm.congr (h.ptr hca) (h.inUse hca) ?_ (h.evicted hca)
  intro q
  by_cases hqp : q = p
  · subst hqp
    simp [Memory.unmapped]
  · simpa [Memory.unmapped, Function.update_of_ne hqp] using h.shape hca q

lemma Stable.dec_without (h : Stable t m m') (hca : m.ca_mutex = some t)
    (hm : Consistent (m.dec.without i p)) : Consistent (m'.dec.without i p) := by
  refine hm.congr ?_ ?_ ?_ ?_
  · simp only [Memory.without, dec_ca_elements_ptr, h.ptr hca]
  · simp only [Memory.without, Memory.dec, h.inUse hca]
  · intro q
    by_cases hqp : q = p
    · subst hqp
      simp [Memory.without]
    · simpa [Memory.without, Function.update_of_ne hqp] using h.shape hca q
  · simpa [Memory.without] using h.evicted hca

lemma Stable.called (h : Stable t m m') (hp : Called m p) : Called m' p :=
  fun hcall => h.log.subset (hp (h.callback ▸ hcall))

lemma Stable.heldOk (h : Stable t m m') (hp : HeldOk m t p) : HeldOk m' t p := h.onElem hp

lemma Stable.workPre (h : Stable t m m') (hca : m.ca_mutex = some t) {evict : Bool} {st : Stage}
    (hp : WorkPre m t i p evict st) : WorkPre m' t i p evict st := by
  have hlocked : (∃ el, m.heap p = .live el ∧ el.ce_mutex = some t) →
      ∃ el, m'.heap p = .live el ∧ el.ce_mutex = some t := by
    rintro ⟨el, hel, hmutex⟩
    rcases h.live_held (R := fun _ => True) hca ⟨el, hel, hmutex, trivial⟩ with ⟨el', hel', hm, -⟩
    exact ⟨el', hel', hm⟩
  cases st with
  | addCount => exact ⟨h.consistent hca hp.1, h.heldOk hp.2⟩
  | flush => exact ⟨h.consistent hca hp.1, h.heldOk hp.2⟩
  | clearDirty => exact ⟨h.consistent hca hp.1, h.heldOk hp.2⟩
  | setClean => exact ⟨h.consistent hca hp.1, h.onElem (R := fun fl => fl.dirty = false) hp.2⟩
  | onEvict => exact ⟨h.consistent hca hp.1, h.heldOk hp.2.1, hp.2.2⟩
  | decInUse => exact ⟨h.dec_without hca hp.1, hlocked hp.2.1, h.called hp.2.2.1, hp.2.2.2⟩
  | zeroFlags => exact ⟨h.without hca hp.1, hlocked hp.2.1, h.called hp.2.2.1, hp.2.2.2⟩
  | unlock =>
    exact ⟨h.without hca hp.1, h.live_held (R := fun fl => fl.active = false) hca hp.2.1,
      h.called hp.2.2.1, hp.2.2.2⟩
  | destroy => exact ⟨h.without hca hp.1, h.live hca hp.2.1, h.called hp.2.2.1, hp.2.2.2⟩
  | free => exact ⟨h.without hca hp.1, h.live hca hp.2.1, h.called hp.2.2.1, hp.2.2.2⟩
  | clearSlot => exact ⟨h.without hca hp.1, h.freed p hp.2.1, hp.2.2⟩
  | release => exact ⟨h.consistent hca hp.1, h.heldOk hp.2.1, hp.2.2⟩

/-- What a statement relies on survives the steps of other threads. -/
theorem Stable.pre (h : Stable t m m') (hca : f.inCa = true → m.ca_mutex = some t)
    (hf : Pre m t f) : Pre m' t f := by
  -- most statements rely on nothing but the cache
  have hidle : (f.inCa = true → Consistent m) → f.inCa = true → Consistent m' := fun hf hin =>
    h.consistent (hca hin) (hf hin)
  cases f with
  | flagOp op p pc =>
    cases pc with
    | test => exact hidle hf
    | lock => exact hidle hf
    | assign => exact h.heldOk hf
    | clearClean => exact h.onElem (R := fun fl => fl.dirty = true) hf
    | unlock => exact h.heldOk hf
  | evictByIdx i p locked =>
    exact ⟨h.consistent (hca rfl) hf.1, (h.slot (hca rfl) i).trans hf.2.1,
      fun hl => h.heldOk (hf.2.2 hl)⟩
  | work i p evict st => exact ⟨(h.slot (hca rfl) i).trans hf.1, h.workPre (hca rfl) hf.2⟩
  | evict key pc => exact hidle hf
  | lookup key pc => exact hidle hf
  | map pc =>
    cases pc with
    | lock => exact hidle hf
    | find => exact hidle hf
    | lru i l => exact hidle hf
    | malloc sub => exact ⟨h.consistent (hca rfl) hf.1, (h.ptr (hca rfl)).symm ▸ hf.2⟩
    | publish sub p =>
      exact ⟨h.unmapped (hca rfl) hf.1, h.live (hca rfl) hf.2.1, (h.ptr (hca rfl)).symm ▸ hf.2.2⟩
  | sync pc => exact hidle hf
  | disable pc => exact hidle hf
  | pgMap addr pc =>
    cases pc with
    | growRead p => exact h.heldOk hf
    | growUnlock p => exact h.heldOk hf
    | scan i => exact hidle hf
    | read i p => exact hidle hf
    | addCount p => exact hidle hf
    | size p => exact hidle hf
    | growLock p => exact hidle hf
    | ret p => exact hidle hf
  | caFlagOp op locked => exact hidle hf
  | setId p key => exact hidle hf
  | thread pc =>
    cases pc with
    | read i p => exact ⟨h.consistent (hca rfl) hf.1, (h.slot (hca rfl) i).trans hf.2⟩
    | tryLock i p flags => exact ⟨h.consistent (hca rfl) hf.1, (h.slot (hca rfl) i).trans hf.2⟩
    | start => exact hidle hf
    | top => exact hidle hf
    | lock => exact hidle hf
    | enter => exact hidle hf
    | elem i => exact hidle hf
    | leave => exact hidle hf
    | loop => exact hidle hf
    | finish => exact hidle hf
  | unlockCa ret => exact hidle hf

lemma Stable.caller (h : Stable t m m') (hca : (f :: k).any Frame.inCa = true → m.ca_mutex = some t)
    (hk : Caller m f k) : Caller m' f k := by
  cases f with
  | flagOp op p pc =>
    rcases hk with rfl | ⟨hop, hm, hcaller⟩
    · exact .inl rfl
    · refine .inr ⟨hop, h.consistent (hca ?_) hm, hcaller⟩
      rcases hcaller with ⟨i, rfl⟩ | ⟨i, rfl⟩
      · simp [Frame.inCa]
      · simp [Frame.inCa]
  | evictByIdx i p locked => exact hk
  | work i p evict st => exact hk
  | evict key pc => exact hk
  | lookup key pc => exact hk
  | map pc => exact hk
  | sync pc => exact hk
  | disable pc => exact hk
  | pgMap addr pc => exact hk
  | caFlagOp op locked => exact hk
  | setId p key => exact hk
  | thread pc => exact hk
  | unlockCa ret => exact hk

theorem Stable.own (h : Stable t m m') (hk : Own m t k) : Own m' t k := by
  cases k with
  | nil => exact fun hca => hk (h.mutex.mp hca)
  | cons f k =>
    rcases hk with ⟨hiff, hpre, hcaller⟩
    refine ⟨hiff.trans h.mutex.symm, h.pre (fun hin => hiff.mp ?_) hpre, h.caller hiff.mp hcaller⟩
    simp [hin]

/-! ### Steps of the memory -/

variable {el el' : Elem} {e : Event} {t' : Tid}

lemma stable_of_eq (hheap : m'.heap = m.heap) (hptr : m'.ca_elements_ptr = m.ca_elements_ptr)
    (huse : m'.ca_elements_in_use = m.ca_elements_in_use) (hmutex : m'.ca_mutex = m.ca_mutex)
    (hcallback : m'.ca_on_evict_callback = m.ca_on_evict_callback)
    (hlog : m'.log = m.log) : Stable t m m' where
  freed _ hp := hheap ▸ hp
  held _ el hel hm := .inr ⟨el, hheap ▸ hel, hm, rfl⟩
  log := hlog ▸ List.suffix_rfl
  callback := hcallback
  mutex := by rw [hmutex]
  ptr _ := hptr
  inUse _ := huse
  shape _ p := by rw [hheap]
  evicted _ p hp := hlog ▸ hp

/-- An element changes and keeps its shape; its holder is told nothing new. -/
lemma stable_setEl (hel : m.heap p = .live el)
    (hactive : el'.ce_flags.active = el.ce_flags.active)
    (hheld : el.ce_mutex = some t → el'.ce_mutex = some t ∧ el'.ce_flags = el.ce_flags) :
    Stable t m (m.setEl p el') where
  freed q hq := by
    have hqp : q ≠ p := by
      rintro rfl
      simp [hel] at hq
    simp [Memory.setEl, Function.update_of_ne hqp, hq]
  held q el₁ hq hm := by
    by_cases hqp : q = p
    · subst hqp
      obtain rfl : el = el₁ := live_inj hel hq
      exact onElem_setEl (hheld hm)
    · exact .inr ⟨el₁, by simp [Memory.setEl, Function.update_of_ne hqp, hq], hm, rfl⟩
  log := List.suffix_rfl
  callback := rfl
  mutex := Iff.rfl
  ptr _ := rfl
  inUse _ := rfl
  shape _ q := by
    by_cases hqp : q = p
    · subst hqp
      simp [Memory.setEl, hel, Cell.shape, hactive]
    · simp [Memory.setEl, Function.update_of_ne hqp]
  evicted _ _ hq := hq

lemma Stable.trans {m₁ : Memory} (h : Stable t m m₁) (h' : Stable t m₁ m') : Stable t m m' where
  freed p hp := h'.freed p (h.freed p hp)
  held p el hel hm := h'.onElem (R := fun fl => fl = el.ce_flags) (h.held p el hel hm)
  log := h.log.trans h'.log
  callback := h'.callback.trans h.callback
  mutex := h'.mutex.trans h.mutex
  ptr hca := (h'.ptr (h.mutex.mpr hca)).trans (h.ptr hca)
  inUse hca := (h'.inUse (h.mutex.mpr hca)).trans (h.inUse hca)
  shape hca p := (h'.shape (h.mutex.mpr hca) p).trans (h.shape hca p)
  evicted hca p hp := h.evicted hca p (h'.evicted (h.mutex.mpr hca) p hp)

lemma stable_marked : Stable t m (m.emit (.marked p)) where
  freed _ hq := hq
  held _ el hel hm := .inr ⟨el, hel, hm, rfl⟩
  log := List.suffix_cons _ _
  callback := rfl
  mutex := Iff.rfl
  ptr _ := rfl
  inUse _ := rfl
  shape _ _ := rfl
  evicted _ q hq := by simpa [Memory.emit] using hq

/-- The holder of `ca_mutex` may do more: whoever else runs does not rely on the table. -/
lemma stable_of_holder (hca : m.ca_mutex = some t) (ht : t' ≠ t) (hca' : m'.ca_mutex = some t)
    (hlog : m.log <:+ m'.log) (hcallback : m'.ca_on_evict_callback = m.ca_on_evict_callback)
    (hfreed : ∀ p, m.heap p = .freed → m'.heap p = .freed)
    (hheld : ∀ p el, m.heap p = .live el → el.ce_mutex = some t' →
      OnElem m' p fun el' => el'.ce_mutex = some t' ∧ el'.ce_flags = el.ce_flags) :
    Stable t' m m' := by
  have hother : m.ca_mutex ≠ some t' := by
    rw [hca]
    exact fun heq => ht (Option.some.inj heq).symm
  exact ⟨hfreed, hheld, hlog, hcallback, by rw [hca, hca'], fun hc => absurd hc hother,
    fun hc => absurd hc hother, fun hc => absurd hc hother, fun hc => absurd hc hother⟩

end Interference

end KanekFs.Cache.Machine
