import KanekFs.Cache.Steps

/-!
# The cache between two critical sections

Two things hold of every run, whatever the clients call and however the statements interleave:

* `representation_invariant`: whenever `ca_mutex` is free, the counter counts the entries of the
  table, no element has two of them, and the elements nobody works on have their flags in order.
* `callback_discipline`: `ca_on_evict_callback` is called once for an element that leaves the
  table, right before it does, and no callback is called for it afterwards.
-/

namespace KanekFs.Cache.Machine

open Threads Run Word

variable {capacity : ℕ} {on_evict on_flush : Bool} {m : Memory} {s : State} {p : ℕ}

/-- The invariant in every state of every run. -/
theorem holds_throughout (as : List (Tid × Input)) :
    Throughout system.step (Holds (Inv capacity on_evict) Own)
      (init capacity on_evict on_flush) as :=
  (outline capacity on_evict).throughout (holds_init capacity on_evict on_flush)
    (along_of_forall fun _ _ _ _ _ _ => trivial)

/-! ## The representation -/

/-- What the table and the elements look like when nobody works on them. -/
structure Represents (capacity : ℕ) (m : Memory) : Prop where
  count : m.ca_elements_in_use = m.ca_elements_ptr.countP Option.isSome
  le : m.ca_elements_in_use ≤ capacity
  nodup : ∀ i j p, m.slot i = some p → m.slot j = some p → i = j
  flags : ∀ p el, m.heap p = .live el → el.ce_mutex = none →
    el.ce_flags.active = true ∧ (el.ce_flags.dirty = true ∧ el.ce_flags.clean = false ∨
      el.ce_flags.dirty = false ∧ el.ce_flags.clean = true)

lemma Consistent.slot_inj (h : Consistent m) {i j : ℕ} (hi : m.slot i = some p)
    (hj : m.slot j = some p) : i = j := by
  have hperm : m.entries.Perm (p :: (m.ca_elements_ptr.set i none).reduceOption) :=
    reduceOption_set_none (Memory.slot_eq_some.mp hi)
  have hnot := (List.nodup_cons.mp (hperm.nodup_iff.mp h.nodup)).1
  by_contra hij
  -- the other entry would still be there with the first one cleared
  refine hnot (List.reduceOption_mem_iff.mpr (List.mem_iff_getElem?.mpr ⟨j, ?_⟩))
  rw [List.getElem?_set_ne hij]
  exact Memory.slot_eq_some.mp hj

lemma Consistent.represents (hcap : capacity < 2 ^ 31) (h : Consistent m)
    (hinv : Inv capacity on_evict m) : Represents capacity m := by
  have hle : m.entries.length ≤ capacity := entries_length_le.trans hinv.length.le
  have hcount : m.ca_elements_in_use = m.entries.length := by
    rw [h.count, u32_of_lt (by omega)]
  constructor
  · rw [hcount, Memory.entries, List.reduceOption_length_eq, List.countP_eq_length_filter]
  · omega
  · exact fun _ _ _ hi hj => h.slot_inj hi hj
  · intro p el hel hfree
    have hactive := h.active_of_live hel
    have hne := hinv.flags p el hel hfree hactive
    refine ⟨hactive, ?_⟩
    cases hdirty : el.ce_flags.dirty <;> cases hclean : el.ce_flags.clean <;>
      simp [hdirty, hclean] at hne ⊢

/-- In every run, whenever `ca_mutex` is free the table and the elements represent each other.
The capacity is an `int`. -/
theorem representation_invariant (hcap : capacity < 2 ^ 31) (as : List (Tid × Input)) :
    Throughout system.step (fun s => s.mem.ca_mutex = none → Represents capacity s.mem)
      (init capacity on_evict on_flush) as :=
  (holds_throughout as).mono fun _ h hfree => (h.1.idle hfree).represents hcap h.1

/-- A run that maps an element into a table of two. -/
theorem representation_invariant_mapped :
    (run system.step (init 2 true true) mapped).map (fun s => (s.mem.ca_mutex,
      s.mem.ca_elements_in_use)) = some (none, 1) ∧
    Throughout system.step (fun s => s.mem.ca_mutex = none → Represents 2 s.mem)
      (init 2 true true) mapped :=
  ⟨by decide +kernel, representation_invariant (by decide) mapped⟩

/-! ## The callbacks -/

/-- The statements of a removal after the callback. -/
def Stage.removes : Stage → Bool
  | .decInUse | .zeroFlags | .unlock | .destroy | .free | .clearSlot => true
  | _ => false

/-- `t` is removing the element `p` from slot `i`. -/
def RemovalBy (s : State) (t : Tid) (i p : ℕ) (st : Stage) : Prop :=
  ∃ k, s.stack t = .work i p true st :: k ∧ st.removes = true

/-- A new element is about to enter the table. -/
def Publication (s : State) (p : ℕ) : Prop := ∃ t sub, s.stack t = [.map (.publish sub p)]

/-- The cache is consistent, or its holder is removing or adding one element. -/
theorem consistent_or_changing (h : Holds (Inv capacity on_evict) Own s) :
    Consistent s.mem ∨ (∃ t i p st, RemovalBy s t i p st) ∨ ∃ p, Publication s p := by
  cases hca : s.mem.ca_mutex with
  | none => exact .inl (h.1.idle hca)
  | some t =>
    have hown := h.2 t
    cases hstack : s.stack t with
    | nil =>
      rw [hstack] at hown
      exact absurd hca hown
    | cons f k =>
      rw [hstack] at hown
      rcases hown with ⟨hiff, hpre, hcaller⟩
      have hany : (f :: k).any Frame.inCa = true := hiff.mpr hca
      -- the frame on top knows what state the cache is in
      have hdefault : (f.inCa = true → Consistent s.mem) → k = [] → Consistent s.mem := by
        rintro hm rfl
        exact hm (by simpa using hany)
      cases f with
      | flagOp op p pc =>
        rcases hcaller with rfl | ⟨-, hm, -⟩
        · simp [Frame.inCa] at hany
        · exact .inl hm
      | evictByIdx i p locked => exact .inl hpre.1
      | work i p evict st =>
        cases st with
        | addCount => exact .inl hpre.2.1
        | flush => exact .inl hpre.2.1
        | clearDirty => exact .inl hpre.2.1
        | setClean => exact .inl hpre.2.1
        | onEvict => exact .inl hpre.2.1
        | release => exact .inl hpre.2.1
        | decInUse =>
          obtain rfl : evict = true := hpre.2.2.2.2
          exact .inr (.inl ⟨t, i, p, _, k, hstack, rfl⟩)
        | zeroFlags =>
          obtain rfl : evict = true := hpre.2.2.2.2
          exact .inr (.inl ⟨t, i, p, _, k, hstack, rfl⟩)
        | unlock =>
          obtain rfl : evict = true := hpre.2.2.2.2
          exact .inr (.inl ⟨t, i, p, _, k, hstack, rfl⟩)
        | destroy =>
          obtain rfl : evict = true := hpre.2.2.2.2
          exact .inr (.inl ⟨t, i, p, _, k, hstack, rfl⟩)
        | free =>
          obtain rfl : evict = true := hpre.2.2.2.2
          exact .inr (.inl ⟨t, i, p, _, k, hstack, rfl⟩)
        | clearSlot =>
          obtain rfl : evict = true := hpre.2.2.2
          exact .inr (.inl ⟨t, i, p, _, k, hstack, rfl⟩)
      | evict key pc => exact .inl (hdefault hpre hcaller)
      | lookup key pc => exact .inl (hdefault hpre hcaller)
      | map pc =>
        cases pc with
        | lock => exact .inl (hdefault hpre hcaller)
        | find => exact .inl (hdefault hpre hcaller)
        | lru i l => exact .inl (hdefault hpre hcaller)
        | malloc sub => exact .inl hpre.1
        | publish sub p =>
          obtain rfl : k = [] := hcaller
          exact .inr (.inr ⟨p, t, sub, hstack⟩)
      | sync pc => exact .inl (hdefault hpre hcaller)
      | disable pc => exact .inl (hdefault hpre hcaller)
      | pgMap addr pc =>
        obtain rfl : k = [] := hcaller
        cases pc <;> simp [Frame.inCa] at hany
      | caFlagOp op locked => exact .inl (hdefault hpre hcaller)
      | setId p key => exact .inl (hdefault hpre hcaller)
      | thread pc =>
        cases pc with
        | read i p => exact .inl hpre.1
        | tryLock i p flags => exact .inl hpre.1
        | start => exact .inl (hdefault hpre hcaller)
        | top => exact .inl (hdefault hpre hcaller)
        | lock => exact .inl (hdefault hpre hcaller)
        | enter => exact .inl (hdefault hpre hcaller)
        | elem i => exact .inl (hdefault hpre hcaller)
        | leave => exact .inl (hdefault hpre hcaller)
        | loop => exact .inl (hdefault hpre hcaller)
        | finish => exact .inl (hdefault hpre hcaller)
      | unlockCa ret => exact .inl (hpre rfl)

/-- The element was freed, and no entry of the table points to it. -/
def Removed (m : Memory) (p : ℕ) : Prop := m.heap p = .freed ∧ p ∉ m.entries

/-- The next statements of some thread clear the entry of `p` and free it. -/
def Removing (s : State) (p : ℕ) : Prop :=
  ∃ t n s', run system.step s (List.replicate n (t, .go)) = some s' ∧ Removed s'.mem p

/-- The statements left of a removal. -/
def Stage.left : Stage → ℕ
  | .decInUse => 6
  | .zeroFlags => 5
  | .unlock => 4
  | .destroy => 3
  | .free => 2
  | .clearSlot => 1
  | _ => 0

section Removal

variable {t : Tid} {i : ℕ} {st st' : Stage} {m' : Memory} {k : List Frame}

/-- A statement of a removal that leads to another one. -/
lemma removal_next (hstack : s.stack t = .work i p true st :: k)
    (hfree : s.mem.ca_elements_freed = false)
    (hexec : execWork s.mem t i p true st = some (m', [.work i p true st']))
    (hfree' : m'.ca_elements_freed = false) (hst' : st'.removes = true) (hlt : st'.left < st.left) :
    ∃ s', system.step s (t, .go) = some s' ∧ s'.mem.ca_elements_freed = false ∧
      (Removed s'.mem p ∨ ∃ st', RemovalBy s' t i p st' ∧ st'.left < st.left) := by
  refine ⟨⟨m', Function.update s.stack t (.work i p true st' :: k)⟩, ?_, hfree',
    .inr ⟨st', ⟨k, by simp, hst'⟩, hlt⟩⟩
  simp [System.step, system, hstack, exec, torn, hfree, Frame.usesMutex, execFrame, hexec]

/-- What a removal relies on. -/
lemma RemovalBy.pre (h : Holds (Inv capacity on_evict) Own s) (hr : RemovalBy s t i p st) :
    s.mem.slot i = some p ∧ WorkPre s.mem t i p true st := by
  rcases hr with ⟨k, hstack, -⟩
  have hown := h.2 t
  rw [hstack] at hown
  exact hown.2.1

/-- A removal can go on, and comes closer to its end. -/
theorem removal_step (h : Holds (Inv capacity on_evict) Own s) (hr : RemovalBy s t i p st)
    (hfree : s.mem.ca_elements_freed = false) :
    ∃ s', system.step s (t, .go) = some s' ∧ s'.mem.ca_elements_freed = false ∧
      (Removed s'.mem p ∨ ∃ st', RemovalBy s' t i p st' ∧ st'.left < st.left) := by
  have hpre := (hr.pre h).2
  rcases hr with ⟨k, hstack, hst⟩
  cases st with
  | decInUse =>
    exact removal_next hstack hfree execWork_decInUse (by rw [Memory.dec]; exact hfree) rfl
      (by simp [Stage.left])
  | zeroFlags =>
    rcases hpre with ⟨-, ⟨el, hel, -⟩, -⟩
    have hexec : execWork s.mem t i p true .zeroFlags =
        some (s.mem.setEl p { el with ce_flags := .zero }, [.work i p true .unlock]) := by
      simp [execWork, Memory.setFlags, Memory.el?_eq_some.mpr hel]
    exact removal_next hstack hfree hexec hfree rfl (by simp [Stage.left])
  | unlock =>
    rcases hpre with ⟨-, ⟨el, hel, hheld, -⟩, -⟩
    have hexec : execWork s.mem t i p true .unlock =
        some (s.mem.setEl p { el with ce_mutex := none }, [.work i p true .destroy]) := by
      simp [execWork, Memory.unlockEl, Memory.el?_eq_some.mpr hel, hheld]
    exact removal_next hstack hfree hexec hfree rfl (by simp [Stage.left])
  | destroy =>
    rcases hpre with ⟨-, ⟨el, hel, -⟩, -⟩
    have hexec : execWork s.mem t i p true .destroy =
        some (s.mem, [.work i p true .free]) := by
      simp [execWork, Memory.el?_eq_some.mpr hel]
    exact removal_next hstack hfree hexec hfree rfl (by simp [Stage.left])
  | free =>
    rcases hpre with ⟨-, ⟨el, hel, -⟩, -⟩
    have hexec : execWork s.mem t i p true .free =
        some (({ s.mem with heap := Function.update s.mem.heap p .freed } : Memory).emit (.freed p),
          [.work i p true .clearSlot]) := by
      simp [execWork, Memory.freeEl, Memory.el?_eq_some.mpr hel]
    exact removal_next hstack hfree hexec hfree rfl (by simp [Stage.left])
  | clearSlot =>
    rcases hpre with ⟨hm, hfreed, -⟩
    refine ⟨⟨{ s.mem with ca_elements_ptr := s.mem.ca_elements_ptr.set i none },
      Function.update s.stack t k⟩, ?_, hfree, .inl ⟨hfreed, ?_⟩⟩
    · simp [System.step, system, hstack, exec, torn, hfree, Frame.usesMutex, execFrame, execWork]
    · -- without its entry the element is in no other one
      intro hp
      have hshape := (hm.mem p).mp hp
      simp [Memory.without, Cell.shape] at hshape
  | addCount => simp [Stage.removes] at hst
  | flush => simp [Stage.removes] at hst
  | clearDirty => simp [Stage.removes] at hst
  | setClean => simp [Stage.removes] at hst
  | onEvict => simp [Stage.removes] at hst
  | release => simp [Stage.removes] at hst

/-- A removal comes to its end, if its thread runs. -/
theorem removal_completes (h : Holds (Inv capacity on_evict) Own s) (hr : RemovalBy s t i p st)
    (hfree : s.mem.ca_elements_freed = false) :
    ∃ n s', run system.step s (List.replicate n (t, .go)) = some s' ∧ Removed s'.mem p := by
  induction hn : st.left using Nat.strong_induction_on generalizing s st with
  | _ n ih =>
    rcases removal_step h hr hfree with ⟨s', hstep, hfree', hend | ⟨st', hr', hlt⟩⟩
    · exact ⟨1, s', run_cons_eq_some.mpr ⟨s', hstep, rfl⟩, hend⟩
    · have h' := (outline capacity on_evict).step hstep (fun _ _ _ => trivial) h
      rcases ih _ (hn ▸ hlt) h' hr' hfree' rfl with ⟨n', s'', hrun, hend⟩
      exact ⟨n' + 1, s'', run_cons_eq_some.mpr ⟨s', hstep, hrun⟩, hend⟩

end Removal

/-- What the callbacks may be relied on for, in a state of a run: `ca_on_evict_callback` is called
at most once for an element; after that no callback is called for it, and its entry is cleared and
it is freed, if this has not yet happened; and an element leaves the table, or is freed, only
after the callback. -/
structure CallbackDiscipline (on_evict : Bool) (s : State) : Prop where
  once : ∀ p, s.mem.log.count (.evicted p) ≤ 1
  last : Disciplined s.mem.log
  removed : s.mem.ca_elements_freed = false →
    ∀ p, .evicted p ∈ s.mem.log → Removed s.mem p ∨ Removing s p
  freed : on_evict = true → ∀ p, s.mem.heap p = .freed → .evicted p ∈ s.mem.log
  cleared : on_evict = true → ∀ p, s.mem.heap p ≠ .unused → p ∉ s.mem.entries →
    Publication s p ∨ .evicted p ∈ s.mem.log

lemma Consistent.freed_of_not_mem (h : Consistent m) (hused : m.heap p ≠ .unused)
    (hp : p ∉ m.entries) : m.heap p = .freed := by
  cases hcell : m.heap p with
  | unused => exact absurd hcell hused
  | freed => rfl
  | live el =>
    rcases h.slot_of_live hcell with ⟨i, hslot⟩
    exact absurd (Memory.mem_entries.mpr ⟨i, hslot⟩) hp

lemma Consistent.not_mem_of_freed (h : Consistent m) (hfreed : m.heap p = .freed) :
    p ∉ m.entries := by
  intro hp
  have hshape := (h.mem p).mp hp
  simp [hfreed, Cell.shape] at hshape

/-- While an element is removed the rest of the cache is consistent. -/
lemma RemovalBy.rest {t : Tid} {i : ℕ} {st : Stage} (h : Holds (Inv capacity on_evict) Own s)
    (hr : RemovalBy s t i p st) : s.mem.slot i = some p ∧
      ∃ m : Memory, Consistent (m.without i p) ∧ m.heap = s.mem.heap ∧
        m.ca_elements_ptr = s.mem.ca_elements_ptr ∧ m.log = s.mem.log := by
  rcases hr.pre h with ⟨hslot, hpre⟩
  rcases hr with ⟨k, -, hst⟩
  refine ⟨hslot, ?_⟩
  cases st with
  | decInUse => exact ⟨s.mem.dec, hpre.1, dec_heap, dec_ca_elements_ptr, dec_log⟩
  | zeroFlags => exact ⟨s.mem, hpre.1, rfl, rfl, rfl⟩
  | unlock => exact ⟨s.mem, hpre.1, rfl, rfl, rfl⟩
  | destroy => exact ⟨s.mem, hpre.1, rfl, rfl, rfl⟩
  | free => exact ⟨s.mem, hpre.1, rfl, rfl, rfl⟩
  | clearSlot => exact ⟨s.mem, hpre.1, rfl, rfl, rfl⟩
  | addCount => simp [Stage.removes] at hst
  | flush => simp [Stage.removes] at hst
  | clearDirty => simp [Stage.removes] at hst
  | setClean => simp [Stage.removes] at hst
  | onEvict => simp [Stage.removes] at hst
  | release => simp [Stage.removes] at hst

lemma Publication.rest (h : Holds (Inv capacity on_evict) Own s) (hp : Publication s p) :
    Consistent (s.mem.unmapped p) := by
  rcases hp with ⟨t, sub, hstack⟩
  have hown := h.2 t
  rw [hstack] at hown
  exact hown.2.1.1

lemma mem_entries_without {i q : ℕ} (hslot : m.slot i = some q) (hqp : p ≠ q) :
    p ∈ (m.without i q).entries ↔ p ∈ m.entries := by
  rw [entries_without, Memory.entries,
    (reduceOption_set_none (Memory.slot_eq_some.mp hslot)).mem_iff]
  simp [hqp]

/-- An element whose callback was called has left the table, or is about to. -/
theorem removed_of_evicted (h : Holds (Inv capacity on_evict) Own s)
    (hfree : s.mem.ca_elements_freed = false) (hp : .evicted p ∈ s.mem.log) :
    Removed s.mem p ∨ Removing s p := by
  rcases consistent_or_changing h with hm | ⟨t, i, q, st, hr⟩ | ⟨q, hpub⟩
  · have hfreed := hm.evicted p hp
    exact .inl ⟨hfreed, hm.not_mem_of_freed hfreed⟩
  · by_cases hpq : p = q
    · subst hpq
      rcases removal_completes h hr hfree with ⟨n, s', hrun, hend⟩
      exact .inr ⟨t, n, s', hrun, hend⟩
    · -- another element is being removed
      rcases hr.rest h with ⟨hslot, m, hm, hheap, hptr, hlog⟩
      have hfreed := hm.evicted p (hlog ▸ hp)
      have hnot := hm.not_mem_of_freed hfreed
      have hslot' : m.slot i = some q := by rwa [Memory.slot, hptr]
      rw [mem_entries_without hslot' hpq, Memory.entries, hptr] at hnot
      exact .inl ⟨by simpa [Memory.without, Function.update_of_ne hpq, hheap] using hfreed, hnot⟩
  · have hm := hpub.rest h
    have hfreed := hm.evicted p hp
    have hpq : p ≠ q := by
      rintro rfl
      simp [Memory.unmapped] at hfreed
    exact .inl ⟨by simpa [Memory.unmapped, Function.update_of_ne hpq] using hfreed,
      hm.not_mem_of_freed hfreed⟩

/-- An element outside the table is new, or its callback was called. -/
theorem evicted_of_cleared (h : Holds (Inv capacity on_evict) Own s) (hevict : on_evict = true)
    (hused : s.mem.heap p ≠ .unused) (hp : p ∉ s.mem.entries) :
    Publication s p ∨ .evicted p ∈ s.mem.log := by
  rcases consistent_or_changing h with hm | ⟨t, i, q, st, hr⟩ | ⟨q, hpub⟩
  · exact .inr (h.1.freed hevict p (hm.freed_of_not_mem hused hp))
  · rcases hr.rest h with ⟨hslot, m, hm, hheap, hptr, -⟩
    have hslot' : m.slot i = some q := by rwa [Memory.slot, hptr]
    have hpq : p ≠ q := by
      rintro rfl
      exact hp (Memory.mem_entries.mpr ⟨i, hslot⟩)
    have hheap' : (m.without i q).heap p = s.mem.heap p := by
      simp [Memory.without, Function.update_of_ne hpq, hheap]
    have hfreed := hm.freed_of_not_mem (p := p) (hheap' ▸ hused)
      (by rwa [mem_entries_without hslot' hpq, Memory.entries, hptr])
    exact .inr (h.1.freed hevict p (hheap' ▸ hfreed))
  · by_cases hpq : p = q
    · exact .inl (hpq ▸ hpub)
    · have hheap : (s.mem.unmapped q).heap p = s.mem.heap p := by
        simp [Memory.unmapped, Function.update_of_ne hpq]
      have hfreed := (hpub.rest h).freed_of_not_mem (hheap ▸ hused) hp
      exact .inr (h.1.freed hevict p (hheap ▸ hfreed))

/-- In every run the callbacks keep their discipline. -/
theorem callback_discipline (as : List (Tid × Input)) :
    Throughout system.step (CallbackDiscipline on_evict) (init capacity on_evict on_flush) as :=
  (holds_throughout as).mono fun _ h =>
    ⟨fun p => h.1.disciplined.count_le p, h.1.disciplined,
      fun hfree _ hp => removed_of_evicted h hfree hp, h.1.freed,
      fun hevict _ hused hp => evicted_of_cleared h hevict hused hp⟩

end KanekFs.Cache.Machine
