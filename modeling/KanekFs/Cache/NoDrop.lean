import KanekFs.Cache.Machine

/-!
# Which runs drop no dirty element

`cache.c` is to flush a dirty element before it frees it, whatever a client marks and whenever it
does so. `NoDrop` says this of a log. It holds in the runs whose statements meet `stepOk`, and
`stepOk` fails in three situations:

* `cache_element_mark_dirty` completes on an element whose flags an eviction has already cleared;
* the thread locks an element to evict it with a copy of the flags that lacks a
  `CACHE_EL_DIRTY` set since;
* there is no flush callback to call.

The proof is an outline of the machine. `pending p` says that the last mark of `p` has not been
flushed, `MemOk` that a pending element is live and dirty, and `FrameOk` that from the decision
not to flush, or from the flush, to the `free` the element is not pending: under its mutex no mark
can complete, and after the unlock its flags are zero.
-/

namespace KanekFs.Cache.Machine

open Threads Run

/-! ## The property -/

/-- No element is freed after a completed mark unless the flush callback was called on it after
that mark. The log has the newest event first. -/
def NoDrop (log : List Event) : Prop :=
  ∀ l₁ l₂ p, log = l₁ ++ .freed p :: l₂ →
    ∀ l₃ l₄, l₂ = l₃ ++ .marked p :: l₄ → .flushed p ∈ l₃

/-- The last mark of `p` has not been flushed. -/
def pending (p : ℕ) : List Event → Bool
  | [] => false
  | .marked q :: log => q = p || pending p log
  | .flushed q :: log => q ≠ p && pending p log
  | _ :: log => pending p log

lemma forall_split_cons {α : Type*} {a x : α} {l : List α} {Q : List α → List α → Prop} :
    (∀ l₁ l₂, a :: l = l₁ ++ x :: l₂ → Q l₁ l₂) ↔
      (a = x → Q [] l) ∧ ∀ l₁ l₂, l = l₁ ++ x :: l₂ → Q (a :: l₁) l₂ := by
  constructor
  · intro h
    refine ⟨fun hax => h [] l (by simp [hax]), fun l₁ l₂ hl => h (a :: l₁) l₂ (by simp [hl])⟩
  · rintro ⟨hhead, htail⟩ l₁ l₂ hl
    cases l₁ with
    | nil =>
      rcases List.cons.inj hl with ⟨hax, rfl⟩
      exact hhead hax
    | cons b l₁ =>
      rcases List.cons.inj hl with ⟨rfl, hrest⟩
      exact htail l₁ l₂ hrest

/-- Nothing is pending exactly when every mark has a flush after it. -/
lemma pending_eq_false_iff {p : ℕ} {log : List Event} :
    pending p log = false ↔ ∀ l₁ l₂, log = l₁ ++ .marked p :: l₂ → .flushed p ∈ l₁ := by
  induction log with
  | nil => exact ⟨fun _ l₁ l₂ h => by simp at h, fun _ => rfl⟩
  | cons e log ih =>
    rw [forall_split_cons]
    cases e with
    | marked q => simp [pending, ih]
    | flushed q =>
      -- a flush of `p` ends what the marks below it began
      by_cases hq : q = p
      · simp [pending, hq]
      · simp [pending, hq, ih, Ne.symm hq]
    | evicted q => simp [pending, ih]
    | freed q => simp [pending, ih]

lemma noDrop_nil : NoDrop [] := by
  intro l₁ l₂ p h
  simp at h

/-- One more event: a free is the only one that can break the property. -/
lemma noDrop_cons {e : Event} {log : List Event} :
    NoDrop (e :: log) ↔ (∀ p, e = .freed p → pending p log = false) ∧ NoDrop log := by
  constructor
  · intro h
    refine ⟨fun p he => pending_eq_false_iff.mpr (h [] log p (by simp [he])), ?_⟩
    exact fun l₁ l₂ p hl => h (e :: l₁) l₂ p (by simp [hl])
  · rintro ⟨hhead, htail⟩ l₁ l₂ p hl
    cases l₁ with
    | nil =>
      rcases List.cons.inj hl with ⟨he, rfl⟩
      exact pending_eq_false_iff.mp (hhead p he)
    | cons e' l₁ => exact htail l₁ l₂ p (List.cons.inj hl).2

/-! ## The condition -/

/-- The statement on top of a stack does not drop a mark. -/
def stepOk (m : Memory) : Frame → Bool
  | .flagOp .markDirty p .unlock => (m.el? p).all fun el => el.ce_flags.active
  | .thread (.tryLock _ p flags) => (m.el? p).all fun el =>
      !(el.ce_mutex = none && flags.evict && !flags.dirty && el.ce_flags.dirty)
  | .work _ _ _ .flush => m.ca_on_flush_callback
  | _ => true

def StepOk (m : Memory) (_ : Tid) (f : Frame) (_ : Input) : Prop := stepOk m f = true

instance (m : Memory) (t : Tid) (f : Frame) (i : Input) : Decidable (StepOk m t f i) :=
  inferInstanceAs (Decidable (_ = true))

/-! ## The outline -/

/-- A pending element is live and dirty, and so far nothing was dropped. -/
structure MemOk (m : Memory) : Prop where
  dirty : ∀ p, pending p m.log = true → ∃ el, m.heap p = .live el ∧ el.ce_flags.dirty = true
  noDrop : NoDrop m.log

/-- What holds before each statement that works on an element. -/
def FrameOk (m : Memory) (t : Tid) : Frame → Prop
  | .flagOp _ p .assign => Held m t p
  | .flagOp _ p .clearClean =>
    OnElem m p fun el => el.ce_mutex = some t ∧ el.ce_flags.dirty = true
  | .flagOp op p .unlock =>
    OnElem m p fun el => el.ce_mutex = some t ∧ (op = .markDirty → el.ce_flags.dirty = true)
  | .evictByIdx _ p true => Held m t p
  | .work _ p _ .addCount | .work _ p _ .flush | .work _ p _ .release => Held m t p
  | .work _ p _ .clearDirty | .work _ p _ .setClean | .work _ p _ .onEvict
  | .work _ p _ .decInUse | .work _ p _ .zeroFlags => Held m t p ∧ pending p m.log = false
  | .work _ p _ .unlock =>
    (OnElem m p fun el => el.ce_mutex = some t ∧ el.ce_flags.active = false) ∧
      pending p m.log = false
  | .work _ p _ .destroy | .work _ p _ .free =>
    (OnElem m p fun el => el.ce_flags.active = false) ∧ pending p m.log = false
  | .pgMap _ (.growRead p) | .pgMap _ (.growUnlock p) => Held m t p
  | _ => True

/-! ## Interference -/

/-- What a step of another thread leaves `t` to rely on: a mutex it holds protects the flags,
freed and inactive elements stay so, and none of these elements becomes pending. -/
structure Undisturbed (t : Tid) (m m' : Memory) : Prop where
  freed : ∀ p, m.heap p = .freed → m'.heap p = .freed
  held : ∀ p el, m.heap p = .live el → el.ce_mutex = some t →
    OnElem m' p fun el' => el'.ce_mutex = some t ∧ el'.ce_flags = el.ce_flags
  inactive : ∀ p el, m.heap p = .live el → el.ce_flags.active = false →
    OnElem m' p fun el' => el'.ce_flags.active = false
  pending : ∀ p, (OnElem m p fun el => el.ce_mutex = some t ∨ el.ce_flags.active = false) →
    pending p m.log = false → pending p m'.log = false

section Interference

variable {m m' : Memory} {t : Tid} {p : ℕ} {el el' : Elem} {P Q : Elem → Prop} {e : Event}

/-- What is known of the flags of an element whose mutex is held stays known. -/
lemma Undisturbed.onElem_held (h : Undisturbed t m m') {R : ElFlags → Prop}
    (hp : OnElem m p fun el => el.ce_mutex = some t ∧ R el.ce_flags) :
    OnElem m' p fun el => el.ce_mutex = some t ∧ R el.ce_flags := by
  rcases hp with hfreed | ⟨el, hel, hmutex, hR⟩
  · exact .inl (h.freed p hfreed)
  · exact (h.held p el hel hmutex).mono fun el' ⟨hm, hf⟩ => ⟨hm, hf ▸ hR⟩

lemma Undisturbed.onElem_inactive (h : Undisturbed t m m')
    (hp : OnElem m p fun el => el.ce_flags.active = false) :
    OnElem m' p fun el => el.ce_flags.active = false := by
  rcases hp with hfreed | ⟨el, hel, hinactive⟩
  · exact .inl (h.freed p hfreed)
  · exact h.inactive p el hel hinactive

lemma Undisturbed.onElem_Held (h : Undisturbed t m m') (hp : Held m t p) : Held m' t p :=
  (h.onElem_held (R := fun _ => True) (hp.mono fun _ hm => ⟨hm, trivial⟩)).mono fun _ hm => hm.1

/-- The assertion of a frame survives what its thread can rely on. -/
theorem Undisturbed.frameOk (h : Undisturbed t m m') {f : Frame} (hf : FrameOk m t f) :
    FrameOk m' t f := by
  -- under the mutex, or once inactive, an element is not marked by others
  have hheld : ∀ {p}, Held m t p ∧ Machine.pending p m.log = false →
      Held m' t p ∧ Machine.pending p m'.log = false := fun ⟨hp, hn⟩ =>
    ⟨h.onElem_Held hp, h.pending _ (hp.mono fun _ => .inl) hn⟩
  have hinactive : ∀ {p}, (OnElem m p fun el => el.ce_flags.active = false) ∧
      Machine.pending p m.log = false → (OnElem m' p fun el => el.ce_flags.active = false) ∧
      Machine.pending p m'.log = false := fun ⟨hp, hn⟩ =>
    ⟨h.onElem_inactive hp, h.pending _ (hp.mono fun _ => .inr) hn⟩
  cases f with
  | flagOp op p pc =>
    cases pc with
    | test => trivial
    | lock => trivial
    | assign => exact h.onElem_Held hf
    | clearClean => exact h.onElem_held (R := fun fl => fl.dirty = true) hf
    | unlock => exact h.onElem_held (R := fun fl => op = .markDirty → fl.dirty = true) hf
  | evictByIdx i p locked =>
    cases locked with
    | false => trivial
    | true => exact h.onElem_Held hf
  | work i p evict st =>
    cases st with
    | addCount => exact h.onElem_Held hf
    | flush => exact h.onElem_Held hf
    | clearDirty => exact hheld hf
    | setClean => exact hheld hf
    | onEvict => exact hheld hf
    | decInUse => exact hheld hf
    | zeroFlags => exact hheld hf
    | unlock =>
      exact ⟨h.onElem_held (R := fun fl => fl.active = false) hf.1,
        h.pending _ (hf.1.mono fun _ hm => .inl hm.1) hf.2⟩
    | destroy => exact hinactive hf
    | free => exact hinactive hf
    | clearSlot => trivial
    | release => exact h.onElem_Held hf
  | evict key pc => trivial
  | lookup key pc => trivial
  | map pc => trivial
  | sync pc => trivial
  | disable pc => trivial
  | pgMap addr pc =>
    cases pc with
    | growRead p => exact h.onElem_Held hf
    | growUnlock p => exact h.onElem_Held hf
    | scan i => trivial
    | read i p => trivial
    | addCount p => trivial
    | size p => trivial
    | growLock p => trivial
    | ret p => trivial
  | caFlagOp op locked => trivial
  | setId p key => trivial
  | thread pc => trivial
  | unlockCa ret => trivial

/-! ### Steps of the memory -/

lemma undisturbed_of_eq (hheap : m'.heap = m.heap) (hlog : m'.log = m.log) :
    Undisturbed t m m' where
  freed _ hp := hheap ▸ hp
  held _ el hel hm := .inr ⟨el, hheap ▸ hel, hm, rfl⟩
  inactive _ el hel hf := .inr ⟨el, hheap ▸ hel, hf⟩
  pending _ _ hn := hlog ▸ hn

lemma Undisturbed.trans {m₁ : Memory} (h : Undisturbed t m m₁) (h' : Undisturbed t m₁ m') :
    Undisturbed t m m' where
  freed p hp := h'.freed p (h.freed p hp)
  held p el hel hm := h'.onElem_held (R := fun fl => fl = el.ce_flags) (h.held p el hel hm)
  inactive p el hel hf := h'.onElem_inactive (h.inactive p el hel hf)
  pending p hp hn := by
    -- an element that `t` relies on is still one after the first step
    refine h'.pending p ?_ (h.pending p hp hn)
    rcases hp with hfreed | ⟨el, hel, hm | hf⟩
    · exact .inl (h.freed p hfreed)
    · exact (h.held p el hel hm).mono fun _ hm' => .inl hm'.1
    · exact (h.inactive p el hel hf).mono fun _ => .inr

/-- An element changes; its holder is told nothing new, and an inactive one stays inactive. -/
lemma undisturbed_setEl (hel : m.heap p = .live el)
    (hheld : el.ce_mutex = some t → el'.ce_mutex = some t ∧ el'.ce_flags = el.ce_flags)
    (hinactive : el.ce_flags.active = false → el'.ce_flags.active = false) :
    Undisturbed t m (m.setEl p el') where
  freed q hq := by
    have hqp : q ≠ p := by
      rintro rfl
      simp [hel] at hq
    simp [Memory.setEl, Function.update_of_ne hqp, hq]
  held q el₁ hq hm := by
    -- the element at `p` is the only one that changes
    by_cases hqp : q = p
    · subst hqp
      obtain rfl : el = el₁ := live_inj hel hq
      exact .inr ⟨el', by simp [Memory.setEl], hheld hm⟩
    · exact .inr ⟨el₁, by simp [Memory.setEl, Function.update_of_ne hqp, hq], hm, rfl⟩
  inactive q el₁ hq hf := by
    by_cases hqp : q = p
    · subst hqp
      obtain rfl : el = el₁ := live_inj hel hq
      exact .inr ⟨el', by simp [Memory.setEl], hinactive hf⟩
    · exact .inr ⟨el₁, by simp [Memory.setEl, Function.update_of_ne hqp, hq], hf⟩
  pending q _ hn := hn

/-- An event that is no mark makes nothing pending. -/
lemma pending_cons_of_ne {log : List Event} (he : e ≠ .marked p) (hn : pending p log = false) :
    pending p (e :: log) = false := by
  cases e with
  | marked q =>
    have hq : q ≠ p := fun hq => he (hq ▸ rfl)
    simp [pending, hn, hq]
  | flushed q => simp [pending, hn]
  | evicted q => simp [pending, hn]
  | freed q => simp [pending, hn]

lemma undisturbed_emit (he : ∀ p, (OnElem m p fun el => el.ce_mutex = some t ∨
    el.ce_flags.active = false) → e ≠ .marked p) : Undisturbed t m (m.emit e) where
  freed _ hp := hp
  held _ el hel hm := .inr ⟨el, hel, hm, rfl⟩
  inactive _ el hel hf := .inr ⟨el, hel, hf⟩
  pending p hp hn := pending_cons_of_ne (he p hp) hn

lemma undisturbed_free :
    Undisturbed t m ({ m with heap := Function.update m.heap p .freed }.emit (.freed p)) where
  freed q hq := by
    by_cases hqp : q = p
    · simp [Memory.emit, hqp]
    · simp [Memory.emit, Function.update_of_ne hqp, hq]
  held q el₁ hq hm := by
    by_cases hqp : q = p
    · exact .inl (by simp [Memory.emit, hqp])
    · exact .inr ⟨el₁, by simp [Memory.emit, Function.update_of_ne hqp, hq], hm, rfl⟩
  inactive q el₁ hq hf := by
    by_cases hqp : q = p
    · exact .inl (by simp [Memory.emit, hqp])
    · exact .inr ⟨el₁, by simp [Memory.emit, Function.update_of_ne hqp, hq], hf⟩
  pending q _ hn := pending_cons_of_ne (by simp) hn

lemma undisturbed_malloc (hp : m.heap p = .unused) : Undisturbed t m (m.setEl p el') := by
  have hne : ∀ {q c}, m.heap q = c → c ≠ .unused → (m.setEl p el').heap q = c := by
    intro q c hq hc
    have hqp : q ≠ p := by
      rintro rfl
      exact hc (hq.symm.trans hp)
    simp [Memory.setEl, Function.update_of_ne hqp, hq]
  exact ⟨fun q hq => hne hq (by simp), fun q el hq hm => .inr ⟨el, hne hq (by simp), hm, rfl⟩,
    fun q el hq hf => .inr ⟨el, hne hq (by simp), hf⟩, fun q _ hn => hn⟩

end Interference

/-! ## What a step preserves -/

section Steps

variable {m m' : Memory} {t : Tid} {p i : ℕ} {el el' : Elem} {e : Event} {fs : List Frame}

lemma MemOk.of_eq (h : MemOk m) (hheap : m'.heap = m.heap) (hlog : m'.log = m.log) : MemOk m' where
  dirty := by simpa [hheap, hlog] using h.dirty
  noDrop := hlog ▸ h.noDrop

lemma MemOk.dirty_of_pending (h : MemOk m) (hel : m.heap p = .live el)
    (hpend : pending p m.log = true) : el.ce_flags.dirty = true := by
  rcases h.dirty p hpend with ⟨el', hel', hdirty⟩
  obtain rfl : el = el' := live_inj hel hel'
  exact hdirty

/-- A clean element is not pending. -/
lemma MemOk.not_pending (h : MemOk m) (hel : m.heap p = .live el)
    (hclean : el.ce_flags.dirty = false) : pending p m.log = false := by
  by_contra hpend
  simp [h.dirty_of_pending hel (by simpa using hpend)] at hclean

lemma MemOk.setEl (h : MemOk m) (hdirty : pending p m.log = true → el'.ce_flags.dirty = true) :
    MemOk (m.setEl p el') where
  dirty q hq := by
    -- the other elements are untouched, and so is the log
    by_cases hqp : q = p
    · subst hqp
      exact ⟨el', by simp [Memory.setEl], hdirty hq⟩
    · rcases h.dirty q hq with ⟨el, hel, hd⟩
      exact ⟨el, by simp [Memory.setEl, Function.update_of_ne hqp, hel], hd⟩
  noDrop := h.noDrop

/-- The flags change, and a dirty element stays dirty. -/
lemma MemOk.setEl_of_dirty (h : MemOk m) (hel : m.heap p = .live el)
    (hdirty : el.ce_flags.dirty = true → el'.ce_flags.dirty = true) : MemOk (m.setEl p el') :=
  h.setEl fun hpend => hdirty (h.dirty_of_pending hel hpend)

lemma MemOk.emit (h : MemOk m) (hmark : ∀ p, e ≠ .marked p) (hfree : ∀ p, e ≠ .freed p) :
    MemOk (m.emit e) where
  dirty p hp := by
    refine h.dirty p ?_
    by_contra hn
    simp [Memory.emit, pending_cons_of_ne (hmark p) (by simpa using hn)] at hp
  noDrop := noDrop_cons.mpr ⟨fun p he => absurd he (hfree p), h.noDrop⟩

/-- A mark completes on an element that is dirty. -/
lemma MemOk.mark (h : MemOk m) (hel : m.heap p = .live el) (hdirty : el.ce_flags.dirty = true) :
    MemOk (m.emit (.marked p)) where
  dirty q hq := by
    by_cases hqp : q = p
    · subst hqp
      exact ⟨el, hel, hdirty⟩
    · have hpend : pending q m.log = true := by
        simpa [Memory.emit, pending, Ne.symm hqp] using hq
      exact h.dirty q hpend
  noDrop := noDrop_cons.mpr ⟨fun p he => by simp at he, h.noDrop⟩

/-- Freeing an element that is not pending drops nothing. -/
lemma MemOk.free (h : MemOk m) (hn : pending p m.log = false) :
    MemOk ({ m with heap := Function.update m.heap p .freed }.emit (.freed p)) where
  dirty q hq := by
    have hpend : pending q m.log = true := hq
    have hqp : q ≠ p := by
      rintro rfl
      simp [hn] at hpend
    -- what is pending is another element, and that one is still live
    rcases h.dirty q hpend with ⟨el, hel, hd⟩
    exact ⟨el, by simp [Memory.emit, Function.update_of_ne hqp, hel], hd⟩
  noDrop := by
    refine noDrop_cons.mpr ⟨?_, h.noDrop⟩
    intro q he
    rw [Event.freed.injEq] at he
    exact he ▸ hn

lemma MemOk.malloc (h : MemOk m) (hp : m.heap p = .unused) : MemOk (m.setEl p el') := by
  refine h.setEl ?_
  intro hpend
  rcases h.dirty p hpend with ⟨el, hel, -⟩
  simp [hp] at hel

/-- What has to be shown of a step of `t` that leaves the frames `fs`. -/
structure Good (t : Tid) (m m' : Memory) (fs : List Frame) : Prop where
  mem : MemOk m'
  frames : StackOk FrameOk m' t fs
  others : ∀ t' ≠ t, Undisturbed t' m m'

/-- A frame without an assertion. -/
def Free (f : Frame) : Prop := ∀ m t, FrameOk m t f

attribute [local simp] Free FrameOk

lemma stackOk_of_free (h : ∀ f ∈ fs, Free f) : StackOk FrameOk m t fs := by
  cases fs with
  | nil => trivial
  | cons f fs => exact ⟨h f (by simp) m t, fun g hg m' => h g (by simp [hg]) m' t⟩

/-- A step that touches neither the elements nor the log. -/
lemma good_of_eq (h : MemOk m) (hheap : m'.heap = m.heap) (hlog : m'.log = m.log)
    (hfs : StackOk FrameOk m' t fs) : Good t m m' fs :=
  ⟨h.of_eq hheap hlog, hfs, fun _ _ => undisturbed_of_eq hheap hlog⟩

/-- A step that changes neither the flags nor the mutex of an element. -/
lemma good_setEl_same (h : MemOk m) (hel : m.heap p = .live el)
    (hmutex : el'.ce_mutex = el.ce_mutex) (hflags : el'.ce_flags = el.ce_flags)
    (hfs : StackOk FrameOk (m.setEl p el') t fs) :
    Good t m (m.setEl p el') fs :=
  ⟨h.setEl_of_dirty hel fun hd => hflags ▸ hd, hfs, fun _ _ =>
    undisturbed_setEl hel (fun hm => ⟨hmutex.trans hm, hflags⟩) fun hf => hflags ▸ hf⟩

/-- A step that takes the mutex of an element. -/
lemma good_lock (h : MemOk m) (hel : m.heap p = .live el) (hfree : el.ce_mutex = none)
    (hfs : StackOk FrameOk (m.setEl p { el with ce_mutex := some t }) t fs) :
    Good t m (m.setEl p { el with ce_mutex := some t }) fs :=
  ⟨h.setEl_of_dirty hel fun hd => hd, hfs, fun _ _ =>
    undisturbed_setEl hel (fun hm => by simp [hfree] at hm) fun hf => hf⟩

/-- A step of the thread that holds the mutex of an element; it does not make it active. -/
lemma good_setEl_held (h : MemOk m) (hel : m.heap p = .live el) (hheld : el.ce_mutex = some t)
    (hdirty : pending p m.log = true → el'.ce_flags.dirty = true)
    (hinactive : el.ce_flags.active = false → el'.ce_flags.active = false)
    (hfs : StackOk FrameOk (m.setEl p el') t fs) : Good t m (m.setEl p el') fs :=
  ⟨h.setEl hdirty, hfs, fun _ ht => undisturbed_setEl hel
    (fun hm => absurd (Option.some.inj (hm.symm.trans hheld)) ht) hinactive⟩

/-- A step that records an event that is neither a mark nor a free. -/
lemma good_emit (h : MemOk m) (hmark : ∀ p, e ≠ .marked p) (hfree : ∀ p, e ≠ .freed p)
    (hfs : StackOk FrameOk (m.emit e) t fs) : Good t m (m.emit e) fs :=
  ⟨h.emit hmark hfree, hfs, fun _ _ => undisturbed_emit fun p _ => hmark p⟩

/-! ## The functions -/

/-- The end of `cache_element_mark_dirty`: the mark completes on an active element, so no
eviction has gone past its decision. -/
lemma good_mark (h : MemOk m) (hel : m.heap p = .live el) (hheld : el.ce_mutex = some t)
    (hdirty : el.ce_flags.dirty = true) (hactive : el.ce_flags.active = true) :
    Good t m ((m.setEl p { el with ce_mutex := none }).emit (.marked p)) [] := by
  have hself : (m.setEl p { el with ce_mutex := none }).heap p =
      .live { el with ce_mutex := none } := by simp [Memory.setEl]
  have hunlock : Good t m (m.setEl p { el with ce_mutex := none }) [] :=
    good_setEl_held h hel hheld (fun _ => hdirty) (fun hf => hf) trivial
  refine ⟨hunlock.mem.mark hself hdirty, trivial, ?_⟩
  intro t' ht
  refine (hunlock.others t' ht).trans (undisturbed_emit ?_)
  intro q hq he
  obtain rfl : p = q := Event.marked.inj he
  -- the element is unlocked and active, so nobody relies on it not being pending
  rcases hq.of_live hself with hm | hf
  · simp at hm
  · simp [hactive] at hf

theorem good_flagOp {op : FlagOp} {pc : FlagPc} (hexec : execFlagOp m t op p pc = some (m', fs))
    (hok : stepOk m (.flagOp op p pc) = true) (h : MemOk m)
    (hf : FrameOk m t (.flagOp op p pc)) : Good t m m' fs := by
  cases pc with
  | test =>
    rcases Option.map_eq_some_iff.mp hexec with ⟨el, -, heq⟩
    rcases Prod.mk.inj heq with ⟨rfl, rfl⟩
    refine good_of_eq h rfl rfl (stackOk_of_free ?_)
    intro f hfree
    -- an inactive element ends the call, an active one is locked next
    split_ifs at hfree
    · rw [List.mem_singleton] at hfree
      exact hfree ▸ fun _ _ => trivial
    · simp at hfree
  | lock =>
    rcases frames_of_map hexec with ⟨hlock, rfl⟩
    rcases Memory.lockEl_eq_some hlock with ⟨el, hel, hfree, rfl⟩
    exact good_lock h hel hfree ⟨onElem_setEl rfl, by simp⟩
  | assign =>
    rcases frames_of_map hexec with ⟨hset, rfl⟩
    rcases Memory.setFlags_eq_some hset with ⟨el, hel, rfl⟩
    have hheld : el.ce_mutex = some t := OnElem.of_live hf hel
    refine good_setEl_held h hel hheld
      (fun hpend => op.assign_dirty (h.dirty_of_pending hel hpend))
      (fun hf => (op.assign_active _).trans hf) ⟨?_, by simp⟩
    -- only the end of `cache_element_mark_dirty` has to know that the element is dirty
    cases op with
    | markDirty => exact onElem_setEl ⟨hheld, rfl⟩
    | markEviction => exact onElem_setEl ⟨hheld, fun he => by simp at he⟩
    | pin => exact onElem_setEl ⟨hheld, fun he => by simp at he⟩
    | markUnpin => exact onElem_setEl ⟨hheld, fun he => by simp at he⟩
  | clearClean =>
    rcases frames_of_map hexec with ⟨hset, rfl⟩
    rcases Memory.setFlags_eq_some hset with ⟨el, hel, rfl⟩
    obtain ⟨hheld, hdirty⟩ : el.ce_mutex = some t ∧ el.ce_flags.dirty = true :=
      OnElem.of_live hf hel
    exact good_setEl_held h hel hheld (fun _ => hdirty) (fun hf => hf)
      ⟨onElem_setEl ⟨hheld, fun _ => hdirty⟩, by simp⟩
  | unlock =>
    rcases Option.map_eq_some_iff.mp hexec with ⟨m₁, hunlock, heq⟩
    rcases Prod.mk.inj heq with ⟨rfl, rfl⟩
    rcases Memory.unlockEl_eq_some hunlock with ⟨el, hel, hheld, rfl⟩
    have hdirty := (OnElem.of_live hf hel).2
    -- the end of `cache_element_mark_dirty` is the one that completes a mark
    split_ifs with hop
    · subst hop
      have hactive : el.ce_flags.active = true := by
        simpa [stepOk, Memory.el?_eq_some.mpr hel] using hok
      exact good_mark h hel hheld (hdirty rfl) hactive
    · have hkeep := h.dirty_of_pending hel
      exact good_setEl_held h hel hheld (fun hpend => hkeep hpend) (fun hf => hf) trivial

/-- The work on a locked element: the flush ends what is pending, and nothing becomes pending
before the free. -/
theorem good_work {evict : Bool} {st : Stage} (hexec : execWork m t i p evict st = some (m', fs))
    (hok : stepOk m (.work i p evict st) = true) (h : MemOk m)
    (hf : FrameOk m t (.work i p evict st)) : Good t m m' fs := by
  cases st with
  | addCount =>
    rcases frames_of_map hexec with ⟨hadd, rfl⟩
    rcases Memory.addCountEl_eq_some hadd with ⟨el, hel, rfl⟩
    have hheld : el.ce_mutex = some t := OnElem.of_live hf hel
    exact good_setEl_same h hel rfl rfl ⟨onElem_setEl hheld, by simp⟩
  -- from here on nothing is pending: the flush comes after the last mark
  | flush =>
    have hcallback : m.ca_on_flush_callback = true := hok
    rw [execWork, if_pos hcallback, Option.some.injEq, Prod.mk.injEq] at hexec
    rcases hexec with ⟨rfl, rfl⟩
    exact good_emit h (by simp) (by simp) ⟨⟨hf, by simp [Memory.emit, pending]⟩, by simp⟩
  | clearDirty =>
    rcases frames_of_map hexec with ⟨hset, rfl⟩
    rcases Memory.setFlags_eq_some hset with ⟨el, hel, rfl⟩
    rcases hf with ⟨hheld, hn⟩
    have hheld' := hheld.of_live hel
    exact good_setEl_held h hel hheld' (fun hpend => by simp [hn] at hpend) (fun hf => hf)
      ⟨⟨onElem_setEl hheld', hn⟩, by simp⟩
  | setClean =>
    rcases frames_of_map hexec with ⟨hset, rfl⟩
    rcases Memory.setFlags_eq_some hset with ⟨el, hel, rfl⟩
    rcases hf with ⟨hheld, hn⟩
    have hheld' := hheld.of_live hel
    refine good_setEl_held h hel hheld' (fun hpend => by simp [hn] at hpend) (fun hf => hf)
      ⟨?_, by simp⟩
    cases evict with
    | false => exact onElem_setEl hheld'
    | true => exact ⟨onElem_setEl hheld', hn⟩
  | onEvict =>
    rw [execWork, Option.some.injEq, Prod.mk.injEq] at hexec
    rcases hexec with ⟨rfl, rfl⟩
    rcases hf with ⟨hheld, hn⟩
    split_ifs
    · exact good_emit h (by simp) (by simp) ⟨⟨hheld, pending_cons_of_ne (by simp) hn⟩, by simp⟩
    · exact good_of_eq h rfl rfl ⟨⟨hheld, hn⟩, by simp⟩
  | decInUse =>
    rw [execWork, Option.some.injEq, Prod.mk.injEq] at hexec
    rcases hexec with ⟨rfl, rfl⟩
    have hkeep : Undisturbed t m { m with ca_elements_in_use := decInUse m.ca_elements_in_use } :=
      undisturbed_of_eq rfl rfl
    exact good_of_eq h rfl rfl ⟨hkeep.frameOk hf, by simp⟩
  -- nothing is pending, so the flags may go; from here on the element is inactive
  | zeroFlags =>
    rcases frames_of_map hexec with ⟨hset, rfl⟩
    rcases Memory.setFlags_eq_some hset with ⟨el, hel, rfl⟩
    rcases hf with ⟨hheld, hn⟩
    have hheld' := hheld.of_live hel
    exact good_setEl_held h hel hheld' (fun hpend => by simp [hn] at hpend) (fun _ => rfl)
      ⟨⟨onElem_setEl ⟨hheld', rfl⟩, hn⟩, by simp⟩
  | unlock =>
    rcases frames_of_map hexec with ⟨hunlock, rfl⟩
    rcases Memory.unlockEl_eq_some hunlock with ⟨el, hel, hheld, rfl⟩
    rcases hf with ⟨helem, hn⟩
    exact good_setEl_held h hel hheld (fun hpend => by simp [hn] at hpend) (fun hf => hf)
      ⟨⟨onElem_setEl (helem.of_live hel).2, hn⟩, by simp⟩
  | destroy =>
    rcases Option.map_eq_some_iff.mp hexec with ⟨el, -, heq⟩
    rcases Prod.mk.inj heq with ⟨rfl, rfl⟩
    exact good_of_eq h rfl rfl ⟨hf, by simp⟩
  -- the unlocked element is inactive, which keeps later marks from completing
  | free =>
    rcases frames_of_map hexec with ⟨hfree, rfl⟩
    rcases Memory.freeEl_eq_some hfree with ⟨el, -, rfl⟩
    exact ⟨h.free hf.2, ⟨trivial, by simp⟩, fun _ _ => undisturbed_free⟩
  | clearSlot =>
    rw [execWork, Option.some.injEq, Prod.mk.injEq] at hexec
    rcases hexec with ⟨rfl, rfl⟩
    exact good_of_eq h rfl rfl trivial
  | release =>
    rcases frames_of_map hexec with ⟨hunlock, rfl⟩
    rcases Memory.unlockEl_eq_some hunlock with ⟨el, hel, hheld, rfl⟩
    have hkeep := h.dirty_of_pending hel
    exact good_setEl_held h hel hheld (fun hpend => hkeep hpend) (fun hf => hf) trivial

/-- The decision of `cache_element_evict_by_idx` is made on flags read under the mutex. -/
theorem good_evictByIdx {locked : Bool} (hexec : execEvictByIdx m t i p locked = some (m', fs))
    (h : MemOk m) (hf : FrameOk m t (.evictByIdx i p locked)) : Good t m m' fs := by
  cases locked with
  | false =>
    rcases frames_of_map hexec with ⟨hlock, rfl⟩
    rcases Memory.lockEl_eq_some hlock with ⟨el, hel, hfree, rfl⟩
    exact good_lock h hel hfree ⟨onElem_setEl rfl, by simp⟩
  | true =>
    rcases Option.map_eq_some_iff.mp hexec with ⟨el, hel, heq⟩
    rcases Prod.mk.inj heq with ⟨rfl, rfl⟩
    refine good_of_eq h rfl rfl ⟨?_, by simp⟩
    -- flags read under the mutex: a clean element has nothing pending
    split_ifs with hdirty
    · exact hf
    · exact ⟨hf, h.not_pending (Memory.el?_eq_some.mp hel) (by simpa using hdirty)⟩

/-- The `trylock` of the thread: where its copy of the flags says to evict without a flush, the
element is clean. -/
theorem good_tryLock {flags : ElFlags}
    (hexec : execThread m t (.tryLock i p flags) = some (m', fs))
    (hok : stepOk m (.thread (.tryLock i p flags)) = true) (h : MemOk m) : Good t m m' fs := by
  rcases Option.map_eq_some_iff.mp hexec with ⟨el, hel, heq⟩
  have hlive := Memory.el?_eq_some.mp hel
  split_ifs at heq with hfree
  · rcases Prod.mk.inj heq with ⟨rfl, rfl⟩
    refine good_lock h hlive hfree ⟨?_, by simp⟩
    unfold afterTryLock
    split_ifs with hdirty hevict
    · exact onElem_setEl rfl
    · -- the copy says clean, and the condition that the flags still do
      have hclean : el.ce_flags.dirty = false := by
        simpa [stepOk, hel, hfree, hevict, hdirty] using hok
      exact ⟨onElem_setEl rfl, h.not_pending hlive hclean⟩
    · exact onElem_setEl rfl
  · rcases Prod.mk.inj heq with ⟨rfl, rfl⟩
    exact good_of_eq h rfl rfl ⟨trivial, by simp⟩

/-! ### The functions that leave the elements alone -/

/-- A statement that touches neither the elements nor the log and leaves frames without an
assertion. -/
def Quiet (m : Memory) (r : Result) : Prop :=
  ∀ m' fs, r = some (m', fs) → m'.heap = m.heap ∧ m'.log = m.log ∧ ∀ f ∈ fs, Free f

lemma Quiet.good {r : Result} (hr : Quiet m r) (hexec : r = some (m', fs)) (h : MemOk m) :
    Good t m m' fs := by
  rcases hr m' fs hexec with ⟨hheap, hlog, hfs⟩
  exact good_of_eq h hheap hlog (stackOk_of_free hfs)

lemma quiet_none : Quiet m none := fun _ _ h => by simp at h

lemma quiet_some (hheap : m'.heap = m.heap) (hlog : m'.log = m.log) (hfs : ∀ f ∈ fs, Free f) :
    Quiet m (some (m', fs)) := by
  rintro _ _ ⟨⟩
  exact ⟨hheap, hlog, hfs⟩

lemma quiet_stay (hfs : ∀ f ∈ fs, Free f) : Quiet m (some (m, fs)) := quiet_some rfl rfl hfs

lemma quiet_el? {g : Elem → List Frame} (hfs : ∀ el, ∀ f ∈ g el, Free f) :
    Quiet m ((m.el? p).map fun el => (m, g el)) := by
  intro m' fs h
  rcases Option.map_eq_some_iff.mp h with ⟨el, -, heq⟩
  rcases Prod.mk.inj heq with ⟨rfl, rfl⟩
  exact ⟨rfl, rfl, hfs el⟩

lemma quiet_lockCa (hfs : ∀ f ∈ fs, Free f) : Quiet m ((m.lockCa t).map fun m => (m, fs)) := by
  intro m' fs' h
  rcases frames_of_map h with ⟨hlock, rfl⟩
  rcases Memory.lockCa_eq_some hlock with ⟨-, rfl⟩
  exact ⟨rfl, rfl, hfs⟩

lemma quiet_unlockCa : Quiet m ((m.unlockCa t).map fun m => (m, [])) := by
  intro m' fs h
  rcases frames_of_map h with ⟨hunlock, rfl⟩
  rcases Memory.unlockCa_eq_some hunlock with ⟨-, rfl⟩
  exact ⟨rfl, rfl, by simp⟩

lemma quiet_evict (key : ℕ) (pc : ScanPc) : Quiet m (execEvict m t key pc) := by
  cases pc with
  | lock => exact quiet_lockCa (by simp)
  | scan i =>
    rw [execEvict]
    split_ifs
    · split
      · exact quiet_stay (by simp)
      · refine quiet_el? ?_
        intro el
        split_ifs <;> simp
    · exact quiet_stay (by simp)

theorem good_lookup {key : ℕ} {pc : ScanPc} (hexec : execLookup m t key pc = some (m', fs))
    (h : MemOk m) : Good t m m' fs := by
  cases pc with
  | lock => exact (quiet_lockCa (by simp)).good hexec h
  | scan i =>
    rcases scan_cases hexec with ⟨-, rfl, rfl⟩ | ⟨p, -, hexec⟩ | ⟨-, rfl, rfl⟩
    · exact good_of_eq h rfl rfl ⟨trivial, by simp⟩
    · rcases Option.map_eq_some_iff.mp hexec with ⟨el, hel, heq⟩
      split_ifs at heq
      · rcases Prod.mk.inj heq with ⟨rfl, rfl⟩
        exact good_setEl_same h (Memory.el?_eq_some.mp hel) rfl rfl ⟨trivial, by simp⟩
      · rcases Prod.mk.inj heq with ⟨rfl, rfl⟩
        exact good_of_eq h rfl rfl ⟨trivial, by simp⟩
    · exact good_of_eq h rfl rfl ⟨trivial, by simp⟩

theorem good_map {pc : MapPc} {inp : Input} (hexec : execMap m t pc inp = some (m', fs))
    (h : MemOk m) : Good t m m' fs := by
  cases pc with
  | lock => exact (quiet_lockCa (by simp)).good hexec h
  | find =>
    refine Quiet.good (r := execMap m t .find inp) ?_ hexec h
    rw [execMap]
    split <;> exact quiet_stay (by simp)
  | lru i l =>
    refine Quiet.good (r := execMap m t (.lru i l) inp) ?_ hexec h
    rw [execMap]
    split_ifs
    · split
      · exact quiet_stay (by simp)
      · exact quiet_el? (by simp)
    · split
      · exact quiet_stay (by simp)
      · -- the slot is evicted first, by a call of its own
        rintro m' fs hslot
        rcases Option.map_eq_some_iff.mp hslot with ⟨p, -, heq⟩
        rcases Prod.mk.inj heq with ⟨rfl, rfl⟩
        exact ⟨rfl, rfl, by simp⟩
  | malloc sub =>
    cases inp with
    | alloc p id =>
      rw [execMap] at hexec
      split at hexec
      · -- the new element is at a fresh address, which nobody relies on
        rename_i hunused
        rcases Prod.mk.inj (Option.some.inj hexec) with ⟨rfl, rfl⟩
        exact ⟨h.malloc hunused, ⟨trivial, by simp⟩, fun _ _ => undisturbed_malloc hunused⟩
      · simp at hexec
    | allocFails => exact (quiet_stay (by simp)).good hexec h
    | go => simp [execMap] at hexec
    | call f => simp [execMap] at hexec
    | timeout => simp [execMap] at hexec
    | grow => simp [execMap] at hexec
  | publish sub p =>
    have hquiet : Quiet m (execMap m t (.publish sub p) inp) :=
      quiet_some rfl rfl (by simp)
    exact hquiet.good hexec h

lemma quiet_sync (pc : SyncPc) (inp : Input) : Quiet m (execSync m t pc inp) := by
  cases pc with
  | test =>
    refine quiet_stay ?_
    split_ifs <;> simp
  | lock => exact quiet_lockCa (by simp)
  | scan i =>
    rw [execSync]
    split_ifs
    · split
      · exact quiet_stay (by simp)
      · refine quiet_el? ?_
        intro el
        split_ifs <;> simp
    · exact quiet_stay (by simp)
  | setLoop => exact quiet_some rfl rfl (by simp)
  | wait =>
    intro m' fs hexec
    rcases sync_wait_cases hexec with ⟨rfl, rfl | ⟨rfl, -⟩⟩
    · exact ⟨rfl, rfl, by simp⟩
    · exact ⟨rfl, rfl, by simp⟩
  | clearLock rc => exact quiet_lockCa (by simp)
  | clear rc => exact quiet_some rfl rfl (by simp)
  | ret rc => exact quiet_stay (by simp)

lemma quiet_disable (pc : DisablePc) (inp : Input) : Quiet m (execDisable m t pc inp) := by
  cases pc with
  | lock => exact quiet_lockCa (by simp)
  | scan i =>
    rw [execDisable]
    split_ifs
    · split <;> exact quiet_stay (by simp)
    · exact quiet_stay (by simp)
  | setExit => exact quiet_some rfl rfl (by simp)
  | wait =>
    intro m' fs hexec
    rcases disable_wait_cases hexec with ⟨rfl, rfl⟩
    exact ⟨rfl, rfl, by simp⟩
  | join =>
    rw [execDisable]
    split_ifs
    · exact quiet_stay (by simp)
    · exact quiet_none
    · exact quiet_stay (by simp)
  | destroyMutex => exact quiet_some rfl rfl (by simp)
  | freeTable => exact quiet_some rfl rfl (by simp)
  | ret => exact quiet_stay (by simp)

/-- The growth of a page holds the mutex of its element and leaves its flags alone. -/
theorem good_pgMap {addr : ℕ} {pc : PgMapPc} {inp : Input}
    (hexec : execPgMap m t addr pc inp = some (m', fs)) (h : MemOk m)
    (hf : FrameOk m t (.pgMap addr pc)) : Good t m m' fs := by
  cases pc with
  | scan i =>
    refine Quiet.good (r := execPgMap m t addr (.scan i) inp) ?_ hexec h
    rw [execPgMap]
    split_ifs
    · split <;> exact quiet_stay (by simp)
    · exact quiet_stay (by simp)
  | read i p =>
    refine Quiet.good (r := execPgMap m t addr (.read i p) inp) (quiet_el? ?_) hexec h
    intro el
    split_ifs <;> simp
  | addCount p =>
    rcases frames_of_map hexec with ⟨hadd, rfl⟩
    rcases Memory.addCountEl_eq_some hadd with ⟨el, hel, rfl⟩
    exact good_setEl_same h hel rfl rfl ⟨trivial, by simp⟩
  | size p =>
    have hret : Quiet m (some (m, [.pgMap addr (.ret (some p))])) :=
      quiet_stay (by simp)
    cases inp with
    | grow => exact (quiet_stay (by simp)).good hexec h
    | go => exact hret.good hexec h
    | call f => exact hret.good hexec h
    | alloc p id => exact hret.good hexec h
    | allocFails => exact hret.good hexec h
    | timeout => exact hret.good hexec h
  | growLock p =>
    rcases frames_of_map hexec with ⟨hlock, rfl⟩
    rcases Memory.lockEl_eq_some hlock with ⟨el, hel, hfree, rfl⟩
    exact good_lock h hel hfree ⟨onElem_setEl rfl, by simp⟩
  | growRead p =>
    have hread : ((m.el? p).map fun _ => (m, [.pgMap addr (.growUnlock p)])) = some (m', fs) →
        Good t m m' fs := by
      intro hexec
      rcases Option.map_eq_some_iff.mp hexec with ⟨el, -, heq⟩
      rcases Prod.mk.inj heq with ⟨rfl, rfl⟩
      exact good_of_eq h rfl rfl ⟨hf, by simp⟩
    cases inp with
    | allocFails => exact (quiet_stay (by simp)).good hexec h
    | go => exact hread hexec
    | call f => exact hread hexec
    | alloc p id => exact hread hexec
    | timeout => exact hread hexec
    | grow => exact hread hexec
  | growUnlock p =>
    rcases frames_of_map hexec with ⟨hunlock, rfl⟩
    rcases Memory.unlockEl_eq_some hunlock with ⟨el, hel, hheld, rfl⟩
    have hkeep := h.dirty_of_pending hel
    exact good_setEl_held h hel hheld (fun hpend => hkeep hpend) (fun hf => hf)
      ⟨trivial, by simp⟩
  | ret p => exact (quiet_stay (by simp)).good hexec h

lemma quiet_caFlagOp (op : CaFlagOp) (locked : Bool) : Quiet m (execCaFlagOp m t op locked) := by
  cases locked with
  | false =>
    rw [execCaFlagOp]
    split_ifs
    · exact quiet_lockCa (by simp)
    · exact quiet_stay (by simp)
  | true => exact quiet_some rfl rfl (by simp)

/-- The thread touches an element only from its `trylock` on. -/
lemma quiet_thread {pc : ThreadPc} (hpc : ∀ i p flags, pc ≠ .tryLock i p flags) :
    Quiet m (execThread m t pc) := by
  cases pc with
  | start => exact quiet_some rfl rfl (by simp)
  | top => exact quiet_stay (by simp)
  | lock => exact quiet_lockCa (by simp)
  | enter =>
    rw [execThread]
    split_ifs
    · exact quiet_some rfl rfl (by simp)
    · exact quiet_stay (by simp)
  | elem i =>
    rw [execThread]
    split_ifs
    · split <;> exact quiet_stay (by simp)
    · exact quiet_stay (by simp)
  | read i p => exact quiet_el? (by simp)
  | tryLock i p flags => exact absurd rfl (hpc i p flags)
  | leave => exact quiet_some rfl rfl (by simp)
  | loop => exact quiet_stay (by simp)
  | finish => exact quiet_some rfl rfl (by simp)

theorem good_thread {pc : ThreadPc} (hexec : execThread m t pc = some (m', fs))
    (hok : stepOk m (.thread pc) = true) (h : MemOk m) : Good t m m' fs := by
  by_cases hpc : ∃ i p flags, pc = .tryLock i p flags
  · rcases hpc with ⟨i, p, flags, rfl⟩
    exact good_tryLock hexec hok h
  · push Not at hpc
    exact (quiet_thread hpc).good hexec h

/-- Every statement that meets the condition keeps the outline. -/
theorem good_exec {f : Frame} {inp : Input} (hexec : exec m t f inp = some (m', fs))
    (hok : stepOk m f = true) (h : MemOk m) (hf : FrameOk m t f) : Good t m m' fs := by
  replace hexec := execFrame_of_exec hexec
  cases f with
  | flagOp op p pc => exact good_flagOp hexec hok h hf
  | evictByIdx i p locked => exact good_evictByIdx hexec h hf
  | work i p evict st => exact good_work hexec hok h hf
  | evict key pc => exact (quiet_evict key pc).good hexec h
  | lookup key pc => exact good_lookup hexec h
  | map pc => exact good_map hexec h
  | sync pc => exact (quiet_sync pc inp).good hexec h
  | disable pc => exact (quiet_disable pc inp).good hexec h
  | pgMap addr pc => exact good_pgMap hexec h hf
  | caFlagOp op locked => exact (quiet_caFlagOp op locked).good hexec h
  | setId p key =>
    rcases Option.map_eq_some_iff.mp hexec with ⟨el, hel, heq⟩
    rcases Prod.mk.inj heq with ⟨rfl, rfl⟩
    exact good_setEl_same h (Memory.el?_eq_some.mp hel) rfl rfl trivial
  | thread pc => exact good_thread hexec hok h
  | unlockCa ret => exact quiet_unlockCa.good hexec h

end Steps

/-! ## Runs -/

/-- The calls that clients start have no assertion at their entry. -/
lemma free_of_entry {f : Frame} (h : entry f = true) : Free f := by
  intro m t
  cases f with
  | flagOp op p pc =>
    obtain rfl : pc = .test := by simpa [entry] using h
    trivial
  | evictByIdx i p locked => simp [entry] at h
  | work i p evict st => simp [entry] at h
  | evict key pc => trivial
  | lookup key pc => trivial
  | map pc => trivial
  | sync pc => trivial
  | disable pc => trivial
  | pgMap addr pc =>
    obtain rfl : pc = .scan 0 := by simpa [entry] using h
    trivial
  | caFlagOp op locked => trivial
  | setId p key => trivial
  | thread pc => trivial
  | unlockCa ret => trivial

theorem outline_noDrop : Outline system StepOk MemOk FrameOk where
  start {t inp fs} hstart m := by
    rcases start_eq_some hstart with ⟨n, f, rfl, rfl, hentry, rfl⟩
    exact ⟨free_of_entry hentry m _, by simp⟩
  own hexec hok h hf :=
    have hgood := good_exec hexec hok h hf
    ⟨hgood.mem, hgood.frames⟩
  other hexec hok h hf t' ht _ hg := ((good_exec hexec hok h hf).others t' ht).frameOk hg

lemma valid_init (capacity : ℕ) (on_evict on_flush : Bool) :
    Valid MemOk FrameOk (init capacity on_evict on_flush) := by
  refine ⟨⟨fun p hp => by simp [init, cacheInit, pending] at hp, noDrop_nil⟩, ?_⟩
  intro t
  cases t with
  | cacheThread => exact ⟨trivial, by simp⟩
  | client n => trivial

/-- In every run of the cache thread and its clients whose statements meet `stepOk`, for every
interleaving, no dirty element is dropped. -/
theorem no_dirty_element_dropped {capacity : ℕ} {on_evict on_flush : Bool}
    {t : List (Tid × Input)}
    (hok : Along system.step (Meets StepOk) (init capacity on_evict on_flush) t) :
    Throughout system.step (fun s => NoDrop s.mem.log) (init capacity on_evict on_flush) t :=
  (outline_noDrop.throughout (valid_init capacity on_evict on_flush) hok).mono
    fun _ hvalid => hvalid.1.noDrop

/-! ### Runs that drop a dirty element, and one that does not -/

/-- The element is marked for eviction, the thread copies its flags, the element is marked dirty,
and the thread goes on. -/
def staleCopy : List (Tid × Input) :=
  mapped ++ call (.client 0) (.flagOp .markEviction 4096 .test) 4 ++ steps .cacheThread 6 ++
    call (.client 0) (.flagOp .markDirty 4096 .test) 5 ++ steps .cacheThread 7

/-- An eviction of the element by client 0 has cleared its flags when client 1, which saw it
active, marks it dirty. -/
def lateMark : List (Tid × Input) :=
  mapped ++ call (.client 1) (.flagOp .markDirty 4096 .test) 1 ++
    call (.client 0) (.evict 4096 .lock) 8 ++ steps (.client 1) 4 ++ steps (.client 0) 2

/-- The element is marked dirty and evicted. -/
def markThenEvict : List (Tid × Input) :=
  mapped ++ call (.client 0) (.flagOp .markDirty 4096 .test) 5 ++
    call (.client 0) (.evict 4096 .lock) 16

/-- The thread frees the element with the mark lost. -/
theorem stale_copy_drops_dirty :
    ∃ s, run system.step (init 1 true true) staleCopy = some s ∧ ¬ NoDrop s.mem.log := by
  refine ⟨_, rfl, ?_⟩
  intro h
  have hflushed := h [] [.evicted 4096, .marked 4096] 4096 rfl [.evicted 4096] [] rfl
  simp at hflushed

example : (run system.step (init 1 true true) lateMark).map (fun s => s.mem.log) =
    some [.freed 4096, .marked 4096, .evicted 4096] := by decide +kernel

/-- An eviction flushes the element before it frees it. -/
theorem no_dirty_element_dropped_evict :
    (run system.step (init 1 true true) markThenEvict).map (fun s => s.mem.log) =
        some [.freed 4096, .evicted 4096, .flushed 4096, .marked 4096] ∧
      Throughout system.step (fun s => NoDrop s.mem.log) (init 1 true true) markThenEvict :=
  ⟨by decide +kernel, no_dirty_element_dropped (by decide +kernel)⟩

end KanekFs.Cache.Machine
