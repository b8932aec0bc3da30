import KanekFs.Cache.NoDrop
import KanekFs.Cache.Pass
import KanekFs.Disk

/-!
# Writes that fail

What `CACHE_EL_DIRTY` says about the device when `write` may fail or be cut short. The page cache
runs on the machine of `cache.c`, with the outcome of `write` as an input beside the others:
`extent_write` drops it, so no statement depends on it. The history keeps, for each element, what
its last flush has transferred since it was last marked dirty.

* `Transferred` says that a statement which clears `CACHE_EL_DIRTY`, or frees a dirty element,
  finds the whole page transferred.
* `flush_then_clear` is the case of a single flush: the flag is cleared whether or not the page
  was transferred.
* `dirty_cleared_after_transfer` is the condition for whole runs. A write that is not complete is
  one of the three situations that it excludes; in the other two an element is freed with a mark
  that came after the decision not to flush it.
-/

namespace KanekFs.Cache.Machine

open Threads Run

/-! ## Flushing a page -/

/-- A call of `write` for a page, with its result: `none` is an error, and a number the bytes that
were transferred. `pe_num_blocks` is read under `ce_mutex`, which the growth of a page needs as
well. -/
structure PageWrite where
  pe_num_blocks : ℤ
  rc : Option ℕ
deriving DecidableEq

/-- The bytes that `extent_write` asks for: the product is an `int`, and becomes a `size_t`. -/
def PageWrite.count (w : PageWrite) : ℕ :=
  (Int.bmod (w.pe_num_blocks * kfsBlocksize) (2 ^ 32) % 2 ^ 64).toNat

/-- `extent_write`: its result, and the bytes that are transferred. The result of `write` is
dropped. -/
def extentWrite (w : PageWrite) : ℤ × ℕ :=
  (0, match w.rc with
    | none => 0
    | some n => min n w.count)

/-- `pgcache_on_flush`: it returns `NULL`, whatever `extent_write` returned. -/
def pgcacheOnFlush (w : PageWrite) : Option ℕ × ℕ := (none, (extentWrite w).2)

/-- What a flush has transferred of a page of `pe_num_blocks` blocks. -/
structure Sent where
  pe_num_blocks : ℤ
  bytes : ℕ
deriving DecidableEq

/-- The whole page was transferred. -/
def Sent.Complete (x : Sent) : Prop := (x.bytes : ℤ) = x.pe_num_blocks * kfsBlocksize

instance (x : Sent) : Decidable x.Complete := inferInstanceAs (Decidable (_ = _))

/-- What the flush with the write `w` sends. -/
def PageWrite.sent (w : PageWrite) : Sent := ⟨w.pe_num_blocks, (pgcacheOnFlush w).2⟩

/-! ## The page cache -/

/-- For each element, the last flush since it was last marked dirty. -/
abbrev Flushes := ℕ → Option Sent

/-- A flush is recorded, and a mark makes the page count as not sent. -/
def observeWrite (m : Memory) (_ : Tid) (f : Frame) (inp : Input × PageWrite) (h : Flushes) :
    Flushes :=
  match f with
  | .work _ p _ .flush =>
    if m.ca_on_flush_callback then Function.update h p (some inp.2.sent) else h
  | .flagOp .markDirty p .assign => Function.update h p none
  | _ => h

def pageSystem : Threads.System Tid (Memory × Flushes) Frame (Input × PageWrite) :=
  (system.widen PageWrite).observe observeWrite

/-- The page cache after `pgcache_alloc` and `cache_enable`: it has both callbacks. -/
def pageInit (elements_capacity : ℕ) : Threads.State Tid (Memory × Flushes) Frame where
  mem := (cacheInit elements_capacity true true, fun _ => none)
  stack := (init elements_capacity true true).stack

/-- The element that the statement takes `CACHE_EL_DIRTY` from, or frees. -/
def Frame.settles : Frame → Option ℕ
  | .work _ p _ .clearDirty | .work _ p _ .zeroFlags | .work _ p _ .free => some p
  | _ => none

/-- If the statement takes `CACHE_EL_DIRTY` from an element, or frees it while it has the flag,
the whole page was transferred since it was marked. -/
def Transferred (s : Memory × Flushes) (_ : Tid) (f : Frame) (_ : Input × PageWrite) : Prop :=
  ∀ p ∈ f.settles, ∀ el ∈ s.1.el? p, el.ce_flags.dirty = true → ∃ x ∈ s.2 p, x.Complete

/-- The condition on a statement: a flush transfers the whole page, the thread does not evict an
element that was marked dirty after it copied the flags, and none is marked dirty after an
eviction cleared its flags. -/
def sends (m : Memory) (f : Frame) (w : PageWrite) : Bool :=
  match f with
  | .work _ _ _ .flush => w.sent.Complete
  | .thread (.tryLock _ p flags) => (m.el? p).all fun el =>
      !(el.ce_mutex = none && flags.evict && !flags.dirty && el.ce_flags.dirty)
  | .flagOp .markDirty p .assign => (m.el? p).all fun el => el.ce_flags.active
  | _ => true

def Sends (s : Memory × Flushes) (_ : Tid) (f : Frame) (inp : Input × PageWrite) : Prop :=
  sends s.1 f inp.2 = true

instance (s : Memory × Flushes) (t : Tid) (f : Frame) (inp : Input × PageWrite) :
    Decidable (Sends s t f inp) := inferInstanceAs (Decidable (_ = true))

/-! ## The outline -/

/-- The element at `p`, unless it has been freed, does not have `CACHE_EL_DIRTY`. -/
def NotDirty (m : Memory) (p : ℕ) : Prop := OnElem m p fun el => el.ce_flags.dirty = false

/-- What the work on `p` relies on: a flush that was complete, and from the end of the flush on
that the element is not dirty. -/
def WorkSent (s : Memory × Flushes) (p : ℕ) : Stage → Prop
  | .clearDirty => ∃ x ∈ s.2 p, x.Complete
  | .onEvict | .decInUse | .zeroFlags | .unlock | .destroy | .free => NotDirty s.1 p
  | .addCount | .flush | .setClean | .clearSlot | .release => True

/-- What the calls of a thread rely on. -/
def TopSent (s : Memory × Flushes) : List Frame → Prop
  | .work _ p _ st :: _ => WorkSent s p st
  | _ => True

/-- The statement is the assignment of `cache_element_mark_dirty` to the element `p`. -/
def Frame.marksDirty (p : ℕ) (f : Frame) : Prop := f = .flagOp .markDirty p .assign

section Outline

variable {capacity : ℕ} {on_evict : Bool} {m m' : Memory} {h : Flushes} {t t' : Tid} {i p : ℕ}
  {f : Frame} {fs k k' : List Frame} {inp : Input × PageWrite} {st : Stage}

lemma topSent_of_not_works {s : Memory × Flushes} (hk : ∀ g ∈ k, g.works = false) :
    TopSent s k := by
  cases k with
  | nil => trivial
  | cons g k =>
    have hg := hk g (by simp)
    cases g with
    | work i p evict st => simp at hg
    | _ => trivial

/-- No other statement gives an element the flag. -/
lemma assigns_notDirty (hf : ¬ f.marksDirty p) {fl : ElFlags} (hfl : fl.dirty = false) :
    (f.assigns p fl).dirty = false := by
  have hassigned := assigned f p fl
  generalize f.assigns p fl = fl' at hassigned
  cases hassigned with
  | flagOp op =>
    cases op with
    | markDirty => exact absurd rfl hf
    | _ => exact hfl
  | clearDirty i ev => rfl
  | zeroFlags i ev => rfl
  | _ => exact hfl

lemma notDirty_exec {inp : Input} (hexec : exec m t f inp = some (m', fs))
    (hf : ¬ f.marksDirty p) (hp : NotDirty m p) : NotDirty m' p := by
  have hcell := (effect_exec hexec).cells p
  rcases hp with hfreed | ⟨el, hel, hdirty⟩
  · rw [hfreed] at hcell
    generalize hc : m'.heap p = c' at hcell
    cases hcell
    exact .inl hc
  · rw [hel] at hcell
    generalize hc : m'.heap p = c' at hcell
    cases hcell with
    | removed hfree => exact .inl hc
    | @assigned _ el' hfl =>
      have hdirty' : el'.ce_flags.dirty = false := hfl ▸ assigns_notDirty hf hdirty
      exact .inr ⟨el', hc, hdirty'⟩

/-! ### Steps of other threads -/

/-- Who works on an element has its mutex, or has cleared its flags. -/
lemma WorkPre.guarded {evict : Bool} (hp : WorkPre m t i p evict st) :
    OnElem m p fun el => el.ce_mutex = some t ∨ el.ce_flags.active = false := by
  have hheld : HeldOk m t p →
      OnElem m p fun el => el.ce_mutex = some t ∨ el.ce_flags.active = false :=
    fun hp => hp.mono fun el hel => .inl hel.1
  cases st with
  | addCount => exact hheld hp.2
  | flush => exact hheld hp.2
  | clearDirty => exact hheld hp.2
  | setClean => exact hp.2.mono fun el hel => .inl hel.1
  | onEvict => exact hheld hp.2.1
  | release => exact hheld hp.2.1
  | decInUse =>
    rcases hp.2.1 with ⟨el, hel, hmutex⟩
    exact .inr ⟨el, hel, .inl hmutex⟩
  | zeroFlags =>
    rcases hp.2.1 with ⟨el, hel, hmutex⟩
    exact .inr ⟨el, hel, .inl hmutex⟩
  | unlock =>
    rcases hp.2.1 with ⟨el, hel, hmutex, -⟩
    exact .inr ⟨el, hel, .inl hmutex⟩
  | destroy =>
    rcases hp.2.1 with ⟨el, hel, hactive⟩
    exact .inr ⟨el, hel, .inr hactive⟩
  | free =>
    rcases hp.2.1 with ⟨el, hel, hactive⟩
    exact .inr ⟨el, hel, .inr hactive⟩
  | clearSlot => exact .inl hp.2.1

/-- What is known of the last flush of `p` changes with a flush or a mark. -/
lemma observeWrite_apart (hf : ¬ f.marksDirty p) (hflush : ∀ i ev, f ≠ .work i p ev .flush) :
    observeWrite m t f inp h p = h p := by
  cases f with
  | work i q ev st =>
    cases st with
    | flush =>
      have hpq : p ≠ q := by
        rintro rfl
        exact hflush i ev rfl
      simp only [observeWrite]
      split_ifs
      · exact Function.update_of_ne hpq ..
      · rfl
    | _ => rfl
  | flagOp op q pc =>
    cases op with
    | markDirty =>
      cases pc with
      | assign =>
        have hpq : p ≠ q := by
          rintro rfl
          exact hf rfl
        exact Function.update_of_ne hpq ..
      | _ => rfl
    | _ => rfl
  | _ => rfl

/-- Such an element is not marked dirty by another thread. -/
lemma not_marksDirty (hexec : exec m t f inp.1 = some (m', fs)) (hC : Sends (m, h) t f inp)
    (hown : Own m t (f :: k)) (ht : t' ≠ t)
    (hp : OnElem m p fun el => el.ce_mutex = some t' ∨ el.ce_flags.active = false) :
    ¬ f.marksDirty p := by
  rintro rfl
  rcases frames_of_map (execFrame_of_exec hexec) with ⟨hset, -⟩
  rcases Memory.setFlags_eq_some hset with ⟨el, hel, -⟩
  have hheld : el.ce_mutex = some t := (OnElem.of_live hown.2.1 hel).1
  have hactive : el.ce_flags.active = true := by
    simpa [Sends, sends, Memory.el?_eq_some.mpr hel] using hC
  rcases hp.of_live hel with hmutex | hinactive
  · exact ht (Option.some.inj (hmutex.symm.trans hheld))
  · simp [hactive] at hinactive

/-- What the work of a thread relies on is not disturbed by the others. -/
lemma topSent_bystander (hexec : exec m t f inp.1 = some (m', fs)) (hC : Sends (m, h) t f inp)
    (hown : Own m t (f :: k)) (ht : t' ≠ t) (hown' : Own m t' k') (hk' : TopSent (m, h) k') :
    TopSent (m', observeWrite m t f inp h) k' := by
  cases k' with
  | nil => trivial
  | cons g k' =>
    cases g with
    | work i p evict st =>
      have hnot := not_marksDirty hexec hC hown ht hown'.2.1.2.guarded
      have hkeep : NotDirty m p → NotDirty m' p := notDirty_exec hexec hnot
      cases st with
      | clearDirty =>
        -- the other thread does not flush either: that takes `ca_mutex`
        have hflush : ∀ i ev, f ≠ .work i p ev .flush := by
          rintro i ev rfl
          exact ht (Option.some.inj ((hown'.holds rfl).symm.trans (hown.holds rfl)))
        have hsame : observeWrite m t f inp h p = h p := observeWrite_apart hnot hflush
        rcases hk' with ⟨x, hx, hcomplete⟩
        exact ⟨x, hsame.trans hx, hcomplete⟩
      | onEvict => exact hkeep hk'
      | decInUse => exact hkeep hk'
      | zeroFlags => exact hkeep hk'
      | unlock => exact hkeep hk'
      | destroy => exact hkeep hk'
      | free => exact hkeep hk'
      | _ => trivial
    | _ => trivial

/-! ### Steps of the same thread -/

lemma topSent_work {evict : Bool} (hexec : exec m t (.work i p evict st) inp.1 = some (m', fs))
    (hC : Sends (m, h) t (.work i p evict st) inp) (hcall : m.ca_on_flush_callback = true)
    (hown : Own m t (.work i p evict st :: k)) (hst : WorkSent (m, h) p st) :
    TopSent (m', observeWrite m t (.work i p evict st) inp h) (fs ++ k) := by
  have hrest : TopSent (m', h) k := topSent_of_not_works hown.2.2.not_works
  have hkeep : NotDirty m p → NotDirty m' p := notDirty_exec hexec (by simp [Frame.marksDirty])
  have hpre := hown.2.1.2
  replace hexec := execFrame_of_exec hexec
  cases st with
  | addCount =>
    rcases frames_of_map hexec with ⟨-, rfl⟩
    trivial
  | flush =>
    rcases Prod.mk.inj (Option.some.inj hexec) with ⟨rfl, rfl⟩
    have hcomplete : inp.2.sent.Complete := of_decide_eq_true hC
    refine ⟨inp.2.sent, ?_, hcomplete⟩
    simp [observeWrite, hcall]
  | clearDirty =>
    rcases frames_of_map hexec with ⟨-, rfl⟩
    trivial
  | setClean =>
    rcases frames_of_map hexec with ⟨-, rfl⟩
    have hclean : NotDirty m p := hpre.2.mono fun _ hel => hel.2
    cases evict with
    | false => trivial
    | true => exact hkeep hclean
  | onEvict =>
    rcases Prod.mk.inj (Option.some.inj hexec) with ⟨rfl, rfl⟩
    exact hkeep hst
  | decInUse =>
    rcases Prod.mk.inj (Option.some.inj hexec) with ⟨rfl, rfl⟩
    exact hkeep hst
  | zeroFlags =>
    rcases frames_of_map hexec with ⟨-, rfl⟩
    exact hkeep hst
  | unlock =>
    rcases frames_of_map hexec with ⟨-, rfl⟩
    exact hkeep hst
  | destroy =>
    rcases Option.map_eq_some_iff.mp hexec with ⟨el, -, heq⟩
    rcases Prod.mk.inj heq with ⟨rfl, rfl⟩
    exact hkeep hst
  | free =>
    rcases frames_of_map hexec with ⟨-, rfl⟩
    trivial
  | clearSlot =>
    rcases Prod.mk.inj (Option.some.inj hexec) with ⟨rfl, rfl⟩
    exact hrest
  | release =>
    rcases frames_of_map hexec with ⟨-, rfl⟩
    exact hrest

lemma topSent_exec (hexec : exec m t f inp.1 = some (m', fs)) (hC : Sends (m, h) t f inp)
    (hcall : m.ca_on_flush_callback = true) (hown : Own m t (f :: k))
    (hk : TopSent (m, h) (f :: k)) : TopSent (m', observeWrite m t f inp h) (fs ++ k) := by
  have hplain : f.readsFlags = false → TopSent (m', observeWrite m t f inp h) (fs ++ k) := by
    intro hf
    refine topSent_of_not_works ?_
    intro g hg
    rcases List.mem_append.mp hg with hg | hg
    · exact works_exec hexec hf g hg
    · exact hown.2.2.not_works g hg
  have hframe := execFrame_of_exec hexec
  cases f with
  | work i p evict st => exact topSent_work hexec hC hcall hown hk
  | evictByIdx i p locked =>
    cases locked with
    | false => exact hplain rfl
    | true =>
      -- the flags are read under the mutex
      rcases Option.map_eq_some_iff.mp hframe with ⟨el, hel, heq⟩
      rcases Prod.mk.inj heq with ⟨rfl, rfl⟩
      split_ifs with hdirty
      · trivial
      · exact .inr ⟨el, Memory.el?_eq_some.mp hel, by simpa using hdirty⟩
  | thread pc =>
    cases pc with
    | read i p =>
      rcases Option.map_eq_some_iff.mp hframe with ⟨el, -, heq⟩
      rcases Prod.mk.inj heq with ⟨rfl, rfl⟩
      trivial
    | tryLock i p flags =>
      rcases Option.map_eq_some_iff.mp hframe with ⟨el, hel, heq⟩
      split_ifs at heq with hfree
      · rcases Prod.mk.inj heq with ⟨rfl, rfl⟩
        unfold afterTryLock
        split_ifs with hdirty hevict
        · trivial
        · -- an eviction without a flush: the copy of the flags is up to date
          have hclean : el.ce_flags.dirty = false := by
            simpa [Sends, sends, hel, hfree, hdirty, hevict] using hC
          exact onElem_setEl hclean
        · trivial
      · rcases Prod.mk.inj heq with ⟨rfl, rfl⟩
        trivial
    | _ => exact hplain rfl
  | _ => exact hplain rfl

lemma topSent_entry {s : Memory × Flushes} (hentry : entry f = true) : TopSent s [f] := by
  cases f with
  | work i p evict st => simp [entry] at hentry
  | _ => trivial

/-- The outline of the page cache, for runs that meet `Sends`. -/
theorem sentOutline (capacity : ℕ) :
    StackOutline pageSystem Sends
      (fun s => Inv capacity true s.1 ∧ s.1.ca_on_flush_callback = true)
      (fun s t k => Own s.1 t k ∧ TopSent s k) :=
  (((outline capacity true).widen PageWrite).observe observeWrite).extend (fun _ => trivial)
    (by
      intro t inp fs hstart s _ _
      rcases start_eq_some hstart with ⟨n, f, rfl, -, hentry, rfl⟩
      exact topSent_entry hentry)
    (by
      intro s t f k inp s' fs hexec hC hinv hown _ _ hcall hk
      rcases System.exec_observe.mp hexec with ⟨hexec, hobs⟩
      have hnext := topSent_exec (h := s.2) hexec hC hcall hown hk
      rw [← hobs] at hnext
      exact ⟨(effect_exec hexec).onFlush.trans hcall, hnext⟩)
    (by
      intro s t f k inp s' fs hexec hC hinv hown _ _ t' ht k' hown' hk'
      rcases System.exec_observe.mp hexec with ⟨hexec, hobs⟩
      have hnext := topSent_bystander (h := s.2) hexec hC hown ht hown' hk'
      rw [← hobs] at hnext
      exact hnext)

end Outline

/-! ## Runs -/

/-- A dirty element is flushed and then has its flag cleared: the page was transferred exactly
when that flush was complete. -/
theorem flush_then_clear {m m' : Memory} {h : Flushes} {t : Tid} {i p : ℕ} {evict : Bool}
    {el : Elem} {inp inp' : Input × PageWrite} {fs : List Frame}
    (hexec : exec m t (.work i p evict .flush) inp.1 = some (m', fs))
    (hcall : m.ca_on_flush_callback = true) (hel : m.heap p = .live el)
    (hdirty : el.ce_flags.dirty = true) :
    Transferred (m', observeWrite m t (.work i p evict .flush) inp h) t
      (.work i p evict .clearDirty) inp' ↔ inp.2.sent.Complete := by
  rcases Prod.mk.inj (Option.some.inj (execFrame_of_exec hexec)) with ⟨rfl, -⟩
  have hel' : (m.emit (.flushed p)).el? p = some el := Memory.el?_eq_some.mpr hel
  simp [Transferred, Frame.settles, observeWrite, hcall, hel', hdirty]

/-- A statement that takes the flag away comes after a transfer of everything. -/
lemma transferred_of_topSent {s : Memory × Flushes} {t : Tid} {f : Frame} {k : List Frame}
    {inp : Input × PageWrite} (hk : TopSent s (f :: k)) : Transferred s t f inp := by
  intro p hp el hel hdirty
  replace hel := Memory.el?_eq_some.mp hel
  have hnot : ¬ NotDirty s.1 p := by
    intro hclean
    simp [hclean.of_live hel] at hdirty
  cases f with
  | work i q evict st =>
    cases st with
    | clearDirty =>
      obtain rfl : q = p := Option.some.inj hp
      exact hk
    | zeroFlags =>
      obtain rfl : q = p := Option.some.inj hp
      exact absurd hk hnot
    | free =>
      obtain rfl : q = p := Option.some.inj hp
      exact absurd hk hnot
    | _ => simp [Frame.settles] at hp
  | _ => simp [Frame.settles] at hp

lemma holds_pageInit (capacity : ℕ) :
    Holds (fun s : Memory × Flushes => Inv capacity true s.1 ∧ s.1.ca_on_flush_callback = true)
      (fun s t k => Own s.1 t k ∧ TopSent s k) (pageInit capacity) := by
  rcases holds_init capacity true true with ⟨hinv, hown⟩
  refine ⟨⟨hinv, rfl⟩, ?_⟩
  intro t
  refine ⟨hown t, ?_⟩
  cases t with
  | cacheThread => trivial
  | client n => trivial

/-- In every run whose statements meet `Sends`, for every interleaving, `CACHE_EL_DIRTY` is
cleared, and a dirty element freed, only after a write of the whole page. -/
theorem dirty_cleared_after_transfer {capacity : ℕ} {as : List (Tid × Input × PageWrite)}
    (hC : Along pageSystem.step (Meets Sends) (pageInit capacity) as) :
    Along pageSystem.step (Meets Transferred) (pageInit capacity) as := by
  refine ((sentOutline capacity).throughout (holds_pageInit capacity) hC).along ?_
  rintro s a ⟨-, hstacks⟩ f k hstack
  have hk := (hstacks a.1).2
  rw [hstack] at hk
  exact transferred_of_topSent hk

instance (s : Memory × Flushes) (t : Tid) (f : Frame) (inp : Input × PageWrite) :
    Decidable (Transferred s t f inp) :=
  inferInstanceAs (Decidable (∀ p ∈ f.settles, ∀ el ∈ s.1.el? p,
    el.ce_flags.dirty = true → ∃ x ∈ s.2 p, x.Complete))

/-- A run in which every write ends in the same way. -/
def withWrite (w : PageWrite) (as : List (Tid × Input)) : List (Tid × Input × PageWrite) :=
  as.map fun a => (a.1, a.2, w)

/-- An element of one block is marked dirty and evicted, and the write succeeds. -/
theorem dirty_cleared_after_transfer_evict :
    (run pageSystem.step (pageInit 1) (withWrite ⟨1, some 8192⟩ markThenEvict)).map
        (fun s => s.mem.1.log) =
      some [.freed 4096, .evicted 4096, .flushed 4096, .marked 4096] ∧
    Along pageSystem.step (Meets Transferred) (pageInit 1)
      (withWrite ⟨1, some 8192⟩ markThenEvict) :=
  ⟨by decide +kernel, dirty_cleared_after_transfer (by decide +kernel)⟩

/-- The same, and the write fails: the flag is cleared, and the element freed, with nothing on
the device. -/
theorem failed_write_clears_dirty :
    (run pageSystem.step (pageInit 1) (withWrite ⟨1, none⟩ markThenEvict)).map
        (fun s => s.mem.1.log) =
      some [.freed 4096, .evicted 4096, .flushed 4096, .marked 4096] ∧
    ¬ Along pageSystem.step (Meets Transferred) (pageInit 1)
      (withWrite ⟨1, none⟩ markThenEvict) :=
  ⟨by decide +kernel, by decide +kernel⟩

end KanekFs.Cache.Machine
