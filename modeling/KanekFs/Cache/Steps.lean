import KanekFs.Cache.Invariant

/-!
# Every statement keeps the invariant

One lemma for each function of `cache.c`: its statements keep `Inv`, leave its own thread what the
next statement relies on, and leave the other threads what theirs rely on. `outline` puts them
together; it holds of every run, with nothing asked of its steps.
-/

namespace KanekFs.Cache.Machine

open Threads Run Word

section Steps

variable {capacity : ℕ} {on_evict : Bool} {m m' : Memory} {t : Tid} {p i : ℕ} {el el' : Elem}
  {e : Event} {f : Frame} {fs k : List Frame}

/-- What has to be shown of a step of `t` that leaves the stack `k`. -/
structure Sound (capacity : ℕ) (on_evict : Bool) (t : Tid) (m m' : Memory) (k : List Frame) :
    Prop where
  inv : Inv capacity on_evict m'
  own : Own m' t k
  others : ∀ t' ≠ t, Stable t' m m'

/-! ### Stacks -/

lemma Own.holds (h : Own m t (f :: k)) (hin : f.inCa = true) : m.ca_mutex = some t :=
  h.1.mp (by simp [hin])

lemma own_in (hca : m.ca_mutex = some t) (hpre : Pre m t f) (hcaller : Caller m f k)
    (hin : (f :: k).any Frame.inCa = true) : Own m t (f :: k) :=
  ⟨iff_of_true hin hca, hpre, hcaller⟩

lemma own_out (hca : m.ca_mutex ≠ some t) (hpre : Pre m t f) (hcaller : Caller m f k)
    (hin : (f :: k).any Frame.inCa = false) : Own m t (f :: k) :=
  ⟨iff_of_false (by simp [hin]) hca, hpre, hcaller⟩

/-- After an eviction the call that asked for it goes on with an empty slot. -/
lemma own_evicted {evict : Bool} (hca : m.ca_mutex = some t) (hm : Consistent m)
    (hslot : m.ca_elements_ptr[i]? = some none) (hk : Caller m (.work i p evict .clearSlot) k) :
    Own m t k := by
  rcases hk with rfl | ⟨-, rfl | rfl⟩
  · exact own_in hca (fun _ => hm) rfl rfl
  · exact own_in hca (fun _ => hm) (.inl rfl) rfl
  · exact own_in hca ⟨hm, hslot⟩ rfl rfl

/-! ### Steps of the memory -/

lemma sound_of_eq (h : Inv capacity on_evict m) (hheap : m'.heap = m.heap)
    (hptr : m'.ca_elements_ptr = m.ca_elements_ptr)
    (huse : m'.ca_elements_in_use = m.ca_elements_in_use) (hmutex : m'.ca_mutex = m.ca_mutex)
    (hcallback : m'.ca_on_evict_callback = m.ca_on_evict_callback) (hlog : m'.log = m.log)
    (hown : Own m' t k) : Sound capacity on_evict t m m' k where
  inv := ⟨hptr ▸ h.length, hcallback.trans h.callback,
    fun hidle => (h.idle (hmutex ▸ hidle)).congr hptr huse (by simp [hheap]) (by simp [hlog]),
    hheap ▸ h.flags, hlog ▸ h.disciplined, by simpa [hheap, hlog] using h.freed⟩
  own := hown
  others _ _ := stable_of_eq hheap hptr huse hmutex hcallback hlog

lemma sound_stay (h : Inv capacity on_evict m) (hown : Own m t k) :
    Sound capacity on_evict t m m k :=
  sound_of_eq h rfl rfl rfl rfl rfl rfl hown

/-- The flags of the cache do not matter here. -/
lemma sound_setCaFlags (h : Inv capacity on_evict m) {g : CaFlags → CaFlags}
    (hown : Own (m.setCaFlags g) t k) : Sound capacity on_evict t m (m.setCaFlags g) k :=
  sound_of_eq h rfl rfl rfl rfl rfl rfl hown

lemma Inv.freed_setEl (h : Inv capacity on_evict m) (hcall : on_evict = true) {q : ℕ}
    (hq : (m.setEl p el').heap q = .freed) : .evicted q ∈ m.log := by
  by_cases hqp : q = p
  · subst hqp
    simp [Memory.setEl] at hq
  · exact h.freed hcall q (by simpa [Memory.setEl, Function.update_of_ne hqp] using hq)

lemma Inv.flags_setEl (h : Inv capacity on_evict m)
    (hflags : el'.ce_mutex = none → FlagsOk el'.ce_flags) {q : ℕ} {el₁ : Elem}
    (hq : (m.setEl p el').heap q = .live el₁) (hfree : el₁.ce_mutex = none) :
    FlagsOk el₁.ce_flags := by
  by_cases hqp : q = p
  · subst hqp
    obtain rfl : el' = el₁ := by simpa [Memory.setEl] using hq
    exact hflags hfree
  · exact h.flags q el₁ (by simpa [Memory.setEl, Function.update_of_ne hqp] using hq) hfree

/-- An element changes, keeps its shape, and is in order when its mutex is free. -/
lemma sound_setEl (h : Inv capacity on_evict m) (hel : m.heap p = .live el)
    (hactive : el'.ce_flags.active = el.ce_flags.active)
    (hflags : el'.ce_mutex = none → FlagsOk el'.ce_flags)
    (hheld : ∀ t' ≠ t, el.ce_mutex = some t' → el'.ce_mutex = some t' ∧
      el'.ce_flags = el.ce_flags)
    (hown : Own (m.setEl p el') t k) : Sound capacity on_evict t m (m.setEl p el') k where
  inv := {
    length := h.length
    callback := h.callback
    idle hidle := (h.idle hidle).congr rfl rfl
      (fun q => by
        by_cases hqp : q = p
        · subst hqp
          simp [Memory.setEl, hel, Cell.shape, hactive]
        · simp [Memory.setEl, Function.update_of_ne hqp]) fun _ hq => hq
    flags := fun _ _ hq hfree => h.flags_setEl hflags hq hfree
    disciplined := h.disciplined
    freed := fun hcall _ hq => h.freed_setEl hcall hq }
  own := hown
  others t' ht := stable_setEl hel hactive (hheld t' ht)

/-- A step that changes neither the flags nor the mutex of an element. -/
lemma sound_setEl_same (h : Inv capacity on_evict m) (hel : m.heap p = .live el)
    (hmutex : el'.ce_mutex = el.ce_mutex) (hflags : el'.ce_flags = el.ce_flags)
    (hown : Own (m.setEl p el') t k) : Sound capacity on_evict t m (m.setEl p el') k :=
  sound_setEl h hel (by rw [hflags]) (fun hfree => hflags ▸ h.flags p el hel (hmutex ▸ hfree))
    (fun _ _ hm => ⟨hmutex.trans hm, hflags⟩) hown

/-- A step that takes the mutex of an element. -/
lemma sound_lockEl (h : Inv capacity on_evict m) (hel : m.heap p = .live el)
    (hfree : el.ce_mutex = none) (hown : Own (m.setEl p { el with ce_mutex := some t }) t k) :
    Sound capacity on_evict t m (m.setEl p { el with ce_mutex := some t }) k :=
  sound_setEl h hel rfl (fun hm => by simp at hm) (fun _ _ hm => by simp [hfree] at hm) hown

lemma heldOk_lockEl (h : Inv capacity on_evict m) (hel : m.heap p = .live el)
    (hfree : el.ce_mutex = none) :
    HeldOk (m.setEl p { el with ce_mutex := some t }) t p :=
  onElem_setEl ⟨rfl, h.flags p el hel hfree⟩

/-- A step of the thread that holds the mutex of an element. -/
lemma sound_setEl_held (h : Inv capacity on_evict m) (hel : m.heap p = .live el)
    (hheld : el.ce_mutex = some t) (hactive : el'.ce_flags.active = el.ce_flags.active)
    (hflags : el'.ce_mutex = none → FlagsOk el'.ce_flags) (hown : Own (m.setEl p el') t k) :
    Sound capacity on_evict t m (m.setEl p el') k :=
  sound_setEl h hel hactive hflags
    (fun _ ht hm => absurd (Option.some.inj (hm.symm.trans hheld)) ht) hown

/-- A step of the holder of `ca_mutex`. -/
lemma sound_holder (h : Inv capacity on_evict m) (hca : m.ca_mutex = some t)
    (hca' : m'.ca_mutex = some t) (hlength : m'.ca_elements_ptr.length = m.ca_elements_ptr.length)
    (hcallback : m'.ca_on_evict_callback = m.ca_on_evict_callback) (hlog : m.log <:+ m'.log)
    (hflags : ∀ p el, m'.heap p = .live el → el.ce_mutex = none → FlagsOk el.ce_flags)
    (hdisciplined : Disciplined m'.log)
    (hcalled : on_evict = true → ∀ p, m'.heap p = .freed → .evicted p ∈ m'.log)
    (hfreed : ∀ p, m.heap p = .freed → m'.heap p = .freed)
    (hheld : ∀ t' ≠ t, ∀ p el, m.heap p = .live el → el.ce_mutex = some t' →
      OnElem m' p fun el' => el'.ce_mutex = some t' ∧ el'.ce_flags = el.ce_flags)
    (hown : Own m' t k) : Sound capacity on_evict t m m' k where
  inv := ⟨hlength.trans h.length, hcallback.trans h.callback,
    fun hidle => by simp [hca'] at hidle, hflags, hdisciplined, hcalled⟩
  own := hown
  others t' ht := stable_of_holder hca ht hca' hlog hcallback hfreed (hheld t' ht)

/-- The end of a call of `cache_element_mark_dirty` is recorded. -/
lemma Sound.marked (h : Sound capacity on_evict t m m' k) :
    Sound capacity on_evict t m (m'.emit (.marked p)) k where
  inv := {
    length := h.inv.length
    callback := h.inv.callback
    idle hidle := (h.inv.idle hidle).congr rfl rfl (fun _ => rfl) (by simp [Memory.emit])
    flags := h.inv.flags
    disciplined := h.inv.disciplined.cons (by simp)
    freed hcall q hq := List.mem_cons_of_mem _ (h.inv.freed hcall q hq) }
  own := stable_marked.own h.own
  others t' ht := (h.others t' ht).trans stable_marked

/-- The holder of `ca_mutex` leaves the elements alone. -/
lemma sound_holder_heap (h : Inv capacity on_evict m) (hca : m.ca_mutex = some t)
    (hca' : m'.ca_mutex = some t) (hlength : m'.ca_elements_ptr.length = m.ca_elements_ptr.length)
    (hcallback : m'.ca_on_evict_callback = m.ca_on_evict_callback) (hheap : m'.heap = m.heap)
    (hdisciplined : Disciplined m'.log) (hlog : m.log <:+ m'.log) (hown : Own m' t k) :
    Sound capacity on_evict t m m' k :=
  sound_holder h hca hca' hlength hcallback hlog (hheap ▸ h.flags) hdisciplined
    (fun hcall _ hq => hlog.subset (h.freed hcall _ (hheap ▸ hq))) (fun _ hq => hheap ▸ hq)
    (fun _ _ _ el hel hm => .inr ⟨el, hheap ▸ hel, hm, rfl⟩) hown

lemma consistent_setEl (hm : Consistent m) (hel : m.heap p = .live el)
    (hactive : el'.ce_flags.active = el.ce_flags.active) : Consistent (m.setEl p el') := by
  refine hm.congr rfl rfl ?_ fun _ hq => hq
  intro q
  by_cases hqp : q = p
  · subst hqp
    simp [Memory.setEl, hel, Cell.shape, hactive]
  · simp [Memory.setEl, Function.update_of_ne hqp]

lemma held_of_live (h : ∃ el, m.heap p = .live el ∧ el.ce_mutex = some t)
    (hel : m.heap p = .live el) : el.ce_mutex = some t := by
  rcases h with ⟨el', hel', hheld⟩
  exact live_inj hel hel' ▸ hheld

lemma setEl_self : (m.setEl p el).heap p = .live el := by simp [Memory.setEl]

lemma consistent_setEl_without (hm : Consistent (m.without i p)) :
    Consistent ((m.setEl p el).without i p) := by
  simpa [Memory.setEl, Memory.without] using hm

lemma execWork_decInUse {evict : Bool} : execWork m t i p evict .decInUse =
    some (m.dec, [.work i p evict .zeroFlags]) := by
  rw [execWork, Memory.dec]

/-- The holder of `ca_mutex` changes an element whose mutex it also holds. -/
lemma sound_setEl_holder (h : Inv capacity on_evict m) (hca : m.ca_mutex = some t)
    (hel : m.heap p = .live el) (hheld : el.ce_mutex = some t)
    (hflags : el'.ce_mutex = none → FlagsOk el'.ce_flags) (hown : Own (m.setEl p el') t k) :
    Sound capacity on_evict t m (m.setEl p el') k := by
  refine sound_holder h hca hca rfl rfl List.suffix_rfl
    (fun _ _ hq hfree => h.flags_setEl hflags hq hfree) h.disciplined
    (fun hcall _ hq => h.freed_setEl hcall hq) ?_ ?_ hown
  · intro q hq
    have hqp : q ≠ p := by
      rintro rfl
      simp [hel] at hq
    simp [Memory.setEl, Function.update_of_ne hqp, hq]
  · intro t' ht q el₁ hq hm
    have hqp : q ≠ p := by
      rintro rfl
      obtain rfl : el = el₁ := live_inj hel hq
      exact ht (Option.some.inj (hm.symm.trans hheld))
    exact .inr ⟨el₁, by simp [Memory.setEl, Function.update_of_ne hqp, hq], hm, rfl⟩

lemma consistent_free (hm : Consistent (m.without i p)) :
    Consistent ((({ m with heap := Function.update m.heap p .freed } : Memory).emit
      (.freed p)).without i p) := by
  refine hm.congr rfl rfl ?_ (by simp [Memory.emit, Memory.without])
  simp [Memory.emit, Memory.without]

lemma sound_free (h : Inv capacity on_evict m) (hca : m.ca_mutex = some t)
    (hel : m.heap p = .live el) (hcalled : Called m p)
    (hown : Own
      (({ m with heap := Function.update m.heap p .freed } : Memory).emit (.freed p)) t k) :
    Sound capacity on_evict t m
      (({ m with heap := Function.update m.heap p .freed } : Memory).emit (.freed p)) k := by
  refine sound_holder h hca hca rfl rfl (List.suffix_cons _ _) ?_ (h.disciplined.cons (by simp))
    ?_ ?_ ?_ hown
  · intro q el₁ hq hfree
    have hqp : q ≠ p := by
      rintro rfl
      simp [Memory.emit] at hq
    exact h.flags q el₁ (by simpa [Memory.emit, Function.update_of_ne hqp] using hq) hfree
  · intro hcall q hq
    refine List.mem_cons_of_mem _ ?_
    by_cases hqp : q = p
    · subst hqp
      exact hcalled (h.callback.trans hcall)
    · exact h.freed hcall q (by simpa [Memory.emit, Function.update_of_ne hqp] using hq)
  · intro q hq
    by_cases hqp : q = p
    · simp [Memory.emit, hqp]
    · simp [Memory.emit, Function.update_of_ne hqp, hq]
  · intro t' _ q el₁ hq hm
    by_cases hqp : q = p
    · exact .inl (by simp [Memory.emit, hqp])
    · exact .inr ⟨el₁, by simp [Memory.emit, Function.update_of_ne hqp, hq], hm, rfl⟩

/-! ## The functions on one element -/

lemma FlagOp.assign_flagsOk {op : FlagOp} (hop : op ≠ .markDirty) {fl : ElFlags}
    (h : FlagsOk fl) : FlagsOk (op.assign fl) := by
  cases op with
  | markDirty => exact absurd rfl hop
  | markEviction => exact h
  | pin => exact h
  | markUnpin => exact h

/-- A client's call ends, or `cache_sync` or `cache_disable` goes on with its next element. -/
lemma own_flagOp_done {op : FlagOp} {pc : FlagPc} (ho : Own m t (.flagOp op p pc :: k))
    (hca : m'.ca_mutex = m.ca_mutex) (hm : Consistent m → Consistent m') : Own m' t k := by
  rcases ho with ⟨hiff, -, rfl | ⟨-, hcons, ⟨j, rfl⟩ | ⟨j, rfl⟩⟩⟩
  · exact fun hc => by simpa [Frame.inCa] using hiff.mpr (hca ▸ hc)
  · exact own_in (hca.trans (hiff.mp rfl)) (fun _ => hm hcons) rfl rfl
  · exact own_in (hca.trans (hiff.mp rfl)) (fun _ => hm hcons) rfl rfl

/-- The call goes on with another statement. -/
lemma own_flagOp_next {op : FlagOp} {pc pc' : FlagPc} (ho : Own m t (.flagOp op p pc :: k))
    (hca : m'.ca_mutex = m.ca_mutex) (hm : Consistent m → Consistent m')
    (hpre : Pre m' t (.flagOp op p pc')) : Own m' t (.flagOp op p pc' :: k) := by
  rcases ho with ⟨hiff, -, hcaller⟩
  exact ⟨by rw [hca]; exact hiff, hpre, hcaller.imp id fun hk => ⟨hk.1, hm hk.2.1, hk.2.2⟩⟩

theorem sound_flagOp {op : FlagOp} {pc : FlagPc} (hexec : execFlagOp m t op p pc = some (m', fs))
    (h : Inv capacity on_evict m) (ho : Own m t (.flagOp op p pc :: k)) :
    Sound capacity on_evict t m m' (fs ++ k) := by
  have hpre := ho.2.1
  cases pc with
  | test =>
    rcases Option.map_eq_some_iff.mp hexec with ⟨el, -, heq⟩
    rcases Prod.mk.inj heq with ⟨rfl, rfl⟩
    refine sound_stay h ?_
    -- an inactive element ends the call, an active one is locked next
    split_ifs
    · exact own_flagOp_next ho rfl id (by simp [Pre, Frame.inCa])
    · exact own_flagOp_done ho rfl id
  | lock =>
    rcases frames_of_map hexec with ⟨hlock, rfl⟩
    rcases Memory.lockEl_eq_some hlock with ⟨el, hel, hfree, rfl⟩
    exact sound_lockEl h hel hfree (own_flagOp_next ho rfl (fun hm => consistent_setEl hm hel rfl)
      (heldOk_lockEl h hel hfree))
  | assign =>
    rcases frames_of_map hexec with ⟨hset, rfl⟩
    rcases Memory.setFlags_eq_some hset with ⟨el, hel, rfl⟩
    obtain ⟨hheld, hflags⟩ : el.ce_mutex = some t ∧ FlagsOk el.ce_flags := OnElem.of_live hpre hel
    have hactive := op.assign_active el.ce_flags
    refine sound_setEl_held h hel hheld hactive (fun hnone => by simp [hheld] at hnone) ?_
    refine own_flagOp_next ho rfl (fun hm => consistent_setEl hm hel hactive) ?_
    -- a dirty mark is not yet complete, the other operations leave dirty and clean alone
    split_ifs with hop
    · subst hop
      exact onElem_setEl ⟨hheld, rfl⟩
    · exact onElem_setEl ⟨hheld, FlagOp.assign_flagsOk hop hflags⟩
  | clearClean =>
    rcases frames_of_map hexec with ⟨hset, rfl⟩
    rcases Memory.setFlags_eq_some hset with ⟨el, hel, rfl⟩
    obtain ⟨hheld, hdirty⟩ : el.ce_mutex = some t ∧ el.ce_flags.dirty = true :=
      OnElem.of_live hpre hel
    exact sound_setEl_held h hel hheld rfl (fun hnone => by simp [hheld] at hnone)
      (own_flagOp_next ho rfl (fun hm => consistent_setEl hm hel rfl)
        (onElem_setEl ⟨hheld, fun _ => by simp [hdirty]⟩))
  | unlock =>
    rcases Option.map_eq_some_iff.mp hexec with ⟨m₁, hunlock, heq⟩
    rcases Prod.mk.inj heq with ⟨rfl, rfl⟩
    rcases Memory.unlockEl_eq_some hunlock with ⟨el, hel, hheld, rfl⟩
    have hflags : FlagsOk el.ce_flags := (OnElem.of_live hpre hel).2
    have hunlocked : Sound capacity on_evict t m (m.setEl p { el with ce_mutex := none }) k :=
      sound_setEl_held h hel hheld rfl (fun _ => hflags)
        (own_flagOp_done ho rfl fun hm => consistent_setEl hm hel rfl)
    split_ifs
    · exact hunlocked.marked
    · exact hunlocked

lemma caller_work {evict : Bool} {st st' : Stage} (hk : Caller m (.work i p evict st) k) :
    Caller m' (.work i p evict st') k := hk

/-- The work on a locked element, and its removal. -/
theorem sound_work {evict : Bool} {st : Stage}
    (hexec : execWork m t i p evict st = some (m', fs)) (h : Inv capacity on_evict m)
    (ho : Own m t (.work i p evict st :: k)) : Sound capacity on_evict t m m' (fs ++ k) := by
  have hca := ho.holds rfl
  rcases ho with ⟨-, ⟨hslot, hpre⟩, hcaller⟩
  cases st with
  | addCount =>
    rcases frames_of_map hexec with ⟨hadd, rfl⟩
    rcases Memory.addCountEl_eq_some hadd with ⟨el, hel, rfl⟩
    have hheld := hpre.2.of_live hel
    exact sound_setEl_same h hel rfl rfl (own_in hca
      ⟨hslot, consistent_setEl hpre.1 hel rfl, onElem_setEl hheld⟩ hcaller rfl)
  | flush =>
    rw [execWork, Option.some.injEq, Prod.mk.injEq] at hexec
    rcases hexec with ⟨rfl, rfl⟩
    split_ifs
    · -- the element is in the table, so it was not evicted before
      rcases hpre.1.live hslot with ⟨el, hel, -⟩
      have hlog : ∀ q, .evicted q ∈ (m.emit (.flushed p)).log → .evicted q ∈ m.log := by
        simp [Memory.emit]
      refine sound_holder_heap h hca hca rfl rfl rfl (h.disciplined.cons ?_)
        (List.suffix_cons _ _)
        (own_in hca ⟨hslot, hpre.1.congr rfl rfl (fun _ => rfl) hlog, hpre.2⟩ hcaller rfl)
      rintro q (he | he)
      · simp at he
      · obtain rfl : p = q := Event.flushed.inj he
        exact hpre.1.not_evicted hel
    · exact sound_stay h (own_in hca ⟨hslot, hpre⟩ hcaller rfl)
  | clearDirty =>
    rcases frames_of_map hexec with ⟨hset, rfl⟩
    rcases Memory.setFlags_eq_some hset with ⟨el, hel, rfl⟩
    have hheld := (hpre.2.of_live hel).1
    exact sound_setEl_held h hel hheld rfl (fun hnone => by simp [hheld] at hnone) (own_in hca
      ⟨hslot, consistent_setEl hpre.1 hel rfl, onElem_setEl ⟨hheld, rfl⟩⟩ hcaller rfl)
  | setClean =>
    rcases frames_of_map hexec with ⟨hset, rfl⟩
    rcases Memory.setFlags_eq_some hset with ⟨el, hel, rfl⟩
    rcases hpre.2.of_live hel with ⟨hheld, hdirty⟩
    have hm : Consistent
        (m.setEl p { el with ce_flags := { el.ce_flags with clean := true } }) :=
      consistent_setEl hpre.1 hel rfl
    refine sound_setEl_held h hel hheld rfl (fun hnone => by simp [hheld] at hnone) ?_
    refine own_in hca ⟨hslot, ?_⟩ hcaller rfl
    cases evict with
    | false => exact ⟨hm, onElem_setEl ⟨hheld, fun _ => by simp [hdirty]⟩, rfl⟩
    | true => exact ⟨hm, onElem_setEl ⟨hheld, fun _ => by simp [hdirty]⟩, rfl⟩
  -- the removal begins: the element has not been evicted before
  | onEvict =>
    rcases hpre with ⟨hm, hheld, hevict⟩
    rcases hm.live hslot with ⟨el, hel, -⟩
    have hlocked : ∃ el, m.heap p = .live el ∧ el.ce_mutex = some t :=
      ⟨el, hel, (hheld.of_live hel).1⟩
    rw [execWork, Option.some.injEq, Prod.mk.injEq] at hexec
    rcases hexec with ⟨rfl, rfl⟩
    split_ifs with hcallback
    · have hlog : ∀ q, .evicted q ∈ (m.emit (.evicted p)).dec.log → q = p ∨ .evicted q ∈ m.log := by
        simp [Memory.emit]
      refine sound_holder_heap h hca hca rfl rfl rfl (h.disciplined.cons ?_) (List.suffix_cons _ _)
        (own_in hca ⟨hslot, hm.removed hslot (by simp [Memory.emit]) (by rw [Memory.dec]; rfl)
          (by simp [Memory.emit]) hlog, hlocked, fun _ => by simp [Memory.emit], hevict⟩
          hcaller rfl)
      rintro q (he | he)
      · obtain rfl : p = q := Event.evicted.inj he
        exact hm.not_evicted hel
      · simp at he
    · exact sound_stay h (own_in hca ⟨hslot, hm.removed hslot (by simp) (by rw [Memory.dec])
        (by simp) (by simp +contextual), hlocked, fun hc => absurd hc hcallback, hevict⟩
        hcaller rfl)
  | decInUse =>
    rcases hpre with ⟨hm, hlocked, hcalled, hevict⟩
    rw [execWork_decInUse, Option.some.injEq, Prod.mk.injEq] at hexec
    rcases hexec with ⟨rfl, rfl⟩
    have hca' : m.dec.ca_mutex = some t := dec_ca_mutex.trans hca
    have hlocked' : ∃ el, m.dec.heap p = .live el ∧ el.ce_mutex = some t := by
      rwa [dec_heap]
    have hcalled' : Called m.dec p := by simpa [Called] using hcalled
    exact sound_holder_heap h hca hca' (by simp) dec_callback dec_heap
      (by simpa using h.disciplined) (by simp)
      (own_in hca' ⟨dec_slot.trans hslot, hm, hlocked', hcalled', hevict⟩ (caller_work hcaller) rfl)
  | zeroFlags =>
    rcases frames_of_map hexec with ⟨hset, rfl⟩
    rcases Memory.setFlags_eq_some hset with ⟨el, hel, rfl⟩
    rcases hpre with ⟨hm, hlocked, hcalled, hevict⟩
    have hheld : el.ce_mutex = some t := held_of_live hlocked hel
    refine sound_setEl_holder h hca hel hheld (fun hnone => by simp [hheld] at hnone) ?_
    exact own_in hca
      ⟨hslot, consistent_setEl_without hm, ⟨_, setEl_self, hheld, rfl⟩, hcalled, hevict⟩
      hcaller rfl
  | unlock =>
    rcases frames_of_map hexec with ⟨hunlock, rfl⟩
    rcases Memory.unlockEl_eq_some hunlock with ⟨el, hel, hheld, rfl⟩
    rcases hpre with ⟨hm, ⟨el', hel', -, hinactive⟩, hcalled, hevict⟩
    obtain rfl : el' = el := live_inj hel' hel
    refine sound_setEl_holder h hca hel hheld (fun _ hactive => by simp [hinactive] at hactive) ?_
    exact own_in hca
      ⟨hslot, consistent_setEl_without hm, ⟨_, setEl_self, hinactive⟩, hcalled, hevict⟩
      hcaller rfl
  | destroy =>
    rcases Option.map_eq_some_iff.mp hexec with ⟨el, -, heq⟩
    rcases Prod.mk.inj heq with ⟨rfl, rfl⟩
    exact sound_stay h (own_in hca ⟨hslot, hpre⟩ hcaller rfl)
  | free =>
    rcases frames_of_map hexec with ⟨hfree, rfl⟩
    rcases Memory.freeEl_eq_some hfree with ⟨el, hel, rfl⟩
    rcases hpre with ⟨hm, -, hcalled, hevict⟩
    exact sound_free h hca hel hcalled (own_in hca ⟨hslot, consistent_free hm,
      by simp [Memory.emit], hevict⟩ hcaller rfl)
  | clearSlot =>
    rw [execWork, Option.some.injEq, Prod.mk.injEq] at hexec
    rcases hexec with ⟨rfl, rfl⟩
    rcases hpre with ⟨hm, hfreed, hevict⟩
    have hlt : i < m.ca_elements_ptr.length :=
      (List.getElem?_eq_some_iff.mp (Memory.slot_eq_some.mp hslot)).1
    have hm' : Consistent { m with ca_elements_ptr := m.ca_elements_ptr.set i none } :=
      hm.congr rfl rfl (fun q => by rw [Memory.without, ← hfreed, Function.update_eq_self])
        fun _ hq => hq
    exact sound_holder_heap h hca hca List.length_set rfl rfl h.disciplined List.suffix_rfl
      (own_evicted (p := p) hca hm' (by simp [List.getElem?_set_self hlt]) hcaller)
  | release =>
    rcases frames_of_map hexec with ⟨hunlock, rfl⟩
    rcases Memory.unlockEl_eq_some hunlock with ⟨el, hel, hheld, rfl⟩
    rcases hpre with ⟨hm, hok, rfl⟩
    -- only the thread works on an element and leaves it where it is
    obtain rfl : k = [.thread (.elem (i + 1))] := by simpa [Caller] using hcaller
    exact sound_setEl_held h hel hheld rfl (fun _ => (hok.of_live hel).2)
      (own_in hca (fun _ => consistent_setEl hm hel rfl) rfl rfl)

theorem sound_evictByIdx {locked : Bool}
    (hexec : execEvictByIdx m t i p locked = some (m', fs)) (h : Inv capacity on_evict m)
    (ho : Own m t (.evictByIdx i p locked :: k)) : Sound capacity on_evict t m m' (fs ++ k) := by
  have hca := ho.holds rfl
  rcases ho with ⟨-, ⟨hm, hslot, hheld⟩, hcaller⟩
  cases locked with
  | false =>
    rcases frames_of_map hexec with ⟨hlock, rfl⟩
    rcases Memory.lockEl_eq_some hlock with ⟨el, hel, hfree, rfl⟩
    exact sound_lockEl h hel hfree (own_in hca
      ⟨consistent_setEl hm hel rfl, hslot, fun _ => heldOk_lockEl h hel hfree⟩ hcaller rfl)
  | true =>
    rcases Option.map_eq_some_iff.mp hexec with ⟨el, -, heq⟩
    rcases Prod.mk.inj heq with ⟨rfl, rfl⟩
    refine sound_stay h ?_
    -- with or without a flush, the element is evicted next
    split_ifs
    · exact own_in hca ⟨hslot, hm, hheld rfl⟩ (.inr ⟨rfl, hcaller⟩) rfl
    · exact own_in hca ⟨hslot, hm, hheld rfl, rfl⟩ (.inr ⟨rfl, hcaller⟩) rfl

/-! ## The functions of the cache -/

/-- The cache is found as its last holder left it. -/
lemma sound_lockCa (hlock : m.lockCa t = some m') (h : Inv capacity on_evict m)
    (hpre : Consistent m' → Pre m' t f) (hcaller : Caller m' f []) (hin : f.inCa = true) :
    Sound capacity on_evict t m m' [f] := by
  rcases Memory.lockCa_eq_some hlock with ⟨hfree, rfl⟩
  have hm : Consistent { m with ca_mutex := some t } :=
    (h.idle hfree).congr rfl rfl (fun _ => rfl) fun _ hq => hq
  refine ⟨⟨h.length, h.callback, fun hidle => by simp at hidle, h.flags, h.disciplined, h.freed⟩,
    own_in rfl (hpre hm) hcaller (by simp [hin]), ?_⟩
  intro t' ht
  have hnot : ∀ {P : Prop}, m.ca_mutex = some t' → P := fun hc => by simp [hfree] at hc
  exact ⟨fun _ hp => hp, fun _ el hel hm' => .inr ⟨el, hel, hm', rfl⟩, List.suffix_rfl, rfl,
    ⟨fun hc => absurd (Option.some.inj hc).symm ht, hnot⟩, hnot, hnot, hnot, hnot⟩

/-- The cache is left in order. -/
theorem sound_unlockCa {ret : Option ℕ} (hunlock : m.unlockCa t = some m')
    (h : Inv capacity on_evict m) (ho : Own m t (.unlockCa ret :: k)) :
    Sound capacity on_evict t m m' k := by
  rcases Memory.unlockCa_eq_some hunlock with ⟨hca, rfl⟩
  rcases ho with ⟨-, hm, hcaller⟩
  have hm' : Consistent { m with ca_mutex := none } :=
    (hm rfl).congr rfl rfl (fun _ => rfl) fun _ hq => hq
  refine ⟨⟨h.length, h.callback, fun _ => hm', h.flags, h.disciplined, h.freed⟩, ?_, ?_⟩
  · rcases hcaller with rfl | rfl | ⟨rc, rfl⟩ | rfl | rfl
    · exact fun hc => by simp at hc
    · exact own_out (by simp) nofun rfl rfl
    · exact own_out (by simp) nofun rfl rfl
    · exact own_out (by simp) nofun rfl rfl
    · exact own_out (by simp) nofun rfl rfl
  · intro t' ht
    have hnot : ∀ {P : Prop}, m.ca_mutex = some t' → P := fun hc =>
      absurd (Option.some.inj (hca.symm.trans hc)).symm ht
    exact ⟨fun _ hp => hp, fun _ el hel hmutex => .inr ⟨el, hel, hmutex, rfl⟩, List.suffix_rfl,
      rfl, ⟨fun hc => by simp at hc, hnot⟩, hnot, hnot, hnot, hnot⟩

theorem sound_evict {key : ℕ} {pc : ScanPc} (hexec : execEvict m t key pc = some (m', fs))
    (h : Inv capacity on_evict m) (ho : Own m t (.evict key pc :: k)) :
    Sound capacity on_evict t m m' (fs ++ k) := by
  obtain rfl : k = [] := ho.2.2
  cases pc with
  | lock =>
    rcases frames_of_map hexec with ⟨hlock, rfl⟩
    exact sound_lockCa hlock h (fun hm _ => hm) rfl rfl
  | scan i =>
    have hca := ho.holds rfl
    have hm : Consistent m := ho.2.1 rfl
    rcases scan_cases hexec with ⟨-, rfl, rfl⟩ | ⟨p, hslot, hexec⟩ | ⟨-, rfl, rfl⟩
    · exact sound_stay h (own_in hca (fun _ => hm) rfl rfl)
    · rcases Option.map_eq_some_iff.mp hexec with ⟨el, -, heq⟩
      rcases Prod.mk.inj heq with ⟨rfl, rfl⟩
      refine sound_stay h ?_
      split_ifs
      · exact own_in hca ⟨hm, hslot, nofun⟩ (.inl rfl) rfl
      · exact own_in hca (fun _ => hm) rfl rfl
    · exact sound_stay h (own_in hca (fun _ => hm) (.inl rfl) rfl)

theorem sound_lookup {key : ℕ} {pc : ScanPc} (hexec : execLookup m t key pc = some (m', fs))
    (h : Inv capacity on_evict m) (ho : Own m t (.lookup key pc :: k)) :
    Sound capacity on_evict t m m' (fs ++ k) := by
  obtain rfl : k = [] := ho.2.2
  cases pc with
  | lock =>
    rcases frames_of_map hexec with ⟨hlock, rfl⟩
    exact sound_lockCa hlock h (fun hm _ => hm) rfl rfl
  | scan i =>
    have hca := ho.holds rfl
    have hm : Consistent m := ho.2.1 rfl
    rcases scan_cases hexec with ⟨-, rfl, rfl⟩ | ⟨p, -, hexec⟩ | ⟨-, rfl, rfl⟩
    · exact sound_stay h (own_in hca (fun _ => hm) rfl rfl)
    · rcases Option.map_eq_some_iff.mp hexec with ⟨el, hel, heq⟩
      have hlive := Memory.el?_eq_some.mp hel
      split_ifs at heq
      · -- the element found is counted
        rcases Prod.mk.inj heq with ⟨rfl, rfl⟩
        exact sound_setEl_same h hlive rfl rfl
          (own_in hca (fun _ => consistent_setEl hm hlive rfl) (.inl rfl) rfl)
      · rcases Prod.mk.inj heq with ⟨rfl, rfl⟩
        exact sound_stay h (own_in hca (fun _ => hm) rfl rfl)
    · exact sound_stay h (own_in hca (fun _ => hm) (.inl rfl) rfl)

/-- A new element is in order, and nobody else has seen it. -/
lemma sound_malloc {sub id : ℕ} (h : Inv capacity on_evict m)
    (hca : m.ca_mutex = some t) (hm : Consistent m) (hslot : m.ca_elements_ptr[sub]? = some none)
    (hunused : m.heap p = .unused) :
    Sound capacity on_evict t m (m.setEl p (newElem id)) [.map (.publish sub p)] := by
  have hne : ∀ {q c}, m.heap q = c → c ≠ .unused → q ≠ p := by
    rintro q c hq hc rfl
    exact hc (hq.symm.trans hunused)
  have hkeep : ∀ {q c}, m.heap q = c → c ≠ .unused → (m.setEl p (newElem id)).heap q = c :=
    fun hq hc => by simp [Memory.setEl, Function.update_of_ne (hne hq hc), hq]
  have hunmapped : Consistent ((m.setEl p (newElem id)).unmapped p) :=
    hm.congr rfl rfl
      (fun q => by rw [Memory.setEl, Memory.unmapped, Function.update_idem, ← hunused,
        Function.update_eq_self]) fun _ hq => hq
  refine sound_holder h hca hca rfl rfl List.suffix_rfl
    (fun _ _ hq hfree => h.flags_setEl (fun _ _ => by simp [newElem, ElFlags.mapped]) hq hfree)
    h.disciplined (fun hcall _ hq => h.freed_setEl hcall hq) (fun _ hq => hkeep hq (by simp))
    (fun _ _ q el hq hheld => .inr ⟨el, hkeep hq (by simp), hheld, rfl⟩)
    (own_in hca ⟨hunmapped, ⟨_, setEl_self, rfl⟩, hslot⟩ rfl rfl)

theorem sound_map {pc : MapPc} {inp : Input} (hexec : execMap m t pc inp = some (m', fs))
    (h : Inv capacity on_evict m) (ho : Own m t (.map pc :: k)) :
    Sound capacity on_evict t m m' (fs ++ k) := by
  obtain rfl : k = [] := ho.2.2
  cases pc with
  | lock =>
    rcases frames_of_map hexec with ⟨hlock, rfl⟩
    exact sound_lockCa hlock h (fun hm _ => hm) rfl rfl
  | find =>
    have hca := ho.holds rfl
    have hm : Consistent m := ho.2.1 rfl
    rw [execMap] at hexec
    split at hexec
    · rename_i sub hfind
      rcases Prod.mk.inj (Option.some.inj hexec) with ⟨rfl, rfl⟩
      rcases List.findIdx?_eq_some_iff_getElem.mp hfind with ⟨hlt, hnone, -⟩
      exact sound_stay h (own_in hca ⟨hm, by simpa [List.getElem?_eq_getElem hlt] using hnone⟩
        rfl rfl)
    · rcases Prod.mk.inj (Option.some.inj hexec) with ⟨rfl, rfl⟩
      exact sound_stay h (own_in hca (fun _ => hm) rfl rfl)
  | lru i l =>
    have hca := ho.holds rfl
    have hm : Consistent m := ho.2.1 rfl
    rw [execMap] at hexec
    split_ifs at hexec
    · split at hexec
      · rcases Prod.mk.inj (Option.some.inj hexec) with ⟨rfl, rfl⟩
        exact sound_stay h (own_in hca (fun _ => hm) (.inl rfl) rfl)
      · rcases Option.map_eq_some_iff.mp hexec with ⟨el, -, heq⟩
        rcases Prod.mk.inj heq with ⟨rfl, rfl⟩
        exact sound_stay h (own_in hca (fun _ => hm) rfl rfl)
    · split at hexec
      · rcases Prod.mk.inj (Option.some.inj hexec) with ⟨rfl, rfl⟩
        exact sound_stay h (own_in hca (fun _ => hm) (.inl rfl) rfl)
      · -- the element is evicted from its slot, and the call goes on with the slot
        rcases Option.map_eq_some_iff.mp hexec with ⟨p, hslot, heq⟩
        rcases Prod.mk.inj heq with ⟨rfl, rfl⟩
        exact sound_stay h (own_in hca ⟨hm, hslot, nofun⟩ (.inr rfl) rfl)
  | malloc sub =>
    have hca := ho.holds rfl
    rcases ho.2.1 with ⟨hm, hslot⟩
    cases inp with
    | alloc p id =>
      rw [execMap] at hexec
      split at hexec
      · rename_i hunused
        rcases Prod.mk.inj (Option.some.inj hexec) with ⟨rfl, rfl⟩
        exact sound_malloc h hca hm hslot hunused
      · simp at hexec
    | allocFails =>
      rcases Prod.mk.inj (Option.some.inj hexec) with ⟨rfl, rfl⟩
      exact sound_stay h (own_in hca (fun _ => hm) (.inl rfl) rfl)
    | go => simp [execMap] at hexec
    | call f => simp [execMap] at hexec
    | timeout => simp [execMap] at hexec
    | grow => simp [execMap] at hexec
  | publish sub p =>
    have hca := ho.holds rfl
    rcases ho.2.1 with ⟨hm, ⟨el, hel, hactive⟩, hslot⟩
    rw [execMap, Option.some.injEq, Prod.mk.injEq] at hexec
    rcases hexec with ⟨rfl, rfl⟩
    have hm' := hm.published hel hactive hslot
    exact sound_holder_heap h hca hca List.length_set rfl rfl h.disciplined List.suffix_rfl
      (own_in hca (fun _ => hm') (.inl rfl) rfl)

/-- A statement outside the critical section that leaves the cache alone. -/
lemma sound_out (h : Inv capacity on_evict m) (hca : m.ca_mutex ≠ some t)
    (hpre : f.inCa = false → Pre m t f) (hcaller : Caller m f []) (hin : f.inCa = false) :
    Sound capacity on_evict t m m [f] :=
  sound_stay h (own_out hca (hpre hin) hcaller (by simp [hin]))

lemma Own.out (ho : Own m t (f :: [])) (hin : f.inCa = false) : m.ca_mutex ≠ some t := by
  intro hca
  simpa [hin] using ho.1.mpr hca

theorem sound_sync {pc : SyncPc} {inp : Input} (hexec : execSync m t pc inp = some (m', fs))
    (h : Inv capacity on_evict m) (ho : Own m t (.sync pc :: k)) :
    Sound capacity on_evict t m m' (fs ++ k) := by
  obtain rfl : k = [] := ho.2.2
  cases pc with
  | test =>
    rcases Prod.mk.inj (Option.some.inj hexec) with ⟨rfl, rfl⟩
    have hca := ho.out rfl
    split_ifs
    · exact sound_out h hca (fun _ => nofun) rfl rfl
    · exact sound_stay h hca
  | lock =>
    rcases frames_of_map hexec with ⟨hlock, rfl⟩
    exact sound_lockCa hlock h (fun hm _ => hm) rfl rfl
  | scan i =>
    have hca := ho.holds rfl
    have hm : Consistent m := ho.2.1 rfl
    rcases scan_cases hexec with ⟨-, rfl, rfl⟩ | ⟨p, -, hexec⟩ | ⟨-, rfl, rfl⟩
    · exact sound_stay h (own_in hca (fun _ => hm) rfl rfl)
    · rcases Option.map_eq_some_iff.mp hexec with ⟨el, -, heq⟩
      rcases Prod.mk.inj heq with ⟨rfl, rfl⟩
      refine sound_stay h ?_
      split_ifs
      · exact own_in hca (fun _ => hm) rfl rfl
      · exact own_in hca nofun (.inr ⟨rfl, hm, .inl ⟨_, rfl⟩⟩) rfl
    · exact sound_stay h (own_in hca (fun _ => hm) rfl rfl)
  | setLoop =>
    have hca := ho.holds rfl
    have hm : Consistent m := ho.2.1 rfl
    rcases Prod.mk.inj (Option.some.inj hexec) with ⟨rfl, rfl⟩
    exact sound_setCaFlags h (own_in hca
      (fun _ => hm.congr rfl rfl (fun _ => rfl) fun _ hq => hq) (.inr (.inl rfl)) rfl)
  | wait =>
    have hca := ho.out rfl
    rcases sync_wait_cases hexec with ⟨rfl, rfl | ⟨rfl, -⟩⟩
    · exact sound_out h hca (fun _ => nofun) rfl rfl
    · exact sound_out h hca (fun _ => nofun) rfl rfl
  | clearLock rc =>
    rcases frames_of_map hexec with ⟨hlock, rfl⟩
    exact sound_lockCa hlock h (fun hm _ => hm) rfl rfl
  | clear rc =>
    have hca := ho.holds rfl
    have hm : Consistent m := ho.2.1 rfl
    rcases Prod.mk.inj (Option.some.inj hexec) with ⟨rfl, rfl⟩
    exact sound_setCaFlags h (own_in hca
      (fun _ => hm.congr rfl rfl (fun _ => rfl) fun _ hq => hq) (.inr (.inr (.inl ⟨rc, rfl⟩))) rfl)
  | ret rc =>
    rcases Prod.mk.inj (Option.some.inj hexec) with ⟨rfl, rfl⟩
    exact sound_stay h (ho.out rfl)

theorem sound_disable {pc : DisablePc} {inp : Input}
    (hexec : execDisable m t pc inp = some (m', fs)) (h : Inv capacity on_evict m)
    (ho : Own m t (.disable pc :: k)) : Sound capacity on_evict t m m' (fs ++ k) := by
  obtain rfl : k = [] := ho.2.2
  cases pc with
  | lock =>
    rcases frames_of_map hexec with ⟨hlock, rfl⟩
    exact sound_lockCa hlock h (fun hm _ => hm) rfl rfl
  | scan i =>
    have hca := ho.holds rfl
    have hm : Consistent m := ho.2.1 rfl
    rcases scan_cases hexec with ⟨-, rfl, rfl⟩ | ⟨p, -, hexec⟩ | ⟨-, rfl, rfl⟩
    · exact sound_stay h (own_in hca (fun _ => hm) rfl rfl)
    · rcases Prod.mk.inj (Option.some.inj hexec) with ⟨rfl, rfl⟩
      exact sound_stay h (own_in hca nofun (.inr ⟨rfl, hm, .inr ⟨_, rfl⟩⟩) rfl)
    · exact sound_stay h (own_in hca (fun _ => hm) rfl rfl)
  | setExit =>
    have hca := ho.holds rfl
    have hm : Consistent m := ho.2.1 rfl
    rcases Prod.mk.inj (Option.some.inj hexec) with ⟨rfl, rfl⟩
    exact sound_setCaFlags h (own_in hca
      (fun _ => hm.congr rfl rfl (fun _ => rfl) fun _ hq => hq)
      (.inr (.inr (.inr (.inr rfl)))) rfl)
  | wait =>
    have hca := ho.out rfl
    rcases disable_wait_cases hexec with ⟨rfl, rfl⟩
    exact sound_out h hca (fun _ => nofun) rfl rfl
  | join =>
    have hca := ho.out rfl
    rw [execDisable] at hexec
    split_ifs at hexec
    · rcases Prod.mk.inj (Option.some.inj hexec) with ⟨rfl, rfl⟩
      exact sound_out h hca (fun _ => nofun) rfl rfl
    · rcases Prod.mk.inj (Option.some.inj hexec) with ⟨rfl, rfl⟩
      exact sound_out h hca (fun _ => nofun) rfl rfl
  | destroyMutex =>
    have hca := ho.out rfl
    rcases Prod.mk.inj (Option.some.inj hexec) with ⟨rfl, rfl⟩
    exact sound_of_eq h rfl rfl rfl rfl rfl rfl (own_out hca nofun rfl rfl)
  | freeTable =>
    have hca := ho.out rfl
    rcases Prod.mk.inj (Option.some.inj hexec) with ⟨rfl, rfl⟩
    exact sound_of_eq h rfl rfl rfl rfl rfl rfl (own_out hca nofun rfl rfl)
  | ret =>
    rcases Prod.mk.inj (Option.some.inj hexec) with ⟨rfl, rfl⟩
    exact sound_stay h (ho.out rfl)

theorem sound_pgMap {addr : ℕ} {pc : PgMapPc} {inp : Input}
    (hexec : execPgMap m t addr pc inp = some (m', fs)) (h : Inv capacity on_evict m)
    (ho : Own m t (.pgMap addr pc :: k)) : Sound capacity on_evict t m m' (fs ++ k) := by
  obtain rfl : k = [] := ho.2.2
  have hca : m.ca_mutex ≠ some t := ho.out (by cases pc <;> rfl)
  rw [List.append_nil]
  cases pc with
  | scan i =>
    rw [execPgMap] at hexec
    split_ifs at hexec
    · split at hexec
      · rcases Prod.mk.inj (Option.some.inj hexec) with ⟨rfl, rfl⟩
        exact sound_out h hca (fun _ => nofun) rfl rfl
      · rcases Prod.mk.inj (Option.some.inj hexec) with ⟨rfl, rfl⟩
        exact sound_out h hca (fun _ => nofun) rfl rfl
    · rcases Prod.mk.inj (Option.some.inj hexec) with ⟨rfl, rfl⟩
      exact sound_stay h hca
  | read i p =>
    rcases Option.map_eq_some_iff.mp hexec with ⟨el, -, heq⟩
    rcases Prod.mk.inj heq with ⟨rfl, rfl⟩
    split_ifs
    · exact sound_out h hca (fun _ => nofun) rfl rfl
    · exact sound_out h hca (fun _ => nofun) rfl rfl
  | addCount p =>
    rcases frames_of_map hexec with ⟨hadd, rfl⟩
    rcases Memory.addCountEl_eq_some hadd with ⟨el, hel, rfl⟩
    exact sound_setEl_same h hel rfl rfl (own_out hca nofun rfl rfl)
  | size p =>
    have hret : some (m, [.pgMap addr (.ret (some p))]) = some (m', fs) →
        Sound capacity on_evict t m m' fs := by
      intro hexec
      rcases Prod.mk.inj (Option.some.inj hexec) with ⟨rfl, rfl⟩
      exact sound_out h hca (fun _ => nofun) rfl rfl
    cases inp with
    | grow =>
      rcases Prod.mk.inj (Option.some.inj hexec) with ⟨rfl, rfl⟩
      exact sound_out h hca (fun _ => nofun) rfl rfl
    | go => exact hret hexec
    | call f => exact hret hexec
    | alloc p id => exact hret hexec
    | allocFails => exact hret hexec
    | timeout => exact hret hexec
  | growLock p =>
    rcases frames_of_map hexec with ⟨hlock, rfl⟩
    rcases Memory.lockEl_eq_some hlock with ⟨el, hel, hfree, rfl⟩
    exact sound_lockEl h hel hfree (own_out hca (heldOk_lockEl h hel hfree) rfl rfl)
  | growRead p =>
    have hread : ((m.el? p).map fun _ => (m, [.pgMap addr (.growUnlock p)])) = some (m', fs) →
        Sound capacity on_evict t m m' fs := by
      intro hexec
      rcases Option.map_eq_some_iff.mp hexec with ⟨el, -, heq⟩
      rcases Prod.mk.inj heq with ⟨rfl, rfl⟩
      exact sound_out h hca (fun _ => ho.2.1) rfl rfl
    cases inp with
    | allocFails =>
      rcases Prod.mk.inj (Option.some.inj hexec) with ⟨rfl, rfl⟩
      exact sound_out h hca (fun _ => nofun) rfl rfl
    | go => exact hread hexec
    | call f => exact hread hexec
    | alloc p id => exact hread hexec
    | timeout => exact hread hexec
    | grow => exact hread hexec
  | growUnlock p =>
    rcases frames_of_map hexec with ⟨hunlock, rfl⟩
    rcases Memory.unlockEl_eq_some hunlock with ⟨el, hel, hheld, rfl⟩
    have hflags := (OnElem.of_live ho.2.1 hel).2
    exact sound_setEl_held h hel hheld rfl (fun _ => hflags) (own_out hca nofun rfl rfl)
  | ret p =>
    rcases Prod.mk.inj (Option.some.inj hexec) with ⟨rfl, rfl⟩
    exact sound_stay h hca

theorem sound_caFlagOp {op : CaFlagOp} {locked : Bool}
    (hexec : execCaFlagOp m t op locked = some (m', fs)) (h : Inv capacity on_evict m)
    (ho : Own m t (.caFlagOp op locked :: k)) : Sound capacity on_evict t m m' (fs ++ k) := by
  obtain rfl : k = [] := ho.2.2
  cases locked with
  | false =>
    rw [execCaFlagOp] at hexec
    split_ifs at hexec
    · rcases frames_of_map hexec with ⟨hlock, rfl⟩
      exact sound_lockCa hlock h (fun hm _ => hm) rfl rfl
    · rcases Prod.mk.inj (Option.some.inj hexec) with ⟨rfl, rfl⟩
      exact sound_stay h (ho.out rfl)
  | true =>
    have hca := ho.holds rfl
    have hm : Consistent m := ho.2.1 rfl
    rcases Prod.mk.inj (Option.some.inj hexec) with ⟨rfl, rfl⟩
    exact sound_setCaFlags h (own_in hca
      (fun _ => hm.congr rfl rfl (fun _ => rfl) fun _ hq => hq) (.inl rfl) rfl)

/-- The pass of the thread. -/
theorem sound_thread {pc : ThreadPc} (hexec : execThread m t pc = some (m', fs))
    (h : Inv capacity on_evict m) (ho : Own m t (.thread pc :: k)) :
    Sound capacity on_evict t m m' (fs ++ k) := by
  obtain rfl : k = [] := ho.2.2
  cases pc with
  | start =>
    rcases Prod.mk.inj (Option.some.inj hexec) with ⟨rfl, rfl⟩
    exact sound_of_eq h rfl rfl rfl rfl rfl rfl (own_out (ho.out rfl) nofun rfl rfl)
  | top =>
    rcases Prod.mk.inj (Option.some.inj hexec) with ⟨rfl, rfl⟩
    split_ifs
    · exact sound_out h (ho.out rfl) (fun _ => nofun) rfl rfl
    · exact sound_out h (ho.out rfl) (fun _ => nofun) rfl rfl
  | lock =>
    rcases frames_of_map hexec with ⟨hlock, rfl⟩
    exact sound_lockCa hlock h (fun hm _ => hm) rfl rfl
  | enter =>
    have hca := ho.holds rfl
    have hm : Consistent m := ho.2.1 rfl
    rw [execThread] at hexec
    split_ifs at hexec
    · rcases Prod.mk.inj (Option.some.inj hexec) with ⟨rfl, rfl⟩
      exact sound_setCaFlags h (own_in hca
        (fun _ => hm.congr rfl rfl (fun _ => rfl) fun _ hq => hq) rfl rfl)
    · rcases Prod.mk.inj (Option.some.inj hexec) with ⟨rfl, rfl⟩
      exact sound_stay h (own_in hca (fun _ => hm) rfl rfl)
  | elem i =>
    have hca := ho.holds rfl
    have hm : Consistent m := ho.2.1 rfl
    rcases scan_cases hexec with ⟨-, rfl, rfl⟩ | ⟨p, hslot, hexec⟩ | ⟨-, rfl, rfl⟩
    · exact sound_stay h (own_in hca (fun _ => hm) rfl rfl)
    · rcases Prod.mk.inj (Option.some.inj hexec) with ⟨rfl, rfl⟩
      exact sound_stay h (own_in hca ⟨hm, hslot⟩ rfl rfl)
    · exact sound_stay h (own_in hca (fun _ => hm) rfl rfl)
  | read i p =>
    have hca := ho.holds rfl
    rcases ho.2.1 with ⟨hm, hslot⟩
    rcases Option.map_eq_some_iff.mp hexec with ⟨el, -, heq⟩
    rcases Prod.mk.inj heq with ⟨rfl, rfl⟩
    refine sound_stay h ?_
    split_ifs
    · exact own_in hca ⟨hm, hslot⟩ rfl rfl
    · exact own_in hca (fun _ => hm) rfl rfl
  | tryLock i p flags =>
    have hca := ho.holds rfl
    rcases ho.2.1 with ⟨hm, hslot⟩
    rcases Option.map_eq_some_iff.mp hexec with ⟨el, hel, heq⟩
    have hlive := Memory.el?_eq_some.mp hel
    split_ifs at heq with hfree
    · rcases Prod.mk.inj heq with ⟨rfl, rfl⟩
      refine sound_lockEl h hlive hfree ?_
      -- what the copy of the flags says decides where the work begins
      have hm' : Consistent (m.setEl p { el with ce_mutex := some t }) :=
        consistent_setEl hm hlive rfl
      have hheld := heldOk_lockEl (t := t) h hlive hfree
      unfold afterTryLock
      split_ifs with hdirty hevict
      · exact own_in hca ⟨hslot, hm', hheld⟩ (.inl rfl) rfl
      · exact own_in hca ⟨hslot, hm', hheld, rfl⟩ (.inl rfl) rfl
      · exact own_in hca ⟨hslot, hm', hheld, rfl⟩ (.inl rfl) rfl
    · rcases Prod.mk.inj heq with ⟨rfl, rfl⟩
      exact sound_stay h (own_in hca (fun _ => hm) rfl rfl)
  | leave =>
    have hca := ho.holds rfl
    have hm : Consistent m := ho.2.1 rfl
    rcases Prod.mk.inj (Option.some.inj hexec) with ⟨rfl, rfl⟩
    exact sound_setCaFlags h (own_in hca
      (fun _ => hm.congr rfl rfl (fun _ => rfl) fun _ hq => hq)
      (.inr (.inr (.inr (.inl rfl)))) rfl)
  | loop =>
    rcases Prod.mk.inj (Option.some.inj hexec) with ⟨rfl, rfl⟩
    split_ifs
    · exact sound_out h (ho.out rfl) (fun _ => nofun) rfl rfl
    · exact sound_out h (ho.out rfl) (fun _ => nofun) rfl rfl
  | finish =>
    rcases Prod.mk.inj (Option.some.inj hexec) with ⟨rfl, rfl⟩
    exact sound_of_eq h rfl rfl rfl rfl rfl rfl (ho.out rfl)

/-- Every statement keeps the invariant. -/
theorem sound_exec {inp : Input} (hexec : exec m t f inp = some (m', fs))
    (h : Inv capacity on_evict m) (ho : Own m t (f :: k)) :
    Sound capacity on_evict t m m' (fs ++ k) := by
  replace hexec := execFrame_of_exec hexec
  cases f with
  | flagOp op p pc => exact sound_flagOp hexec h ho
  | evictByIdx i p locked => exact sound_evictByIdx hexec h ho
  | work i p evict st => exact sound_work hexec h ho
  | evict key pc => exact sound_evict hexec h ho
  | lookup key pc => exact sound_lookup hexec h ho
  | map pc => exact sound_map hexec h ho
  | sync pc => exact sound_sync hexec h ho
  | disable pc => exact sound_disable hexec h ho
  | pgMap addr pc => exact sound_pgMap hexec h ho
  | caFlagOp op locked => exact sound_caFlagOp hexec h ho
  | setId p key =>
    obtain rfl : k = [] := ho.2.2
    rcases Option.map_eq_some_iff.mp hexec with ⟨el, hel, heq⟩
    rcases Prod.mk.inj heq with ⟨rfl, rfl⟩
    exact sound_setEl_same h (Memory.el?_eq_some.mp hel) rfl rfl (ho.out rfl)
  | thread pc => exact sound_thread hexec h ho
  | unlockCa ret =>
    rcases frames_of_map hexec with ⟨hunlock, rfl⟩
    exact sound_unlockCa hunlock h ho

end Steps

/-! ## The outline -/

/-- A client starts a call outside the critical section. -/
lemma own_entry {m : Memory} {t : Tid} {f : Frame} (hca : m.ca_mutex ≠ some t)
    (hentry : entry f = true) : Own m t [f] := by
  cases f with
  | flagOp op p pc =>
    obtain rfl : pc = .test := by simpa [entry] using hentry
    exact own_out hca nofun (.inl rfl) rfl
  | evictByIdx i p locked => simp [entry] at hentry
  | work i p evict st => simp [entry] at hentry
  | evict key pc =>
    obtain rfl : pc = .lock := by simpa [entry] using hentry
    exact own_out hca nofun rfl rfl
  | lookup key pc =>
    obtain rfl : pc = .lock := by simpa [entry] using hentry
    exact own_out hca nofun rfl rfl
  | map pc =>
    obtain rfl : pc = .lock := by simpa [entry] using hentry
    exact own_out hca nofun rfl rfl
  | sync pc =>
    obtain rfl : pc = .test := by simpa [entry] using hentry
    exact own_out hca nofun rfl rfl
  | disable pc =>
    obtain rfl : pc = .lock := by simpa [entry] using hentry
    exact own_out hca nofun rfl rfl
  | pgMap addr pc =>
    obtain rfl : pc = .scan 0 := by simpa [entry] using hentry
    exact own_out hca nofun rfl rfl
  | caFlagOp op locked =>
    obtain rfl : locked = false := by simpa [entry] using hentry
    exact own_out hca nofun rfl rfl
  | setId p key => exact own_out hca nofun rfl rfl
  | thread pc => simp [entry] at hentry
  | unlockCa ret => simp [entry] at hentry

/-- No statement is excluded. -/
abbrev Always (_ : Memory) (_ : Tid) (_ : Frame) (_ : Input) : Prop := True

theorem outline (capacity : ℕ) (on_evict : Bool) :
    StackOutline system Always (Inv capacity on_evict) Own where
  start {t inp fs} hstart m _ hown := by
    rcases start_eq_some hstart with ⟨n, f, rfl, rfl, hentry, rfl⟩
    exact own_entry hown hentry
  own hexec _ h ho :=
    have hsound := sound_exec hexec h ho
    ⟨hsound.inv, hsound.own⟩
  other hexec _ h ho t' ht _ hk' := ((sound_exec hexec h ho).others t' ht).own hk'

lemma consistent_init (capacity : ℕ) (on_evict on_flush : Bool) :
    Consistent (cacheInit capacity on_evict on_flush) := by
  constructor <;> simp [cacheInit, Memory.entries, Cell.shape, u32]

lemma holds_init (capacity : ℕ) (on_evict on_flush : Bool) :
    Holds (Inv capacity on_evict) Own (init capacity on_evict on_flush) := by
  refine ⟨⟨by simp [init, cacheInit], rfl, fun _ => consistent_init capacity on_evict on_flush,
    by simp [init, cacheInit], disciplined_nil, by simp [init, cacheInit]⟩, ?_⟩
  intro t
  cases t with
  | cacheThread => exact own_out (by simp [init, cacheInit]) nofun rfl rfl
  | client n => exact fun hca => by simp [init, cacheInit] at hca

end KanekFs.Cache.Machine
