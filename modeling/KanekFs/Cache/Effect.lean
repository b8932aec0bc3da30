import KanekFs.Cache.Steps

/-!
# What a statement does

`Effect` says once what each statement does to the flags of the elements, to the table, to
`ca_flags`, to the state of the thread and to what `cache_disable` takes down. Most statements do
nothing of the kind (`Frame.plain`). `Frame.leadsTo` says which calls a statement can go over to.
-/

namespace KanekFs.Cache.Machine

open Threads Run

/-- What the statement does to the flags of the element at `q`. -/
def Frame.assigns (q : ℕ) : Frame → ElFlags → ElFlags
  | .flagOp op p .assign, fl => if q = p then op.assign fl else fl
  | .flagOp _ p .clearClean, fl => if q = p then { fl with clean := false } else fl
  | .work _ p _ .clearDirty, fl => if q = p then { fl with dirty := false } else fl
  | .work _ p _ .setClean, fl => if q = p then { fl with clean := true } else fl
  | .work _ p _ .zeroFlags, fl => if q = p then .zero else fl
  | _, fl => fl

/-- The statement frees the element at `q`. -/
def Frame.frees (q : ℕ) : Frame → Prop
  | .work _ p _ .free => q = p
  | _ => False

/-- What the statement does to `ca_flags`. -/
def Frame.caAssign (m : Memory) : Frame → CaFlags → CaFlags
  | .sync .setLoop, fl => { fl with set_loop_done := true }
  | .sync (.clear _), fl => { fl with loop_done := false }
  | .disable .setExit, fl => { fl with exit := true }
  | .caFlagOp op true, fl => op.assign fl
  | .thread .start, fl => { fl with active := true }
  | .thread .enter, fl => if m.ca_elements_in_use > 0 then { fl with on_loop := true } else fl
  | .thread .leave, fl => leaveFlags fl
  | .thread .finish, _ => { CaFlags.zero with exit := true, evicted := true }
  | _, fl => fl

/-- What the statement does to the table. -/
def Frame.setsSlot : Frame → List (Option ℕ) → List (Option ℕ)
  | .work i _ _ .clearSlot, l => l.set i none
  | .map (.publish sub p), l => l.set sub (some p)
  | _, l => l

/-- The assignment is still to come. -/
def FlagPc.toAssign : FlagPc → Bool
  | .test | .lock | .assign => true
  | .clearClean | .unlock => false

/-- What happens to a cell: a new element comes into it, or the flags of its element are
assigned, or its element is freed. -/
inductive CellStep (g : ElFlags → ElFlags) (frees : Prop) : Cell → Cell → Prop
  | unused : CellStep g frees .unused .unused
  | freed : CellStep g frees .freed .freed
  | mapped {el : Elem} (hfl : el.ce_flags = .mapped) : CellStep g frees .unused (.live el)
  | assigned {el el' : Elem} (hfl : el'.ce_flags = g el.ce_flags) :
    CellStep g frees (.live el) (.live el')
  | removed {el : Elem} (hf : frees) : CellStep g frees (.live el) .freed

/-- What the statement `f` does. -/
structure Effect (f : Frame) (m m' : Memory) : Prop where
  cells : ∀ q, CellStep (f.assigns q) (f.frees q) (m.heap q) (m'.heap q)
  log : m.log <:+ m'.log
  table : m'.ca_elements_ptr = f.setsSlot m.ca_elements_ptr
  flags : m'.ca_flags = f.caAssign m m.ca_flags
  ended : m'.ca_thread_ended = (m.ca_thread_ended || f = .thread .finish)
  destroyed : m'.ca_mutex_destroyed = (m.ca_mutex_destroyed || f = .disable .destroyMutex)
  tableFreed : m'.ca_elements_freed = (m.ca_elements_freed || f = .disable .freeTable)
  onFlush : m'.ca_on_flush_callback = m.ca_on_flush_callback

/-- The statement does none of this. -/
def Frame.plain : Frame → Bool
  | .flagOp _ _ .assign | .flagOp _ _ .clearClean => false
  | .work _ _ _ .clearDirty | .work _ _ _ .setClean | .work _ _ _ .zeroFlags
  | .work _ _ _ .free | .work _ _ _ .clearSlot | .map (.publish _ _) => false
  | .sync .setLoop | .sync (.clear _) | .disable .setExit | .disable .destroyMutex
  | .disable .freeTable => false
  | .caFlagOp _ locked => !locked
  | .thread .start | .thread .enter | .thread .leave | .thread .finish => false
  | _ => true

/-- Apart from new elements, only what is outside of `Effect` changes. -/
structure Plain (m m' : Memory) : Prop where
  cells : ∀ q, CellStep id False (m.heap q) (m'.heap q)
  log : m.log <:+ m'.log
  table : m'.ca_elements_ptr = m.ca_elements_ptr
  flags : m'.ca_flags = m.ca_flags
  ended : m'.ca_thread_ended = m.ca_thread_ended
  destroyed : m'.ca_mutex_destroyed = m.ca_mutex_destroyed
  tableFreed : m'.ca_elements_freed = m.ca_elements_freed
  onFlush : m'.ca_on_flush_callback = m.ca_on_flush_callback

@[simp] def Frame.isThread : Frame → Bool
  | .thread _ => true
  | _ => false

/-- The call works on an element, or has read its flags and is about to. -/
@[simp] def Frame.works : Frame → Bool
  | .work _ _ _ _ | .thread (.tryLock _ _ _) => true
  | _ => false

/-- The statement can lead to such a call. -/
@[simp] def Frame.readsFlags : Frame → Bool
  | .evictByIdx _ _ locked => locked
  | .work _ _ _ _ | .thread (.read _ _) | .thread (.tryLock _ _ _) => true
  | _ => false

/-- The call is one of `cache_sync`. -/
@[simp] def Frame.syncs : Frame → Bool
  | .sync _ => true
  | _ => false

/-- The call makes a request to the thread. -/
@[simp] def Frame.asks : Frame → Bool
  | .sync _ | .disable _ => true
  | _ => false

/-- The call evicts whatever it finds, pinned or not. -/
@[simp] def Frame.demands : Frame → Bool
  | .evict _ _ | .disable _ => true
  | _ => false

/-- The call marks an element for eviction. -/
@[simp] def Frame.marks : Frame → Bool
  | .flagOp op _ _ => op = .markEviction
  | _ => false

/-- The call assigns to the flags of an element. -/
@[simp] def Frame.onFlags : Frame → Bool
  | .flagOp _ _ _ => true
  | _ => false

/-- The call maps an element. -/
@[simp] def Frame.maps : Frame → Bool
  | .map _ => true
  | _ => false

/-- What a frame can be replaced by. -/
@[simp] def Frame.leadsTo (f g : Frame) : Bool :=
  (f.isThread || !g.isThread) && (f.readsFlags || !g.works) && (f.asks || !g.asks) &&
    (f.demands || !g.demands) && (f.marks || f.asks || !g.marks) &&
    (f.onFlags || f.asks || !g.onFlags) && (f.maps || !g.maps) && (f.syncs || !g.syncs)

section Effect

variable {m m' : Memory} {t : Tid} {p : ℕ} {el el' : Elem} {e : Event} {f : Frame}
  {fs : List Frame}

/-! ## Steps of the memory -/

lemma cellStep_self {g : ElFlags → ElFlags} {frees : Prop} (hg : ∀ fl, g fl = fl) (c : Cell) :
    CellStep g frees c c := by
  cases c with
  | unused => exact .unused
  | freed => exact .freed
  | live el => exact .assigned (hg el.ce_flags).symm

lemma CellStep.trans {c c₁ c₂ : Cell} (h : CellStep id False c c₁) (h' : CellStep id False c₁ c₂) :
    CellStep id False c c₂ := by
  cases h with
  | unused => exact h'
  | freed => exact h'
  | mapped hfl =>
    cases h' with
    | assigned hfl' => exact .mapped (hfl'.trans hfl)
    | removed hf => exact hf.elim
  | assigned hfl =>
    cases h' with
    | assigned hfl' => exact .assigned (hfl'.trans hfl)
    | removed hf => exact hf.elim
  | removed hf => exact hf.elim

lemma CellStep.of_plain {g : ElFlags → ElFlags} {frees : Prop} {c c' : Cell} (hg : g = id)
    (h : CellStep id False c c') : CellStep g frees c c' := by
  subst hg
  cases h with
  | unused => exact .unused
  | freed => exact .freed
  | mapped hfl => exact .mapped hfl
  | assigned hfl => exact .assigned hfl
  | removed hf => exact hf.elim

lemma setEl_other {q : ℕ} (hqp : q ≠ p) : (m.setEl p el).heap q = m.heap q := by
  simp [Memory.setEl, Function.update_of_ne hqp]

lemma cells_setEl {g : ℕ → ElFlags → ElFlags} {frees : ℕ → Prop} (hel : m.heap p = .live el)
    (hfl : el'.ce_flags = g p el.ce_flags) (hother : ∀ q ≠ p, ∀ fl, g q fl = fl) (q : ℕ) :
    CellStep (g q) (frees q) (m.heap q) ((m.setEl p el').heap q) := by
  by_cases hqp : q = p
  · subst hqp
    rw [hel, setEl_self]
    exact .assigned hfl
  · rw [setEl_other hqp]
    exact cellStep_self (hother q hqp) _

lemma plain_rfl : Plain m m :=
  ⟨fun _ => cellStep_self (fun _ => rfl) _, List.suffix_rfl, rfl, rfl, rfl, rfl, rfl, rfl⟩

lemma plain_of_heap (hheap : m'.heap = m.heap) (hlog : m.log <:+ m'.log)
    (htable : m'.ca_elements_ptr = m.ca_elements_ptr) (hflags : m'.ca_flags = m.ca_flags)
    (hended : m'.ca_thread_ended = m.ca_thread_ended)
    (hdestroyed : m'.ca_mutex_destroyed = m.ca_mutex_destroyed)
    (hfreed : m'.ca_elements_freed = m.ca_elements_freed)
    (hcall : m'.ca_on_flush_callback = m.ca_on_flush_callback) : Plain m m' :=
  ⟨fun _ => hheap ▸ cellStep_self (fun _ => rfl) _, hlog, htable, hflags, hended, hdestroyed,
    hfreed, hcall⟩

lemma plain_setEl (hel : m.heap p = .live el) (hfl : el'.ce_flags = el.ce_flags) :
    Plain m (m.setEl p el') :=
  ⟨cells_setEl (g := fun _ => id) hel hfl fun _ _ _ => rfl, List.suffix_rfl, rfl, rfl, rfl, rfl,
    rfl, rfl⟩

lemma plain_malloc (hunused : m.heap p = .unused) (hfl : el'.ce_flags = .mapped) :
    Plain m (m.setEl p el') where
  cells q := by
    by_cases hqp : q = p
    · subst hqp
      rw [hunused, setEl_self]
      exact .mapped hfl
    · rw [setEl_other hqp]
      exact cellStep_self (fun _ => rfl) _
  log := List.suffix_rfl
  table := rfl
  flags := rfl
  ended := rfl
  destroyed := rfl
  tableFreed := rfl
  onFlush := rfl

lemma plain_emit : Plain m (m.emit e) :=
  plain_of_heap rfl (List.suffix_cons _ _) rfl rfl rfl rfl rfl rfl

lemma Plain.trans {m₁ : Memory} (h : Plain m m₁) (h' : Plain m₁ m') : Plain m m' :=
  ⟨fun q => (h.cells q).trans (h'.cells q), h.log.trans h'.log, h'.table.trans h.table,
    h'.flags.trans h.flags, h'.ended.trans h.ended, h'.destroyed.trans h.destroyed,
    h'.tableFreed.trans h.tableFreed, h'.onFlush.trans h.onFlush⟩

lemma plain_lockEl (h : m.lockEl t p = some m') : Plain m m' := by
  rcases Memory.lockEl_eq_some h with ⟨el, hel, -, rfl⟩
  exact plain_setEl hel rfl

lemma plain_unlockEl (h : m.unlockEl t p = some m') : Plain m m' := by
  rcases Memory.unlockEl_eq_some h with ⟨el, hel, -, rfl⟩
  exact plain_setEl hel rfl

lemma plain_addCountEl (h : m.addCountEl p = some m') : Plain m m' := by
  rcases Memory.addCountEl_eq_some h with ⟨el, hel, rfl⟩
  exact plain_setEl hel rfl

lemma plain_lockCa (h : m.lockCa t = some m') : Plain m m' := by
  rcases Memory.lockCa_eq_some h with ⟨-, rfl⟩
  exact plain_of_heap rfl List.suffix_rfl rfl rfl rfl rfl rfl rfl

lemma plain_unlockCa (h : m.unlockCa t = some m') : Plain m m' := by
  rcases Memory.unlockCa_eq_some h with ⟨-, rfl⟩
  exact plain_of_heap rfl List.suffix_rfl rfl rfl rfl rfl rfl rfl

/-- A plain statement. -/
lemma Plain.effect (h : Plain m m') (hf : f.plain = true) : Effect f m m' := by
  have hfinish : f ≠ .thread .finish := by
    rintro rfl
    simp [Frame.plain] at hf
  have hdestroy : f ≠ .disable .destroyMutex := by
    rintro rfl
    simp [Frame.plain] at hf
  have hfree : f ≠ .disable .freeTable := by
    rintro rfl
    simp [Frame.plain] at hf
  have hassigns : ∀ q, f.assigns q = id := by
    intro q
    cases f with
    | flagOp op p pc => cases pc <;> simp [Frame.plain] at hf <;> rfl
    | work i p evict st => cases st <;> simp [Frame.plain] at hf <;> rfl
    | _ => rfl
  have hcaAssign : f.caAssign m m.ca_flags = m.ca_flags := by
    cases f with
    | sync pc => cases pc <;> simp [Frame.plain] at hf <;> rfl
    | disable pc => cases pc <;> simp [Frame.plain] at hf <;> rfl
    | thread pc => cases pc <;> simp [Frame.plain] at hf <;> rfl
    | caFlagOp op locked => cases locked <;> simp [Frame.plain] at hf; rfl
    | _ => rfl
  have hslots : f.setsSlot m.ca_elements_ptr = m.ca_elements_ptr := by
    cases f with
    | work i p evict st => cases st <;> simp [Frame.plain] at hf <;> rfl
    | map pc => cases pc <;> simp [Frame.plain] at hf <;> rfl
    | _ => rfl
  refine ⟨?_, h.log, h.table.trans hslots.symm, h.flags.trans hcaAssign.symm,
    by simp [h.ended, hfinish], by simp [h.destroyed, hdestroy], by simp [h.tableFreed, hfree],
    h.onFlush⟩
  exact fun q => (h.cells q).of_plain (hassigns q)

/-- A statement that leaves the elements alone. -/
lemma effect_of_heap (hheap : m'.heap = m.heap) (hlog : m'.log = m.log)
    (hassigns : ∀ q, f.assigns q = id) (htable : m'.ca_elements_ptr = f.setsSlot m.ca_elements_ptr)
    (hflags : m'.ca_flags = f.caAssign m m.ca_flags)
    (hended : m'.ca_thread_ended = (m.ca_thread_ended || f = .thread .finish))
    (hdestroyed : m'.ca_mutex_destroyed = (m.ca_mutex_destroyed || f = .disable .destroyMutex))
    (hfreed : m'.ca_elements_freed = (m.ca_elements_freed || f = .disable .freeTable))
    (hcall : m'.ca_on_flush_callback = m.ca_on_flush_callback) : Effect f m m' :=
  ⟨fun q => hheap ▸ cellStep_self (fun fl => by rw [hassigns q, id]) _, hlog ▸ List.suffix_rfl,
    htable, hflags, hended, hdestroyed, hfreed, hcall⟩

/-- A statement that assigns to the flags of the element at `p`. -/
lemma effect_setFlags {g : ElFlags → ElFlags} (h : m.setFlags p g = some m')
    (hself : f.assigns p = g) (hother : ∀ q ≠ p, f.assigns q = id)
    (htable : f.setsSlot m.ca_elements_ptr = m.ca_elements_ptr)
    (hca : f.caAssign m m.ca_flags = m.ca_flags) (hf : f.isThread = false ∧ f.asks = false) :
    Effect f m m' := by
  rcases Memory.setFlags_eq_some h with ⟨el, hel, rfl⟩
  have hfinish : f ≠ .thread .finish := by
    rintro rfl
    simp at hf
  have hdestroy : f ≠ .disable .destroyMutex := by
    rintro rfl
    simp at hf
  have hfree : f ≠ .disable .freeTable := by
    rintro rfl
    simp at hf
  refine ⟨cells_setEl (g := fun q => f.assigns q) hel (by rw [hself]) ?_, List.suffix_rfl,
    htable.symm, hca.symm, by simp [Memory.setEl, hfinish], by simp [Memory.setEl, hdestroy],
    by simp [Memory.setEl, hfree], rfl⟩
  intro q hq fl
  rw [hother q hq, id]

/-! ## The statements -/

/-- What the result of the statement `f` is like. -/
def Outcome (m : Memory) (f : Frame) (r : Result) : Prop :=
  ∀ m' fs, r = some (m', fs) → Effect f m m' ∧ ∀ g ∈ fs, f.leadsTo g = true

lemma outcome_none : Outcome m f none := fun _ _ h => by simp at h

lemma outcome_some (hm : Effect f m m') (hfs : ∀ g ∈ fs, f.leadsTo g = true) :
    Outcome m f (some (m', fs)) := by
  rintro _ _ ⟨⟩
  exact ⟨hm, hfs⟩

lemma outcome_stay (hf : f.plain = true) (hfs : ∀ g ∈ fs, f.leadsTo g = true) :
    Outcome m f (some (m, fs)) := outcome_some (plain_rfl.effect hf) hfs

lemma outcome_plain (hm : Plain m m') (hf : f.plain = true) (hfs : ∀ g ∈ fs, f.leadsTo g = true) :
    Outcome m f (some (m', fs)) := outcome_some (hm.effect hf) hfs

/-- A statement that assigns to `ca_flags`. -/
lemma outcome_setCaFlags {g : CaFlags → CaFlags} (hassigns : ∀ q, f.assigns q = id)
    (htable : m.ca_elements_ptr = f.setsSlot m.ca_elements_ptr)
    (hg : g m.ca_flags = f.caAssign m m.ca_flags)
    (hends : f ≠ .thread .finish ∧ f ≠ .disable .destroyMutex ∧ f ≠ .disable .freeTable)
    (hfs : ∀ g ∈ fs, f.leadsTo g = true) : Outcome m f (some (m.setCaFlags g, fs)) :=
  outcome_some (effect_of_heap rfl rfl hassigns htable hg (by simp [Memory.setCaFlags, hends.1])
    (by simp [Memory.setCaFlags, hends.2.1]) (by simp [Memory.setCaFlags, hends.2.2]) rfl) hfs

lemma outcome_map {o : Option Memory} (hm : ∀ m', o = some m' → Effect f m m')
    (hfs : ∀ g ∈ fs, f.leadsTo g = true) : Outcome m f (o.map fun m => (m, fs)) := by
  intro m' fs' h
  rcases frames_of_map h with ⟨ho, rfl⟩
  exact ⟨hm m' ho, hfs⟩

lemma outcome_el? {g : Elem → Memory × List Frame}
    (h : ∀ el, m.heap p = .live el → Outcome m f (some (g el))) :
    Outcome m f ((m.el? p).map g) := by
  intro m' fs' hr
  rcases Option.map_eq_some_iff.mp hr with ⟨el, hel, heq⟩
  exact h el (Memory.el?_eq_some.mp hel) m' fs' (by rw [heq])

lemma outcome_flagOp {op : FlagOp} {pc : FlagPc} :
    Outcome m (.flagOp op p pc) (execFlagOp m t op p pc) := by
  have hnext : ∀ pc', ∀ g ∈ [Frame.flagOp op p pc'], Frame.leadsTo (.flagOp op p pc) g = true := by
    intro pc'
    cases op <;> simp
  cases pc with
  | test =>
    refine outcome_el? fun el _ => outcome_stay rfl ?_
    split_ifs
    · exact hnext _
    · simp
  | lock => exact outcome_map (fun _ h => (plain_lockEl h).effect rfl) (hnext _)
  | assign =>
    refine outcome_map (fun _ h => effect_setFlags h ?_ ?_ rfl rfl (by simp)) (hnext _)
    · exact funext fun _ => if_pos rfl
    · exact fun q hq => funext fun _ => if_neg hq
  | clearClean =>
    refine outcome_map (fun _ h => effect_setFlags h ?_ ?_ rfl rfl (by simp)) (hnext _)
    · exact funext fun _ => if_pos rfl
    · exact fun q hq => funext fun _ => if_neg hq
  | unlock =>
    intro m' fs h
    rcases Option.map_eq_some_iff.mp h with ⟨m₁, hunlock, heq⟩
    rcases Prod.mk.inj heq with ⟨rfl, rfl⟩
    refine ⟨?_, by simp⟩
    split_ifs
    · exact ((plain_unlockEl hunlock).trans plain_emit).effect rfl
    · exact (plain_unlockEl hunlock).effect rfl

lemma outcome_work {i : ℕ} {evict : Bool} {st : Stage} :
    Outcome m (.work i p evict st) (execWork m t i p evict st) := by
  cases st with
  | addCount => exact outcome_map (fun _ h => (plain_addCountEl h).effect rfl) (by simp)
  | flush =>
    refine outcome_some ?_ (by simp)
    split_ifs
    · exact plain_emit.effect rfl
    · exact plain_rfl.effect rfl
  | clearDirty =>
    refine outcome_map (fun _ h => effect_setFlags h ?_ ?_ rfl rfl (by simp)) (by simp)
    · exact funext fun _ => if_pos rfl
    · exact fun q hq => funext fun _ => if_neg hq
  | setClean =>
    refine outcome_map (fun _ h => effect_setFlags h ?_ ?_ rfl rfl (by simp)) (by simp)
    · exact funext fun _ => if_pos rfl
    · exact fun q hq => funext fun _ => if_neg hq
  | onEvict =>
    refine outcome_some ?_ (by simp)
    split_ifs
    · exact plain_emit.effect rfl
    · exact plain_rfl.effect rfl
  | decInUse =>
    exact outcome_plain (plain_of_heap rfl List.suffix_rfl rfl rfl rfl rfl rfl rfl) rfl (by simp)
  | zeroFlags =>
    refine outcome_map (fun _ h => effect_setFlags h ?_ ?_ rfl rfl (by simp)) (by simp)
    · exact funext fun _ => if_pos rfl
    · exact fun q hq => funext fun _ => if_neg hq
  | unlock => exact outcome_map (fun _ h => (plain_unlockEl h).effect rfl) (by simp)
  | destroy => exact outcome_el? fun _ _ => outcome_stay rfl (by simp)
  | free =>
    refine outcome_map ?_ (by simp)
    intro m' h
    rcases Memory.freeEl_eq_some h with ⟨el, hel, rfl⟩
    refine ⟨?_, List.suffix_cons _ _, rfl, rfl, by simp [Memory.emit], by simp [Memory.emit],
      by simp [Memory.emit], rfl⟩
    intro q
    by_cases hqp : q = p
    · subst hqp
      simp only [Memory.emit, Function.update_self, hel]
      exact .removed rfl
    · simp only [Memory.emit, Function.update_of_ne hqp]
      exact cellStep_self (fun _ => rfl) _
  | clearSlot =>
    exact outcome_some (effect_of_heap rfl rfl (fun _ => rfl) rfl rfl (by simp) (by simp) (by simp)
      rfl) (by simp)
  | release => exact outcome_map (fun _ h => (plain_unlockEl h).effect rfl) (by simp)

lemma outcome_evictByIdx {i : ℕ} {locked : Bool} :
    Outcome m (.evictByIdx i p locked) (execEvictByIdx m t i p locked) := by
  cases locked with
  | false => exact outcome_map (fun _ h => (plain_lockEl h).effect rfl) (by simp)
  | true => exact outcome_el? fun _ _ => outcome_stay rfl (by simp)

lemma outcome_evict {key : ℕ} {pc : ScanPc} : Outcome m (.evict key pc) (execEvict m t key pc) := by
  cases pc with
  | lock => exact outcome_map (fun _ h => (plain_lockCa h).effect rfl) (by simp)
  | scan i =>
    rw [execEvict]
    split_ifs
    · split
      · exact outcome_stay rfl (by simp)
      · refine outcome_el? fun el _ => outcome_stay rfl ?_
        split_ifs <;> simp
    · exact outcome_stay rfl (by simp)

lemma outcome_lookup {key : ℕ} {pc : ScanPc} :
    Outcome m (.lookup key pc) (execLookup m t key pc) := by
  cases pc with
  | lock => exact outcome_map (fun _ h => (plain_lockCa h).effect rfl) (by simp)
  | scan i =>
    rw [execLookup]
    split_ifs
    · split
      · exact outcome_stay rfl (by simp)
      · refine outcome_el? ?_
        intro el hel
        split_ifs
        · exact outcome_plain (plain_setEl hel rfl) rfl (by simp)
        · exact outcome_stay rfl (by simp)
    · exact outcome_stay rfl (by simp)

lemma outcome_map_call {pc : MapPc} {inp : Input} : Outcome m (.map pc) (execMap m t pc inp) := by
  cases pc with
  | lock => exact outcome_map (fun _ h => (plain_lockCa h).effect rfl) (by simp)
  | find =>
    rw [execMap]
    split <;> exact outcome_stay rfl (by simp)
  | lru i l =>
    rw [execMap]
    split_ifs
    · split
      · exact outcome_stay rfl (by simp)
      · exact outcome_el? fun _ _ => outcome_stay rfl (by simp)
    · split
      · exact outcome_stay rfl (by simp)
      · intro m' fs h
        rcases Option.map_eq_some_iff.mp h with ⟨p, -, heq⟩
        rcases Prod.mk.inj heq with ⟨rfl, rfl⟩
        exact ⟨plain_rfl.effect rfl, by simp⟩
  | malloc sub =>
    cases inp with
    | alloc p id =>
      rw [execMap]
      split
      · rename_i hunused
        exact outcome_plain (plain_malloc hunused rfl) rfl (by simp)
      · exact outcome_none
    | allocFails => exact outcome_stay rfl (by simp)
    | go => exact outcome_none
    | call f => exact outcome_none
    | timeout => exact outcome_none
    | grow => exact outcome_none
  | publish sub p =>
    exact outcome_some (effect_of_heap rfl rfl (fun _ => rfl) rfl rfl (by simp) (by simp) (by simp)
      rfl) (by simp)

lemma outcome_sync {pc : SyncPc} {inp : Input} : Outcome m (.sync pc) (execSync m t pc inp) := by
  cases pc with
  | test =>
    refine outcome_stay rfl ?_
    split_ifs <;> simp
  | lock => exact outcome_map (fun _ h => (plain_lockCa h).effect rfl) (by simp)
  | scan i =>
    rw [execSync]
    split_ifs
    · split
      · exact outcome_stay rfl (by simp)
      · refine outcome_el? fun el _ => outcome_stay rfl ?_
        split_ifs <;> simp
    · exact outcome_stay rfl (by simp)
  | setLoop => exact outcome_setCaFlags (fun _ => rfl) rfl rfl (by simp) (by simp)
  | wait =>
    intro m' fs hexec
    rcases sync_wait_cases hexec with ⟨rfl, rfl | ⟨rfl, -⟩⟩
    · exact ⟨plain_rfl.effect rfl, by simp⟩
    · exact ⟨plain_rfl.effect rfl, by simp⟩
  | clearLock rc => exact outcome_map (fun _ h => (plain_lockCa h).effect rfl) (by simp)
  | clear rc => exact outcome_setCaFlags (fun _ => rfl) rfl rfl (by simp) (by simp)
  | ret rc => exact outcome_stay rfl (by simp)

lemma outcome_disable {pc : DisablePc} {inp : Input} :
    Outcome m (.disable pc) (execDisable m t pc inp) := by
  cases pc with
  | lock => exact outcome_map (fun _ h => (plain_lockCa h).effect rfl) (by simp)
  | scan i =>
    rw [execDisable]
    split_ifs
    · split <;> exact outcome_stay rfl (by simp)
    · exact outcome_stay rfl (by simp)
  | setExit => exact outcome_setCaFlags (fun _ => rfl) rfl rfl (by simp) (by simp)
  | wait =>
    intro m' fs hexec
    rcases disable_wait_cases hexec with ⟨rfl, rfl⟩
    exact ⟨plain_rfl.effect rfl, by simp⟩
  | join =>
    rw [execDisable]
    split_ifs
    · exact outcome_stay rfl (by simp)
    · exact outcome_none
    · exact outcome_stay rfl (by simp)
  | destroyMutex =>
    exact outcome_some (effect_of_heap rfl rfl (fun _ => rfl) rfl rfl (by simp) (by simp) (by simp)
      rfl) (by simp)
  | freeTable =>
    exact outcome_some (effect_of_heap rfl rfl (fun _ => rfl) rfl rfl (by simp) (by simp) (by simp)
      rfl) (by simp)
  | ret => exact outcome_stay rfl (by simp)

lemma outcome_pgMap {addr : ℕ} {pc : PgMapPc} {inp : Input} :
    Outcome m (.pgMap addr pc) (execPgMap m t addr pc inp) := by
  have hstay : ∀ g : Frame, Frame.leadsTo (.pgMap addr pc) g = true →
      Outcome m (.pgMap addr pc) (some (m, [g])) :=
    fun g hg => outcome_stay rfl (by simpa only [List.mem_singleton, forall_eq] using hg)
  cases pc with
  | scan i =>
    rw [execPgMap]
    split_ifs
    · split
      · exact hstay _ rfl
      · exact hstay _ rfl
    · exact outcome_stay rfl (by simp)
  | read i p => exact outcome_el? fun _ _ => hstay _ rfl
  | addCount p => exact outcome_map (fun _ h => (plain_addCountEl h).effect rfl) (by simp)
  | size p => cases inp <;> exact hstay _ rfl
  | growLock p => exact outcome_map (fun _ h => (plain_lockEl h).effect rfl) (by simp)
  | growRead p =>
    cases inp with
    | allocFails => exact hstay _ rfl
    | go => exact outcome_el? fun _ _ => hstay _ rfl
    | call f => exact outcome_el? fun _ _ => hstay _ rfl
    | alloc p id => exact outcome_el? fun _ _ => hstay _ rfl
    | timeout => exact outcome_el? fun _ _ => hstay _ rfl
    | grow => exact outcome_el? fun _ _ => hstay _ rfl
  | growUnlock p => exact outcome_map (fun _ h => (plain_unlockEl h).effect rfl) (by simp)
  | ret p => exact outcome_stay rfl (by simp)

lemma outcome_caFlagOp {op : CaFlagOp} {locked : Bool} :
    Outcome m (.caFlagOp op locked) (execCaFlagOp m t op locked) := by
  cases locked with
  | false =>
    rw [execCaFlagOp]
    split_ifs
    · exact outcome_map (fun _ h => (plain_lockCa h).effect rfl) (by simp)
    · exact outcome_stay rfl (by simp)
  | true => exact outcome_setCaFlags (fun _ => rfl) rfl rfl (by simp) (by simp)

lemma outcome_thread {pc : ThreadPc} : Outcome m (.thread pc) (execThread m t pc) := by
  cases pc with
  | start =>
    exact outcome_some (effect_of_heap rfl rfl (fun _ => rfl) rfl rfl (by simp [Memory.setCaFlags])
      (by simp [Memory.setCaFlags]) (by simp [Memory.setCaFlags]) rfl) (by simp)
  | top =>
    refine outcome_stay rfl ?_
    split_ifs <;> simp
  | lock => exact outcome_map (fun _ h => (plain_lockCa h).effect rfl) (by simp)
  | enter =>
    rw [execThread]
    split_ifs with huse
    · exact outcome_setCaFlags (fun _ => rfl) rfl (by simp [Frame.caAssign, huse]) (by simp)
        (by simp)
    · exact outcome_some (effect_of_heap rfl rfl (fun _ => rfl) rfl (by simp [Frame.caAssign, huse])
        (by simp) (by simp) (by simp) rfl) (by simp)
  | elem i =>
    rw [execThread]
    split_ifs
    · split <;> exact outcome_stay rfl (by simp)
    · exact outcome_stay rfl (by simp)
  | read i p =>
    refine outcome_el? fun _ _ => outcome_stay rfl ?_
    split_ifs <;> simp
  | tryLock i p flags =>
    refine outcome_el? ?_
    intro el hel
    split_ifs
    · refine outcome_plain (plain_setEl hel rfl) rfl ?_
      unfold afterTryLock
      split_ifs <;> simp
    · exact outcome_stay rfl (by simp)
  | leave => exact outcome_setCaFlags (fun _ => rfl) rfl rfl (by simp) (by simp)
  | loop =>
    refine outcome_stay rfl ?_
    split_ifs <;> simp
  | finish =>
    exact outcome_some (effect_of_heap rfl rfl (fun _ => rfl) rfl rfl (by simp [Memory.setCaFlags])
      (by simp [Memory.setCaFlags]) (by simp [Memory.setCaFlags]) rfl) (by simp)

theorem outcome_exec {inp : Input} : Outcome m f (exec m t f inp) := by
  unfold exec
  split_ifs
  · exact outcome_none
  · cases f with
    | flagOp op p pc => exact outcome_flagOp
    | evictByIdx i p locked => exact outcome_evictByIdx
    | work i p evict st => exact outcome_work
    | evict key pc => exact outcome_evict
    | lookup key pc => exact outcome_lookup
    | map pc => exact outcome_map_call
    | sync pc => exact outcome_sync
    | disable pc => exact outcome_disable
    | pgMap addr pc => exact outcome_pgMap
    | caFlagOp op locked => exact outcome_caFlagOp
    | setId p key =>
      exact outcome_el? fun _ hel => outcome_plain (plain_setEl hel rfl) rfl (by simp)
    | thread pc => exact outcome_thread
    | unlockCa ret => exact outcome_map (fun _ h => (plain_unlockCa h).effect rfl) (by simp)


/-! ## What follows for a whole statement -/

theorem effect_exec {inp : Input} (h : exec m t f inp = some (m', fs)) : Effect f m m' :=
  (outcome_exec m' fs h).1

/-- What it says of `g` that `f` can be replaced by it. -/
structure LeadsTo (f g : Frame) : Prop where
  thread : f.isThread = false → g.isThread = false
  works : f.readsFlags = false → g.works = false
  asks : f.asks = false → g.asks = false
  demands : f.demands = false → g.demands = false
  marks : f.asks = false → g.marks = true → f.marks = true
  onFlags : g.onFlags = true → f.onFlags = true ∨ f.asks = true
  maps : g.maps = true → f.maps = true
  syncs : g.syncs = true → f.syncs = true

lemma leadsTo_exec {inp : Input} (h : exec m t f inp = some (m', fs)) :
    ∀ g ∈ fs, LeadsTo f g := by
  intro g hg
  have hlead := (outcome_exec m' fs h).2 g hg
  unfold Frame.leadsTo at hlead
  simp only [Bool.and_eq_true, Bool.or_eq_true, Bool.not_eq_eq_eq_not, Bool.not_true] at hlead
  rcases hlead with
    ⟨⟨⟨⟨⟨⟨⟨hthread, hworks⟩, hasks⟩, hdemands⟩, hmarks⟩, hflags⟩, hmaps⟩, hsyncs⟩
  exact
    { thread := fun hf => hthread.resolve_left (ne_true_of_eq_false hf)
      works := fun hf => hworks.resolve_left (ne_true_of_eq_false hf)
      asks := fun hf => hasks.resolve_left (ne_true_of_eq_false hf)
      demands := fun hf => hdemands.resolve_left (ne_true_of_eq_false hf)
      marks := fun hf hg => (hmarks.resolve_right (ne_false_of_eq_true hg)).resolve_right
        (ne_true_of_eq_false hf)
      onFlags := fun hg => hflags.resolve_right (ne_false_of_eq_true hg)
      maps := fun hg => hmaps.resolve_right (ne_false_of_eq_true hg)
      syncs := fun hg => hsyncs.resolve_right (ne_false_of_eq_true hg) }

/-- Only the thread runs the code of the thread. -/
theorem isThread_exec {inp : Input} (h : exec m t f inp = some (m', fs))
    (hf : f.isThread = false) : ∀ g ∈ fs, g.isThread = false :=
  fun g hg => (leadsTo_exec h g hg).thread hf

/-- Only a call that has the flags of an element comes to work on it. -/
theorem works_exec {inp : Input} (h : exec m t f inp = some (m', fs))
    (hf : f.readsFlags = false) : ∀ g ∈ fs, g.works = false :=
  fun g hg => (leadsTo_exec h g hg).works hf

/-- Requests are made by the calls of a client. -/
theorem asks_exec {inp : Input} (h : exec m t f inp = some (m', fs))
    (hf : f.asks = false) : ∀ g ∈ fs, g.asks = false :=
  fun g hg => (leadsTo_exec h g hg).asks hf

/-- No live element is freed, loses `CACHE_EL_DIRTY` or loses `CACHE_EL_EVICT`. -/
structure Keeps (m m' : Memory) : Prop where
  log : m.log <:+ m'.log
  live : ∀ p el, m.heap p = .live el → ∃ el', m'.heap p = .live el' ∧
    (el.ce_flags.dirty = true → el'.ce_flags.dirty = true) ∧
    (el.ce_flags.evict = true → el'.ce_flags.evict = true)

/-- The statement frees an element or clears one of its flags. -/
def Frame.clears : Frame → Bool
  | .work _ _ _ .clearDirty | .work _ _ _ .zeroFlags | .work _ _ _ .free => true
  | _ => false

lemma keeps_rfl : Keeps m m := ⟨List.suffix_rfl, fun _ el hel => ⟨el, hel, id, id⟩⟩

lemma FlagOp.assign_evict (op : FlagOp) {fl : ElFlags} (h : fl.evict = true) :
    (op.assign fl).evict = true := by
  cases op <;> simp [FlagOp.assign, h]

/-- The assignments that there are. -/
inductive Assigned (p : ℕ) (fl : ElFlags) : Frame → ElFlags → Prop
  | nothing (f : Frame) : Assigned p fl f fl
  | flagOp (op : FlagOp) : Assigned p fl (.flagOp op p .assign) (op.assign fl)
  | clearClean (op : FlagOp) : Assigned p fl (.flagOp op p .clearClean) { fl with clean := false }
  | clearDirty (i : ℕ) (ev : Bool) :
    Assigned p fl (.work i p ev .clearDirty) { fl with dirty := false }
  | setClean (i : ℕ) (ev : Bool) : Assigned p fl (.work i p ev .setClean) { fl with clean := true }
  | zeroFlags (i : ℕ) (ev : Bool) : Assigned p fl (.work i p ev .zeroFlags) .zero

lemma assigned (f : Frame) (p : ℕ) (fl : ElFlags) : Assigned p fl f (f.assigns p fl) := by
  have helse : ∀ {f : Frame} {q : ℕ} {fl' : ElFlags}, (p = q → Assigned p fl f fl') →
      Assigned p fl f (if p = q then fl' else fl) := by
    intro f q fl' h
    split_ifs with hpq
    · exact h hpq
    · exact .nothing f
  cases f with
  | flagOp op q pc =>
    cases pc with
    | assign => exact helse fun hpq => hpq ▸ .flagOp op
    | clearClean => exact helse fun hpq => hpq ▸ .clearClean op
    | _ => exact .nothing _
  | work i q ev st =>
    cases st with
    | clearDirty => exact helse fun hpq => hpq ▸ .clearDirty i ev
    | setClean => exact helse fun hpq => hpq ▸ .setClean i ev
    | zeroFlags => exact helse fun hpq => hpq ▸ .zeroFlags i ev
    | _ => exact .nothing _
  | _ => exact .nothing _

/-- The flags that the thread looks at are set and not cleared. -/
lemma assigns_keeps (hf : f.clears = false) (q : ℕ) (fl : ElFlags) :
    (fl.dirty = true → (f.assigns q fl).dirty = true) ∧
      (fl.evict = true → (f.assigns q fl).evict = true) := by
  have hassigned := assigned f q fl
  generalize f.assigns q fl = fl' at hassigned
  cases hassigned with
  | flagOp op => exact ⟨op.assign_dirty, op.assign_evict⟩
  | clearDirty i ev => simp [Frame.clears] at hf
  | zeroFlags i ev => simp [Frame.clears] at hf
  | _ => exact ⟨id, id⟩

/-- The flags of an element after a statement. -/
lemma flags_exec {inp : Input} (h : exec m t f inp = some (m', fs)) (hel : m'.heap p = .live el') :
    el'.ce_flags = .mapped ∨
      ∃ el, m.heap p = .live el ∧ el'.ce_flags = f.assigns p el.ce_flags := by
  have hcell := (effect_exec h).cells p
  rw [hel] at hcell
  generalize m.heap p = c at hcell
  cases hcell with
  | mapped hfl => exact .inl hfl
  | assigned hfl => exact .inr ⟨_, rfl, hfl⟩

/-- What most statements keep. -/
theorem keeps_exec {inp : Input} (h : exec m t f inp = some (m', fs))
    (hf : f.clears = false) : Keeps m m' where
  log := (effect_exec h).log
  live p el hel := by
    have hcell := (effect_exec h).cells p
    rw [hel] at hcell
    generalize hc : m'.heap p = c' at hcell
    cases hcell with
    | @assigned _ el' hfl =>
      rcases assigns_keeps hf p el.ce_flags with ⟨hdirty, hevict⟩
      rw [← hfl] at hdirty hevict
      exact ⟨el', rfl, hdirty, hevict⟩
    | removed hfree =>
      cases f with
      | work i q evict st => cases st <;> simp [Frame.frees, Frame.clears] at hfree hf
      | _ => exact hfree.elim

end Effect

end KanekFs.Cache.Machine
