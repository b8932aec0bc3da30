import KanekFs.Cache.Effect

/-!
# From the choice of an element to its removal

`cache_sync` and the search for the least recently used element test `CACHE_EL_PIN` when they
choose an element; it is removed later, by another thread or after another lock. `Frame.chose` says
that a call has chosen an element, `Frame.mayChoose` that it may yet do so, and `choice_exec` where
a choice comes from: no statement passes one on that it does not have, except the statement that
makes it, and the thread when it reads `CACHE_EL_EVICT`.
-/

namespace KanekFs.Cache.Machine

open Threads Run

/-- The element at `p` is in the table, in slot `i` or behind it. -/
def Memory.ahead (m : Memory) (i p : ℕ) : Bool := (m.ca_elements_ptr.drop i).contains (some p)

/-- The call has chosen the element at `p`. -/
def Frame.chose (m : Memory) (p : ℕ) : Frame → Bool
  | .flagOp .markEviction q pc => q = p && pc.toAssign
  | .evictByIdx _ q _ => q = p
  | .work _ q evicts _ => q = p && evicts
  | .map (.lru _ l) => l.sub.any fun sub => m.slot sub = some p
  | .thread (.tryLock _ q flags) => q = p && flags.evict
  | _ => false

/-- The call looks for elements to evict, and can still come to the one at `p`. -/
def Frame.mayChoose (m : Memory) (p : ℕ) : Frame → Bool
  | .sync .test | .sync .lock | .disable .lock | .evict _ .lock => true
  | .sync (.scan i) | .disable (.scan i) | .evict _ (.scan i) | .map (.lru i _) => m.ahead i p
  | _ => false

section Choice

variable {m m' : Memory} {t : Tid} {p q i : ℕ} {el el' : Elem} {f g : Frame} {fs k : List Frame}
  {inp : Input}

lemma ahead_iff : m.ahead i p = true ↔ ∃ j, i ≤ j ∧ m.slot j = some p := by
  rw [Memory.ahead, List.contains_iff_mem, List.mem_iff_getElem?]
  constructor
  · rintro ⟨n, hn⟩
    rw [List.getElem?_drop] at hn
    exact ⟨i + n, by omega, Memory.slot_eq_some.mpr hn⟩
  · rintro ⟨j, hij, hj⟩
    refine ⟨j - i, ?_⟩
    rw [List.getElem?_drop, Nat.add_sub_cancel' hij]
    exact Memory.slot_eq_some.mp hj

lemma ahead_of_slot (h : m.slot i = some p) : m.ahead i p = true := ahead_iff.mpr ⟨i, le_rfl, h⟩

lemma ahead_of_succ (h : m.ahead (i + 1) p = true) : m.ahead i p = true := by
  rcases ahead_iff.mp h with ⟨j, hij, hj⟩
  exact ahead_iff.mpr ⟨j, by omega, hj⟩

/-! ## Where a choice comes from -/

/-- How the statement `f` comes to choose `p`: it did before, or it looks for elements and finds
this one (an unpinned one, unless it is to evict a certain element or all), or it is the thread
and finds `CACHE_EL_EVICT`. -/
inductive Chosen (m : Memory) (p : ℕ) (f : Frame) : Prop
  | already (h : f.chose m p = true)
  | unpinned (h : f.mayChoose m p = true) {el : Elem} (hel : m.heap p = .live el)
    (hpin : el.ce_flags.pin = false)
  | any (h : f.mayChoose m p = true) (hf : (∃ key pc, f = .evict key pc) ∨ ∃ pc, f = .disable pc)
  | marked {i : ℕ} (h : f = .thread (.read i p)) {el : Elem} (hel : m.heap p = .live el)
    (hevict : el.ce_flags.evict = true)

/-- How the statement `f` comes to look for elements: it did before, or it is the search of
`cache_element_map` that finds no empty slot. -/
def MayChoose (m : Memory) (p : ℕ) (f : Frame) : Prop :=
  f.mayChoose m p = true ∨
    f = .map .find ∧ m.ca_elements_ptr.findIdx? Option.isNone = none

/-- What the frames in the place of `f` have chosen or may choose comes from `f`. -/
def Origin (m : Memory) (f : Frame) (r : Result) : Prop :=
  ∀ m' fs, r = some (m', fs) → ∀ g ∈ fs, ∀ p, (g.chose m' p = true → Chosen m p f) ∧
    (g.mayChoose m' p = true → MayChoose m p f)

lemma origin_none : Origin m f none := fun _ _ h => by simp at h

lemma origin_nil : Origin m f (some (m', [])) := by
  rintro _ _ ⟨⟩
  simp

lemma origin_one (hchose : ∀ p, g.chose m' p = true → Chosen m p f)
    (hmay : ∀ p, g.mayChoose m' p = true → MayChoose m p f) : Origin m f (some (m', [g])) := by
  rintro _ _ ⟨⟩ g' hg' p
  obtain rfl : g' = g := by simpa using hg'
  exact ⟨hchose p, hmay p⟩

/-- A frame that neither has chosen an element nor looks for one. -/
lemma origin_idle (hg : ∀ p, g.chose m' p = false ∧ g.mayChoose m' p = false) :
    Origin m f (some (m', [g])) :=
  origin_one (fun p h => by simp [(hg p).1] at h) fun p h => by simp [(hg p).2] at h

lemma origin_cons (hchose : ∀ p, g.chose m' p = true → Chosen m p f)
    (hmay : ∀ p, g.mayChoose m' p = true → MayChoose m p f) (hfs : Origin m f (some (m', fs))) :
    Origin m f (some (m', g :: fs)) := by
  rintro _ _ ⟨⟩ g' hg' p
  rcases List.mem_cons.mp hg' with rfl | hg'
  · exact ⟨hchose p, hmay p⟩
  · exact hfs m' fs rfl g' hg' p

lemma origin_map {o : Option Memory} (h : ∀ m', o = some m' → Origin m f (some (m', fs))) :
    Origin m f (o.map fun m => (m, fs)) := by
  intro m' fs' hr
  rcases frames_of_map hr with ⟨ho, rfl⟩
  exact h m' ho m' _ rfl

lemma origin_el? {e : Elem → Memory × List Frame}
    (h : ∀ el, m.heap q = .live el → Origin m f (some (e el))) :
    Origin m f ((m.el? q).map e) := by
  intro m' fs' hr
  rcases Option.map_eq_some_iff.mp hr with ⟨el, hel, heq⟩
  exact h el (Memory.el?_eq_some.mp hel) m' fs' (by rw [heq])

/-! ### The statements -/

lemma origin_flagOp {op : FlagOp} {pc : FlagPc} :
    Origin m (.flagOp op q pc) (execFlagOp m t op q pc) := by
  -- the mark is still to come as long as it was before
  have hnext : ∀ {m' : Memory} {pc'}, (pc'.toAssign = true → pc.toAssign = true) →
      Origin m (.flagOp op q pc) (some (m', [.flagOp op q pc'])) := by
    intro m' pc' hpc
    refine origin_one (fun p h => .already ?_) fun p h => by simp [Frame.mayChoose] at h
    cases op <;> simp [Frame.chose] at h ⊢
    exact ⟨h.1, hpc h.2⟩
  cases pc with
  | test =>
    refine origin_el? ?_
    intro el _
    split_ifs
    · exact hnext fun _ => rfl
    · exact origin_nil
  | lock => exact origin_map fun _ _ => hnext fun _ => rfl
  | assign => exact origin_map fun _ _ => hnext fun _ => rfl
  | clearClean => exact origin_map fun _ _ => hnext fun h => by simp [FlagPc.toAssign] at h
  | unlock =>
    intro m' fs h g hg
    rcases Option.map_eq_some_iff.mp h with ⟨m₁, -, heq⟩
    rcases Prod.mk.inj heq with ⟨-, rfl⟩
    simp at hg

lemma origin_work {evict : Bool} {st : Stage} :
    Origin m (.work i q evict st) (execWork m t i q evict st) := by
  have hnext : ∀ {m' : Memory} {st'},
      Origin m (.work i q evict st) (some (m', [.work i q evict st'])) := by
    intro m' st'
    exact origin_one (fun p h => .already h) fun p h => by simp [Frame.mayChoose] at h
  cases st with
  | flush => exact hnext
  | onEvict => exact hnext
  | decInUse => exact hnext
  | destroy => exact origin_el? fun _ _ => hnext
  | clearSlot => exact origin_nil
  | release => exact origin_map fun _ _ => origin_nil
  | _ => exact origin_map fun _ _ => hnext

lemma origin_evictByIdx {locked : Bool} :
    Origin m (.evictByIdx i q locked) (execEvictByIdx m t i q locked) := by
  cases locked with
  | false =>
    exact origin_map fun _ _ => origin_one (fun p h => .already h)
      fun p h => by simp [Frame.mayChoose] at h
  | true =>
    refine origin_el? fun _ _ => origin_one (fun p h => .already ?_)
      fun p h => by simp [Frame.mayChoose] at h
    simpa [Frame.chose] using h

lemma origin_evict {key : ℕ} {pc : ScanPc} : Origin m (.evict key pc) (execEvict m t key pc) := by
  cases pc with
  | lock =>
    exact origin_map fun _ _ => origin_one (fun p h => by simp [Frame.chose] at h)
      fun p _ => .inl rfl
  | scan i =>
    have hnext : Origin m (.evict key (.scan i)) (some (m, [.evict key (.scan (i + 1))])) :=
      origin_one (fun p h => by simp [Frame.chose] at h) fun p h => .inl (ahead_of_succ h)
    have hdone : Origin m (.evict key (.scan i)) (some (m, [.unlockCa none])) :=
      origin_idle fun _ => ⟨rfl, rfl⟩
    rw [execEvict]
    split_ifs
    · cases hslot : m.slot i with
      | none => exact hnext
      | some q =>
        refine origin_el? ?_
        intro el _
        split_ifs
        · refine origin_cons ?_ (fun p h => by simp [Frame.mayChoose] at h) hdone
          intro p h
          obtain rfl : q = p := by simpa [Frame.chose] using h
          exact .any (ahead_of_slot hslot) (.inl ⟨key, _, rfl⟩)
        · exact hnext
    · exact hdone

lemma origin_lookup {key : ℕ} {pc : ScanPc} :
    Origin m (.lookup key pc) (execLookup m t key pc) := by
  cases pc with
  | lock => exact origin_map fun _ _ => origin_idle fun _ => ⟨rfl, rfl⟩
  | scan i =>
    rw [execLookup]
    split_ifs
    · split
      · exact origin_idle fun _ => ⟨rfl, rfl⟩
      · refine origin_el? ?_
        intro el _
        split_ifs
        · exact origin_idle fun _ => ⟨rfl, rfl⟩
        · exact origin_idle fun _ => ⟨rfl, rfl⟩
    · exact origin_idle fun _ => ⟨rfl, rfl⟩

lemma chose_lru {l : Lru} : Frame.chose m p (.map (.lru i l)) = true ↔
    ∃ sub, l.sub = some sub ∧ m.slot sub = some p := by
  simp only [Frame.chose]
  cases l.sub <;> simp

/-- The search moves the choice only to an unpinned element. -/
lemma lru_step_sub {l : Lru} {fl : ElFlags} {n sub : ℕ} (h : (l.step i fl n).sub = some sub) :
    l.sub = some sub ∨ sub = i ∧ fl.pin = false := by
  unfold Lru.step at h
  split_ifs at h with hcond
  · exact .inr ⟨(Option.some.inj h).symm, hcond.1⟩
  · exact .inl h

lemma origin_map_call {pc : MapPc} : Origin m (.map pc) (execMap m t pc inp) := by
  have hdone : ∀ {m' : Memory} {ret}, Origin m (.map pc) (some (m', [.unlockCa ret])) :=
    origin_idle fun _ => ⟨rfl, rfl⟩
  cases pc with
  | lock => exact origin_map fun _ _ => origin_idle fun _ => ⟨rfl, rfl⟩
  | find =>
    rw [execMap]
    split
    · exact origin_idle fun _ => ⟨rfl, rfl⟩
    · rename_i hfull
      exact origin_one (fun p h => by simp [Frame.chose, Lru.start] at h)
        fun p _ => .inr ⟨rfl, hfull⟩
  | lru i l =>
    rw [execMap]
    split_ifs
    · cases hslot : m.slot i with
      | none => exact hdone
      | some q =>
        refine origin_el? ?_
        intro el hel
        refine origin_one ?_ fun p h => .inl (ahead_of_succ h)
        intro p h
        rcases chose_lru.mp h with ⟨sub, hsub, hp⟩
        rcases lru_step_sub hsub with hold | ⟨rfl, hpin⟩
        · exact .already (chose_lru.mpr ⟨sub, hold, hp⟩)
        · obtain rfl : q = p := Option.some.inj (hslot.symm.trans hp)
          exact .unpinned (ahead_of_slot hslot) hel hpin
    · cases hsub : l.sub with
      | none => exact hdone
      | some sub =>
        intro m' fs h
        rcases Option.map_eq_some_iff.mp h with ⟨q, hslot, heq⟩
        rcases Prod.mk.inj heq with ⟨rfl, rfl⟩
        have horigin : Origin m (.map (.lru i l))
            (some (m, [.evictByIdx sub q false, .map (.malloc sub)])) := by
          refine origin_cons ?_ (fun p h => by simp [Frame.mayChoose] at h)
            (origin_idle fun _ => ⟨rfl, rfl⟩)
          intro p hp
          obtain rfl : q = p := by simpa [Frame.chose] using hp
          exact .already (chose_lru.mpr ⟨sub, hsub, hslot⟩)
        exact horigin m _ rfl
  | malloc sub =>
    cases inp with
    | alloc p id =>
      rw [execMap]
      split
      · exact origin_idle fun _ => ⟨rfl, rfl⟩
      · exact origin_none
    | allocFails => exact hdone
    | _ => exact origin_none
  | publish sub p => exact hdone

lemma origin_sync {pc : SyncPc} : Origin m (.sync pc) (execSync m t pc inp) := by
  cases pc with
  | test =>
    rw [execSync]
    split_ifs
    · exact origin_one (fun p h => by simp [Frame.chose] at h) fun p _ => .inl rfl
    · exact origin_nil
  | lock =>
    exact origin_map fun _ _ => origin_one (fun p h => by simp [Frame.chose] at h)
      fun p _ => .inl rfl
  | scan i =>
    have hnext : Origin m (.sync (.scan i)) (some (m, [.sync (.scan (i + 1))])) :=
      origin_one (fun p h => by simp [Frame.chose] at h) fun p h => .inl (ahead_of_succ h)
    rw [execSync]
    split_ifs
    · cases hslot : m.slot i with
      | none => exact hnext
      | some q =>
        refine origin_el? ?_
        intro el hel
        split_ifs with hpin
        · exact hnext
        · refine origin_cons ?_ (fun p h => by simp [Frame.mayChoose] at h) hnext
          intro p h
          obtain rfl : q = p := by simpa [Frame.chose, FlagPc.toAssign] using h
          exact .unpinned (ahead_of_slot hslot) hel (by simpa using hpin)
    · exact origin_idle fun _ => ⟨rfl, rfl⟩
  | setLoop =>
    exact origin_cons (fun p h => by simp [Frame.chose] at h)
      (fun p h => by simp [Frame.mayChoose] at h) (origin_idle fun _ => ⟨rfl, rfl⟩)
  | wait =>
    intro m' fs hexec
    rcases sync_wait_cases hexec with ⟨rfl, rfl | ⟨rfl, -⟩⟩
    · exact origin_idle (fun _ => ⟨rfl, rfl⟩) _ _ rfl
    · exact origin_idle (fun _ => ⟨rfl, rfl⟩) _ _ rfl
  | clearLock rc => exact origin_map fun _ _ => origin_idle fun _ => ⟨rfl, rfl⟩
  | clear rc =>
    exact origin_cons (fun p h => by simp [Frame.chose] at h)
      (fun p h => by simp [Frame.mayChoose] at h) (origin_idle fun _ => ⟨rfl, rfl⟩)
  | ret rc => exact origin_nil

lemma origin_disable {pc : DisablePc} : Origin m (.disable pc) (execDisable m t pc inp) := by
  cases pc with
  | lock =>
    exact origin_map fun _ _ => origin_one (fun p h => by simp [Frame.chose] at h)
      fun p _ => .inl rfl
  | scan i =>
    have hnext : Origin m (.disable (.scan i)) (some (m, [.disable (.scan (i + 1))])) :=
      origin_one (fun p h => by simp [Frame.chose] at h) fun p h => .inl (ahead_of_succ h)
    rw [execDisable]
    split_ifs
    · cases hslot : m.slot i with
      | none => exact hnext
      | some q =>
        refine origin_cons ?_ (fun p h => by simp [Frame.mayChoose] at h) hnext
        intro p h
        obtain rfl : q = p := by simpa [Frame.chose, FlagPc.toAssign] using h
        exact .any (ahead_of_slot hslot) (.inr ⟨_, rfl⟩)
    · exact origin_idle fun _ => ⟨rfl, rfl⟩
  | setExit =>
    exact origin_cons (fun p h => by simp [Frame.chose] at h)
      (fun p h => by simp [Frame.mayChoose] at h) (origin_idle fun _ => ⟨rfl, rfl⟩)
  | wait =>
    intro m' fs hexec
    rcases disable_wait_cases hexec with ⟨rfl, rfl⟩
    exact origin_idle (fun _ => ⟨rfl, rfl⟩) _ _ rfl
  | join =>
    rw [execDisable]
    split_ifs
    · exact origin_idle fun _ => ⟨rfl, rfl⟩
    · exact origin_none
    · exact origin_idle fun _ => ⟨rfl, rfl⟩
  | destroyMutex => exact origin_idle fun _ => ⟨rfl, rfl⟩
  | freeTable => exact origin_idle fun _ => ⟨rfl, rfl⟩
  | ret => exact origin_nil

lemma origin_pgMap {addr : ℕ} {pc : PgMapPc} :
    Origin m (.pgMap addr pc) (execPgMap m t addr pc inp) := by
  have hnext : ∀ {m' : Memory} {pc'}, Origin m (.pgMap addr pc) (some (m', [.pgMap addr pc'])) :=
    origin_idle fun _ => ⟨rfl, rfl⟩
  cases pc with
  | scan i =>
    rw [execPgMap]
    split_ifs
    · split <;> exact hnext
    · exact origin_nil
  | read i p => exact origin_el? fun _ _ => hnext
  | addCount p => exact origin_map fun _ _ => hnext
  | size p => cases inp <;> exact hnext
  | growLock p => exact origin_map fun _ _ => hnext
  | growRead p =>
    cases inp with
    | allocFails => exact hnext
    | _ => exact origin_el? fun _ _ => hnext
  | growUnlock p => exact origin_map fun _ _ => hnext
  | ret p => exact origin_nil

lemma origin_caFlagOp {op : CaFlagOp} {locked : Bool} :
    Origin m (.caFlagOp op locked) (execCaFlagOp m t op locked) := by
  cases locked with
  | false =>
    rw [execCaFlagOp]
    split_ifs
    · exact origin_map fun _ _ => origin_idle fun _ => ⟨rfl, rfl⟩
    · exact origin_nil
  | true => exact origin_idle fun _ => ⟨rfl, rfl⟩

lemma origin_thread {pc : ThreadPc} : Origin m (.thread pc) (execThread m t pc) := by
  -- outside of a visit nothing is chosen
  have hnext : ∀ {m' : Memory} {pc'}, (∀ i q fl, pc' ≠ .tryLock i q fl) →
      Origin m (.thread pc) (some (m', [.thread pc'])) := by
    intro m' pc' hpc
    refine origin_idle fun p => ⟨?_, rfl⟩
    cases pc' with
    | tryLock i q fl => exact absurd rfl (hpc i q fl)
    | _ => rfl
  cases pc with
  | start => exact hnext (by simp)
  | top =>
    rw [execThread]
    split_ifs <;> exact hnext (by simp)
  | lock => exact origin_map fun _ _ => hnext (by simp)
  | enter =>
    rw [execThread]
    split_ifs <;> exact hnext (by simp)
  | elem i =>
    rw [execThread]
    split_ifs
    · split <;> exact hnext (by simp)
    · exact hnext (by simp)
  | read i q =>
    refine origin_el? ?_
    intro el hel
    split_ifs
    · refine origin_one ?_ fun p h => by simp [Frame.mayChoose] at h
      intro p h
      simp only [Frame.chose, Bool.and_eq_true, decide_eq_true_eq] at h
      rcases h with ⟨rfl, hevict⟩
      exact .marked rfl hel hevict
    · exact hnext (by simp)
  | tryLock i q flags =>
    refine origin_el? ?_
    intro el hel
    split_ifs
    · refine origin_cons ?_ ?_ (hnext (by simp))
      · intro p h
        refine .already ?_
        unfold afterTryLock at h
        split_ifs at h with hdirty hevict
        · exact h
        · simp only [Frame.chose, Bool.and_true, decide_eq_true_eq] at h
          simp [Frame.chose, h, hevict]
        · simp [Frame.chose] at h
      · intro p h
        unfold afterTryLock at h
        split_ifs at h <;> simp [Frame.mayChoose] at h
    · exact hnext (by simp)
  | leave =>
    exact origin_cons (fun p h => by simp [Frame.chose] at h)
      (fun p h => by simp [Frame.mayChoose] at h) (hnext (by simp))
  | loop =>
    rw [execThread]
    split_ifs <;> exact hnext (by simp)
  | finish => exact origin_nil

theorem choice_exec : Origin m f (exec m t f inp) := by
  unfold exec
  split_ifs
  · exact origin_none
  · cases f with
    | flagOp op p pc => exact origin_flagOp
    | evictByIdx i p locked => exact origin_evictByIdx
    | work i p evict st => exact origin_work
    | evict key pc => exact origin_evict
    | lookup key pc => exact origin_lookup
    | map pc => exact origin_map_call
    | sync pc => exact origin_sync
    | disable pc => exact origin_disable
    | pgMap addr pc => exact origin_pgMap
    | caFlagOp op locked => exact origin_caFlagOp
    | setId p key => exact origin_el? fun _ _ => origin_nil
    | thread pc => exact origin_thread
    | unlockCa ret => exact origin_map fun _ _ => origin_nil

end Choice

end KanekFs.Cache.Machine
