import KanekFs.Cache.Choice
import KanekFs.Lib.Waits

/-!
# Who holds the mutex of an element

The mutex of an element is held by the call on top of a stack: `Frame.holdsEl` says of which
element. The one call that leaves with the mutex locked is `pgcache_element_map` when an element
cannot grow; `Grown` excludes it.

* `LockStep` says once what a statement does to the mutexes of the elements, for whoever holds
  them.
* `Orderly` is what the order of the locks rests on: a mutex that is held is held by a call that
  can go on, and the calls under `ca_mutex` work on elements of the table.
-/

namespace KanekFs.Cache.Machine

open Threads Run

/-- The thread that holds the mutex of `p`. -/
def Memory.mutexOf (m : Memory) (p : ℕ) : Option Tid := (m.el? p).bind Elem.ce_mutex

/-- The element whose mutex the call holds. -/
def Frame.holdsEl : Frame → Option ℕ
  | .flagOp _ p .assign | .flagOp _ p .clearClean | .flagOp _ p .unlock => some p
  | .evictByIdx _ p true => some p
  | .work _ _ _ .destroy | .work _ _ _ .free | .work _ _ _ .clearSlot => none
  | .work _ p _ _ => some p
  | .pgMap _ (.growRead p) | .pgMap _ (.growUnlock p) => some p
  | _ => none

/-- An element that `pgcache_element_map` found too small has grown. -/
def Grown (_ : Memory) (_ : Tid) (f : Frame) (inp : Input) : Prop :=
  ∀ addr p, f = .pgMap addr (.growRead p) → inp ≠ .allocFails

/-- The call on top of the stack holds the mutex of `p`. -/
def TopHolds (k : List Frame) (p : ℕ) : Prop := ∃ g ∈ k.head?, g.holdsEl = some p

/-- What the statement `f` of `t` does to the mutexes of the elements: one that is held afterwards
was held before, or is now held by the call on top; and `f` hands on the one it holds. -/
def LockStep (t : Tid) (f : Frame) (m m' : Memory) (fs : List Frame) : Prop :=
  ∀ q t', m'.mutexOf q = some t' →
    t' = t ∧ TopHolds fs q ∨ m.mutexOf q = some t' ∧ (t' = t → f.holdsEl ≠ some q)

section LockStep

variable {m m' : Memory} {t t' : Tid} {p q : ℕ} {el el' : Elem} {f g : Frame}
  {fs k : List Frame} {inp : Input}

lemma mutexOf_eq_some :
    m.mutexOf p = some t ↔ ∃ el, m.heap p = .live el ∧ el.ce_mutex = some t := by
  simp [Memory.mutexOf, Option.bind_eq_some_iff, Memory.el?_eq_some]

lemma mutexOf_congr (h : m'.heap = m.heap) : m'.mutexOf q = m.mutexOf q := by
  rw [Memory.mutexOf, Memory.mutexOf, Memory.el?, Memory.el?, h]

lemma mutexOf_setEl_self : (m.setEl p el).mutexOf p = el.ce_mutex := by
  simp [Memory.mutexOf, Memory.el?, Memory.setEl]

lemma mutexOf_setEl_ne (hqp : q ≠ p) : (m.setEl p el).mutexOf q = m.mutexOf q := by
  simp [Memory.mutexOf, Memory.el?, Memory.setEl, Function.update_of_ne hqp]

lemma mutexOf_live (hel : m.heap p = .live el) : m.mutexOf p = el.ce_mutex := by
  simp [Memory.mutexOf, Memory.el?, hel]

/-- An element changes, but not its mutex. -/
lemma mutexOf_setEl_same (hel : m.heap p = .live el) (hmutex : el'.ce_mutex = el.ce_mutex) :
    (m.setEl p el').mutexOf q = m.mutexOf q := by
  by_cases hqp : q = p
  · subst hqp
    rw [mutexOf_setEl_self, hmutex, mutexOf_live hel]
  · exact mutexOf_setEl_ne hqp

lemma mutexOf_setFlags {c : ElFlags → ElFlags} (h : m.setFlags p c = some m') :
    m'.mutexOf q = m.mutexOf q := by
  rcases Memory.setFlags_eq_some h with ⟨el, hel, rfl⟩
  exact mutexOf_setEl_same hel rfl

lemma mutexOf_addCountEl (h : m.addCountEl p = some m') : m'.mutexOf q = m.mutexOf q := by
  rcases Memory.addCountEl_eq_some h with ⟨el, hel, rfl⟩
  exact mutexOf_setEl_same hel rfl

lemma mutexOf_lockCa (h : m.lockCa t = some m') : m'.mutexOf q = m.mutexOf q := by
  rcases Memory.lockCa_eq_some h with ⟨-, rfl⟩
  exact mutexOf_congr rfl

lemma mutexOf_unlockCa (h : m.unlockCa t = some m') : m'.mutexOf q = m.mutexOf q := by
  rcases Memory.unlockCa_eq_some h with ⟨-, rfl⟩
  exact mutexOf_congr rfl

/-! ### Kinds of statements -/

/-- No mutex changes hands, and the call goes on with the one it holds. -/
lemma lockStep_keep (hm : ∀ q, m'.mutexOf q = m.mutexOf q)
    (hf : ∀ p, f.holdsEl = some p → TopHolds fs p) : LockStep t f m m' fs := by
  intro q t' hq
  rw [hm q] at hq
  by_cases hheld : f.holdsEl = some q ∧ t' = t
  · exact .inl ⟨hheld.2, hf q hheld.1⟩
  · exact .inr ⟨hq, fun ht hq => hheld ⟨hq, ht⟩⟩

/-- The call takes the mutex of `p`. -/
lemma lockStep_lock (h : m.lockEl t p = some m') (hf : f.holdsEl = none) (hfs : TopHolds fs p) :
    LockStep t f m m' fs := by
  rcases Memory.lockEl_eq_some h with ⟨el, hel, hfree, rfl⟩
  intro q t' hq
  by_cases hqp : q = p
  · subst hqp
    rw [mutexOf_setEl_self] at hq
    exact .inl ⟨(Option.some.inj hq).symm, hfs⟩
  · rw [mutexOf_setEl_ne hqp] at hq
    exact .inr ⟨hq, fun _ => by simp [hf]⟩

/-- The call gives the mutex of `p` back. -/
lemma lockStep_unlock (h : m.unlockEl t p = some m') (hf : f.holdsEl = some p) :
    LockStep t f m m' fs := by
  rcases Memory.unlockEl_eq_some h with ⟨el, hel, hheld, rfl⟩
  intro q t' hq
  by_cases hqp : q = p
  · subst hqp
    rw [mutexOf_setEl_self] at hq
    simp at hq
  · rw [mutexOf_setEl_ne hqp] at hq
    exact .inr ⟨hq, fun _ => by simp [hf, Ne.symm hqp]⟩

lemma lockStep_free (h : m.freeEl p = some m') (hf : f.holdsEl = none) :
    LockStep t f m m' fs := by
  rcases Memory.freeEl_eq_some h with ⟨el, hel, rfl⟩
  intro q t' hq
  have hqp : q ≠ p := by
    rintro rfl
    simp [Memory.mutexOf, Memory.el?, Memory.emit] at hq
  refine .inr ⟨?_, fun _ => by simp [hf]⟩
  simpa [Memory.mutexOf, Memory.el?, Memory.emit, Function.update_of_ne hqp] using hq

/-- A new element is not locked. -/
lemma lockStep_malloc {id : ℕ} (hf : f.holdsEl = none) :
    LockStep t f m (m.setEl p (newElem id)) fs := by
  intro q t' hq
  have hqp : q ≠ p := by
    rintro rfl
    simp [mutexOf_setEl_self, newElem] at hq
  rw [mutexOf_setEl_ne hqp] at hq
  exact .inr ⟨hq, fun _ => by simp [hf]⟩

/-- What the result of the statement `f` does to the mutexes. -/
def LockOutcome (m : Memory) (t : Tid) (f : Frame) (r : Result) : Prop :=
  ∀ m' fs, r = some (m', fs) → LockStep t f m m' fs

lemma lockOutcome_none : LockOutcome m t f none := fun _ _ h => by simp at h

lemma lockOutcome_some (hm : ∀ q, m'.mutexOf q = m.mutexOf q)
    (hf : ∀ p, f.holdsEl = some p → TopHolds fs p) : LockOutcome m t f (some (m', fs)) := by
  rintro _ _ ⟨⟩
  exact lockStep_keep hm hf

/-- A call that holds no mutex of an element, and leaves them alone. -/
lemma lockOutcome_idle (hf : f.holdsEl = none) (hm : ∀ q, m'.mutexOf q = m.mutexOf q) :
    LockOutcome m t f (some (m', fs)) := lockOutcome_some hm (by simp [hf])

lemma lockOutcome_map {o : Option Memory} (h : ∀ m', o = some m' → LockStep t f m m' fs) :
    LockOutcome m t f (o.map fun m => (m, fs)) := by
  intro m' fs' hr
  rcases frames_of_map hr with ⟨ho, rfl⟩
  exact h m' ho

lemma lockOutcome_el? {e : Elem → Memory × List Frame}
    (h : ∀ el, m.heap p = .live el → LockOutcome m t f (some (e el))) :
    LockOutcome m t f ((m.el? p).map e) := by
  intro m' fs' hr
  rcases Option.map_eq_some_iff.mp hr with ⟨el, hel, heq⟩
  exact h el (Memory.el?_eq_some.mp hel) m' fs' (by rw [heq])

/-! ### The statements -/

lemma topHolds_head (hg : g.holdsEl = some p) : TopHolds (g :: fs) p := ⟨g, rfl, hg⟩

lemma lockStep_setFlags {c : ElFlags → ElFlags} (h : m.setFlags p c = some m')
    (hf : ∀ q, f.holdsEl = some q → TopHolds fs q) : LockStep t f m m' fs :=
  lockStep_keep (fun _ => mutexOf_setFlags h) hf

lemma lockStep_lockCa (h : m.lockCa t = some m') (hf : f.holdsEl = none) :
    LockStep t f m m' fs :=
  lockStep_keep (fun _ => mutexOf_lockCa h) (by simp [hf])

lemma locks_flagOp {op : FlagOp} {pc : FlagPc} :
    LockOutcome m t (.flagOp op p pc) (execFlagOp m t op p pc) := by
  cases pc with
  | test => exact lockOutcome_el? fun _ _ => lockOutcome_idle rfl fun _ => rfl
  | lock => exact lockOutcome_map fun _ h => lockStep_lock h rfl (topHolds_head rfl)
  | assign =>
    refine lockOutcome_map fun _ h => lockStep_setFlags h ?_
    rintro q ⟨⟩
    split_ifs
    · exact topHolds_head rfl
    · exact topHolds_head rfl
  | clearClean =>
    refine lockOutcome_map fun _ h => lockStep_setFlags h ?_
    rintro q ⟨⟩
    exact topHolds_head rfl
  | unlock =>
    intro m' fs h
    rcases Option.map_eq_some_iff.mp h with ⟨m₁, hunlock, heq⟩
    rcases Prod.mk.inj heq with ⟨rfl, rfl⟩
    have hstep : LockStep t (.flagOp op p .unlock) m m₁ [] := lockStep_unlock hunlock rfl
    split_ifs
    · exact hstep
    · exact hstep

lemma locks_work {i : ℕ} {evict : Bool} {st : Stage} :
    LockOutcome m t (.work i p evict st) (execWork m t i p evict st) := by
  cases st with
  | addCount =>
    refine lockOutcome_map fun _ h => lockStep_keep (fun _ => mutexOf_addCountEl h) ?_
    rintro q ⟨⟩
    exact topHolds_head rfl
  | flush =>
    refine lockOutcome_some (fun q => ?_) ?_
    · split_ifs <;> rfl
    · rintro q ⟨⟩
      exact topHolds_head rfl
  | clearDirty =>
    refine lockOutcome_map fun _ h => lockStep_setFlags h ?_
    rintro q ⟨⟩
    exact topHolds_head rfl
  | setClean =>
    refine lockOutcome_map fun _ h => lockStep_setFlags h ?_
    rintro q ⟨⟩
    cases evict
    · exact topHolds_head rfl
    · exact topHolds_head rfl
  | onEvict =>
    refine lockOutcome_some (fun q => ?_) ?_
    · split_ifs <;> rfl
    · rintro q ⟨⟩
      exact topHolds_head rfl
  | decInUse =>
    rw [execWork_decInUse]
    refine lockOutcome_some (fun _ => mutexOf_congr dec_heap) ?_
    rintro q ⟨⟩
    exact topHolds_head rfl
  | zeroFlags =>
    refine lockOutcome_map fun _ h => lockStep_setFlags h ?_
    rintro q ⟨⟩
    exact topHolds_head rfl
  | unlock => exact lockOutcome_map fun _ h => lockStep_unlock h rfl
  | destroy => exact lockOutcome_el? fun _ _ => lockOutcome_idle rfl fun _ => rfl
  | free => exact lockOutcome_map fun _ h => lockStep_free h rfl
  | clearSlot => exact lockOutcome_idle rfl fun _ => rfl
  | release => exact lockOutcome_map fun _ h => lockStep_unlock h rfl

lemma locks_evictByIdx {i : ℕ} {locked : Bool} :
    LockOutcome m t (.evictByIdx i p locked) (execEvictByIdx m t i p locked) := by
  cases locked with
  | false => exact lockOutcome_map fun _ h => lockStep_lock h rfl (topHolds_head rfl)
  | true =>
    refine lockOutcome_el? fun el _ => lockOutcome_some (fun _ => rfl) ?_
    rintro q ⟨⟩
    cases el.ce_flags.dirty
    · exact topHolds_head rfl
    · exact topHolds_head rfl

lemma locks_evict {key : ℕ} {pc : ScanPc} :
    LockOutcome m t (.evict key pc) (execEvict m t key pc) := by
  cases pc with
  | lock => exact lockOutcome_map fun _ h => lockStep_lockCa h rfl
  | scan i =>
    rw [execEvict]
    split_ifs
    · split
      · exact lockOutcome_idle rfl fun _ => rfl
      · exact lockOutcome_el? fun _ _ => lockOutcome_idle rfl fun _ => rfl
    · exact lockOutcome_idle rfl fun _ => rfl

lemma locks_lookup {key : ℕ} {pc : ScanPc} :
    LockOutcome m t (.lookup key pc) (execLookup m t key pc) := by
  cases pc with
  | lock => exact lockOutcome_map fun _ h => lockStep_lockCa h rfl
  | scan i =>
    rw [execLookup]
    split_ifs
    · split
      · exact lockOutcome_idle rfl fun _ => rfl
      · refine lockOutcome_el? fun el hel => ?_
        split_ifs
        · exact lockOutcome_idle rfl fun _ => mutexOf_setEl_same hel rfl
        · exact lockOutcome_idle rfl fun _ => rfl
    · exact lockOutcome_idle rfl fun _ => rfl

/-- The allocations of `cache_element_map`. -/
lemma malloc_cases {sub : ℕ} (h : execMap m t (.malloc sub) inp = some (m', fs)) :
    (∃ p id, inp = .alloc p id ∧ m.heap p = .unused ∧ m' = m.setEl p (newElem id) ∧
      fs = [.map (.publish sub p)]) ∨ inp = .allocFails ∧ m' = m ∧ fs = [.unlockCa none] := by
  cases inp with
  | alloc p id =>
    cases hp : m.heap p <;> simp only [execMap, hp, reduceCtorEq] at h
    rcases Prod.mk.inj (Option.some.inj h) with ⟨rfl, rfl⟩
    exact .inl ⟨p, id, rfl, hp, rfl, rfl⟩
  | allocFails =>
    rcases Prod.mk.inj (Option.some.inj h) with ⟨rfl, rfl⟩
    exact .inr ⟨rfl, rfl, rfl⟩
  | _ => simp [execMap] at h

lemma locks_map {pc : MapPc} : LockOutcome m t (.map pc) (execMap m t pc inp) := by
  cases pc with
  | lock => exact lockOutcome_map fun _ h => lockStep_lockCa h rfl
  | find =>
    rw [execMap]
    split <;> exact lockOutcome_idle rfl fun _ => rfl
  | lru i l =>
    rw [execMap]
    split_ifs
    · split
      · exact lockOutcome_idle rfl fun _ => rfl
      · exact lockOutcome_el? fun _ _ => lockOutcome_idle rfl fun _ => rfl
    · split
      · exact lockOutcome_idle rfl fun _ => rfl
      · intro m' fs h
        rcases Option.map_eq_some_iff.mp h with ⟨p, -, heq⟩
        rcases Prod.mk.inj heq with ⟨rfl, rfl⟩
        exact lockStep_keep (fun _ => rfl) (by simp [Frame.holdsEl])
  | malloc sub =>
    intro m' fs h
    rcases malloc_cases h with ⟨p, id, -, -, rfl, rfl⟩ | ⟨-, rfl, rfl⟩
    · exact lockStep_malloc rfl
    · exact lockOutcome_idle rfl (fun _ => rfl) _ _ rfl
  | publish sub p => exact lockOutcome_idle rfl fun _ => rfl

lemma locks_sync {pc : SyncPc} : LockOutcome m t (.sync pc) (execSync m t pc inp) := by
  cases pc with
  | lock => exact lockOutcome_map fun _ h => lockStep_lockCa h rfl
  | clearLock rc => exact lockOutcome_map fun _ h => lockStep_lockCa h rfl
  | scan i =>
    rw [execSync]
    split_ifs
    · split
      · exact lockOutcome_idle rfl fun _ => rfl
      · exact lockOutcome_el? fun _ _ => lockOutcome_idle rfl fun _ => rfl
    · exact lockOutcome_idle rfl fun _ => rfl
  | wait =>
    intro m' fs hexec
    rcases sync_wait_cases hexec with ⟨rfl, -⟩
    exact lockStep_keep (fun _ => rfl) (by simp [Frame.holdsEl])
  | _ => exact lockOutcome_idle rfl fun _ => rfl

lemma locks_disable {pc : DisablePc} : LockOutcome m t (.disable pc) (execDisable m t pc inp) := by
  cases pc with
  | lock => exact lockOutcome_map fun _ h => lockStep_lockCa h rfl
  | scan i =>
    rw [execDisable]
    split_ifs
    · split <;> exact lockOutcome_idle rfl fun _ => rfl
    · exact lockOutcome_idle rfl fun _ => rfl
  | wait =>
    intro m' fs hexec
    rcases disable_wait_cases hexec with ⟨rfl, -⟩
    exact lockStep_keep (fun _ => rfl) (by simp [Frame.holdsEl])
  | join =>
    rw [execDisable]
    split_ifs
    · exact lockOutcome_idle rfl fun _ => rfl
    · exact lockOutcome_none
    · exact lockOutcome_idle rfl fun _ => rfl
  | _ => exact lockOutcome_idle rfl fun _ => rfl

/-- An element that grows is locked meanwhile, and unlocked when it has grown. -/
lemma locks_pgMap {addr : ℕ} {pc : PgMapPc} (hgrown : Grown m t (.pgMap addr pc) inp) :
    LockOutcome m t (.pgMap addr pc) (execPgMap m t addr pc inp) := by
  cases pc with
  | scan i =>
    rw [execPgMap]
    split_ifs
    · split <;> exact lockOutcome_idle rfl fun _ => rfl
    · exact lockOutcome_idle rfl fun _ => rfl
  | read i p => exact lockOutcome_el? fun _ _ => lockOutcome_idle rfl fun _ => rfl
  | addCount p =>
    exact lockOutcome_map fun _ h =>
      lockStep_keep (fun _ => mutexOf_addCountEl h) (by simp [Frame.holdsEl])
  | size p => cases inp <;> exact lockOutcome_idle rfl fun _ => rfl
  | growLock p => exact lockOutcome_map fun _ h => lockStep_lock h rfl (topHolds_head rfl)
  | growRead p =>
    have hread : LockOutcome m t (.pgMap addr (.growRead p))
        ((m.el? p).map fun _ => (m, [.pgMap addr (.growUnlock p)])) := by
      refine lockOutcome_el? fun _ _ => lockOutcome_some (fun _ => rfl) ?_
      rintro q ⟨⟩
      exact topHolds_head rfl
    cases inp with
    | allocFails => exact absurd rfl (hgrown addr p rfl)
    | _ => exact hread
  | growUnlock p => exact lockOutcome_map fun _ h => lockStep_unlock h rfl
  | ret p => exact lockOutcome_idle rfl fun _ => rfl

lemma locks_caFlagOp {op : CaFlagOp} {locked : Bool} :
    LockOutcome m t (.caFlagOp op locked) (execCaFlagOp m t op locked) := by
  cases locked with
  | false =>
    rw [execCaFlagOp]
    split_ifs
    · exact lockOutcome_map fun _ h => lockStep_lockCa h rfl
    · exact lockOutcome_idle rfl fun _ => rfl
  | true => exact lockOutcome_idle rfl fun _ => rfl

/-- The thread tries the lock, and works on an element only when it got it. -/
lemma locks_thread {pc : ThreadPc} : LockOutcome m t (.thread pc) (execThread m t pc) := by
  cases pc with
  | lock => exact lockOutcome_map fun _ h => lockStep_lockCa h rfl
  | enter =>
    rw [execThread]
    split_ifs <;> exact lockOutcome_idle rfl fun _ => rfl
  | elem i =>
    rw [execThread]
    split_ifs
    · split <;> exact lockOutcome_idle rfl fun _ => rfl
    · exact lockOutcome_idle rfl fun _ => rfl
  | read i p => exact lockOutcome_el? fun _ _ => lockOutcome_idle rfl fun _ => rfl
  | tryLock i p flags =>
    refine lockOutcome_el? fun el hel => ?_
    split_ifs with hfree
    · rintro _ _ ⟨⟩
      refine lockStep_lock ?_ rfl (p := p) (topHolds_head ?_)
      · simp [Memory.lockEl, Memory.el?_eq_some.mpr hel, hfree]
      · unfold afterTryLock
        split_ifs <;> rfl
    · exact lockOutcome_idle rfl fun _ => rfl
  | _ => exact lockOutcome_idle rfl fun _ => rfl

/-- Every statement, unless an element has failed to grow. -/
theorem locks_exec (hexec : exec m t f inp = some (m', fs)) (hgrown : Grown m t f inp) :
    LockStep t f m m' fs := by
  replace hexec := execFrame_of_exec hexec
  cases f with
  | flagOp op p pc => exact locks_flagOp m' fs hexec
  | evictByIdx i p locked => exact locks_evictByIdx m' fs hexec
  | work i p evict st => exact locks_work m' fs hexec
  | evict key pc => exact locks_evict m' fs hexec
  | lookup key pc => exact locks_lookup m' fs hexec
  | map pc => exact locks_map m' fs hexec
  | sync pc => exact locks_sync m' fs hexec
  | disable pc => exact locks_disable m' fs hexec
  | pgMap addr pc => exact locks_pgMap hgrown m' fs hexec
  | caFlagOp op locked => exact locks_caFlagOp m' fs hexec
  | setId p key =>
    have hset : LockOutcome m t (.setId p key)
        ((m.el? p).map fun el => (m.setEl p { el with ce_id := key }, [])) :=
      lockOutcome_el? fun el hel => lockOutcome_idle rfl fun _ => mutexOf_setEl_same hel rfl
    exact hset m' fs hexec
  | thread pc => exact locks_thread m' fs hexec
  | unlockCa ret =>
    exact lockOutcome_map (fun _ h =>
      lockStep_keep (fun _ => mutexOf_unlockCa h) (by simp [Frame.holdsEl])) m' fs hexec

end LockStep

/-! ## The order of the calls -/

/-- What the locks of `t` rest on when its stack is `k`. -/
structure Orderly (m : Memory) (t : Tid) (k : List Frame) : Prop where
  held : ∀ p, m.mutexOf p = some t → TopHolds k p
  marked : ∀ {op p pc g k'}, k = .flagOp op p pc :: g :: k' → ∃ i, m.slot i = some p
  victim : ∀ {i l k' sub}, k = .map (.lru i l) :: k' → l.sub = some sub → ∃ p, m.slot sub = some p
  worker : t = .cacheThread →
    (∃ pc, k.getLast? = some (.thread pc)) ∨ k = [] ∧ m.ca_thread_ended = true

section Orderly

variable {m m' : Memory} {t t' : Tid} {p : ℕ} {f g : Frame} {fs k k' : List Frame} {inp : Input}

/-- A call that assigns to the flags of an element goes on, or a loop over the table has found the
element. -/
lemma flagOp_origin {op : FlagOp} {pc : FlagPc}
    (hexec : exec m t f inp = some (m', .flagOp op p pc :: fs)) :
    (∃ pc', f = .flagOp op p pc' ∧ fs = []) ∨ ∃ i, m.slot i = some p := by
  have hlead := (leadsTo_exec hexec (.flagOp op p pc) (by simp)).onFlags rfl
  replace hexec := execFrame_of_exec hexec
  cases f with
  | flagOp op' q pc' =>
    cases pc' <;> simp only [execFrame, execFlagOp, Option.map_eq_some_iff] at hexec <;> grind
  | sync pc' =>
    cases pc' with
    | scan i =>
      simp only [execFrame, execSync] at hexec
      grind [Option.map_eq_some_iff]
    | _ =>
      cases inp <;> simp only [execFrame, execSync] at hexec <;> grind [Option.map_eq_some_iff]
  | disable pc' =>
    cases pc' with
    | scan i =>
      simp only [execFrame, execDisable] at hexec
      grind
    | _ =>
      cases inp <;> simp only [execFrame, execDisable] at hexec <;> grind [Option.map_eq_some_iff]
  | _ => simp at hlead

/-- The search for the least recently used element begins, or has seen one more element. -/
lemma lru_origin {i : ℕ} {l : Lru} (hexec : exec m t f inp = some (m', .map (.lru i l) :: fs)) :
    l = Lru.start ∨
      ∃ j l' fl n, f = .map (.lru j l') ∧ l = l'.step j fl n ∧ ∃ p, m.slot j = some p := by
  have hlead := (leadsTo_exec hexec (.map (.lru i l)) (by simp)).maps rfl
  replace hexec := execFrame_of_exec hexec
  cases f with
  | map pc =>
    cases pc with
    | find =>
      simp only [execFrame, execMap] at hexec
      grind
    | lru j l' =>
      simp only [execFrame, execMap] at hexec
      grind [Option.map_eq_some_iff]
    | malloc sub =>
      -- the element has memory, or the call ends
      rcases malloc_cases hexec with ⟨p, id, -, -, -, hnext⟩ | ⟨-, -, hnext⟩ <;> simp at hnext
    | lock => simp [execFrame, execMap] at hexec
    | publish sub q => simp [execFrame, execMap] at hexec
  | _ => simp at hlead

/-- The table changes where a removal or `cache_element_map` comes to its end. -/
lemma slot_of_next (hexec : exec m t f inp = some (m', g :: fs)) (hg : ∀ ret, g ≠ .unlockCa ret)
    (i : ℕ) : m'.slot i = m.slot i := by
  have htable := (effect_exec hexec).table
  replace hexec := execFrame_of_exec hexec
  suffices h : f.setsSlot m.ca_elements_ptr = m.ca_elements_ptr by
    rw [Memory.slot, Memory.slot, htable, h]
  cases f with
  | work j p evict st =>
    cases st with
    | clearSlot => simp [execFrame, execWork] at hexec
    | _ => rfl
  | map pc =>
    cases pc with
    | publish sub p =>
      simp only [execFrame, execMap, Option.some.injEq, Prod.mk.injEq, List.cons.injEq] at hexec
      exact absurd hexec.2.1.symm (hg (some p))
    | _ => rfl
  | _ => rfl

/-- The code of the thread goes on with itself, until it has ended. -/
lemma thread_goes_on {pc : ThreadPc} (hexec : exec m t (.thread pc) inp = some (m', fs)) :
    (∃ pc', fs.getLast? = some (.thread pc')) ∨ fs = [] ∧ m'.ca_thread_ended = true := by
  replace hexec := execFrame_of_exec hexec
  cases pc <;> simp only [execFrame, execThread] at hexec <;>
    grind [Option.map_eq_some_iff, Memory.setCaFlags]

/-- The calls that wait for another one. -/
lemma Caller.waiting (hk : Caller m f k) : ∀ g ∈ k, (∀ op p pc, g ≠ .flagOp op p pc) ∧
    ∀ i l, g ≠ .map (.lru i l) := by
  cases f with
  | flagOp op p pc =>
    rcases hk with rfl | ⟨-, -, ⟨i, rfl⟩ | ⟨i, rfl⟩⟩ <;> simp
  | evictByIdx i p locked => rcases hk with rfl | rfl <;> simp
  | work i p evict st => rcases hk with rfl | ⟨-, rfl | rfl⟩ <;> simp
  | unlockCa ret => rcases hk with rfl | rfl | ⟨rc, rfl⟩ | rfl | rfl <;> simp
  | _ =>
    obtain rfl : k = [] := hk
    simp

lemma TopHolds.append (h : TopHolds fs p) : TopHolds (fs ++ k) p := by
  rcases h with ⟨g, hg, hheld⟩
  cases fs with
  | nil => simp at hg
  | cons g' fs => exact ⟨g, by simpa using hg, hheld⟩

lemma topHolds_cons (h : TopHolds (f :: k) p) : f.holdsEl = some p := by
  rcases h with ⟨g, hg, hheld⟩
  obtain rfl : f = g := by simpa using hg
  exact hheld

lemma not_topHolds_nil : ¬ TopHolds [] p := fun ⟨g, hg, _⟩ => by simp at hg

/-- A client starts a call: it holds nothing yet. -/
lemma orderly_entry (ho : Orderly m t []) (hstart : start t inp = some fs) : Orderly m t fs := by
  rcases start_eq_some hstart with ⟨n, f, rfl, rfl, hentry, rfl⟩
  refine ⟨fun p hp => absurd (ho.held p hp) not_topHolds_nil, by simp, ?_, by simp⟩
  rintro i l k' sub heq
  obtain rfl : f = .map (.lru i l) := by simpa using (List.cons.inj heq).1
  simp [entry] at hentry

/-- A thread that takes a step. -/
lemma orderly_own (hexec : exec m t f inp = some (m', fs)) (hgrown : Grown m t f inp)
    (hcaller : Caller m f k) (ho : Orderly m t (f :: k)) : Orderly m' t (fs ++ k) where
  held p hp := by
    rcases locks_exec hexec hgrown p t hp with ⟨-, htop⟩ | ⟨hold, hnot⟩
    · exact htop.append
    · -- what `f` held it hands on
      exact absurd (topHolds_cons (ho.held p hold)) (hnot rfl)
  marked {op p pc g k'} heq := by
    cases fs with
    | nil =>
      -- a call that waits assigns to no flags
      exact absurd rfl ((hcaller.waiting (.flagOp op p pc) (by simp_all)).1 op p pc)
    | cons g' fs =>
      rcases List.cons.inj heq with ⟨rfl, hrest⟩
      rcases flagOp_origin hexec with ⟨pc', rfl, rfl⟩ | ⟨i, hslot⟩
      · rcases ho.marked (by rw [← hrest]; rfl) with ⟨i, hslot⟩
        exact ⟨i, by rw [slot_of_next hexec (by simp), hslot]⟩
      · exact ⟨i, by rw [slot_of_next hexec (by simp), hslot]⟩
  victim {i l k' sub} heq hsub := by
    cases fs with
    | nil => exact absurd rfl ((hcaller.waiting (.map (.lru i l)) (by simp_all)).2 i l)
    | cons g' fs =>
      rcases List.cons.inj heq with ⟨rfl, hrest⟩
      suffices h : ∃ p, m.slot sub = some p by
        rcases h with ⟨p, hslot⟩
        exact ⟨p, by rw [slot_of_next hexec (by simp), hslot]⟩
      rcases lru_origin hexec with rfl | ⟨j, l', fl, n, rfl, rfl, hslot⟩
      · simp [Lru.start] at hsub
      · -- the choice is an earlier one, or the element just seen
        rcases lru_step_sub hsub with hold | ⟨rfl, -⟩
        · exact ho.victim rfl hold
        · exact hslot
  worker ht := by
    rcases ho.worker ht with ⟨pc, hlast⟩ | ⟨hnil, -⟩
    · cases hk : k with
      | nil =>
        subst hk
        obtain rfl : f = .thread pc := by simpa using hlast
        simpa using thread_goes_on hexec
      | cons g k' =>
        left
        subst hk
        exact ⟨pc, by simpa [List.getLast?_append] using hlast⟩
    · simp at hnil

/-- A thread that another one's step leaves alone. -/
lemma orderly_other (hexec : exec m t f inp = some (m', fs)) (hgrown : Grown m t f inp)
    (hstable : Stable t' m m') (ht : t' ≠ t) (hown : Own m t' k) (ho : Orderly m t' k) :
    Orderly m' t' k where
  held p hp := by
    rcases locks_exec hexec hgrown p t' hp with ⟨rfl, -⟩ | ⟨hold, -⟩
    · exact absurd rfl ht
    · exact ho.held p hold
  marked {op p pc g k'} heq := by
    rcases ho.marked heq with ⟨i, hslot⟩
    subst heq
    -- the call that waits is in the critical section
    have hca : m.ca_mutex = some t' := by
      rcases hown with ⟨hiff, -, hk | ⟨-, -, ⟨j, hk⟩ | ⟨j, hk⟩⟩⟩
      · simp at hk
      · exact hiff.mp (by simp [hk, Frame.inCa])
      · exact hiff.mp (by simp [hk, Frame.inCa])
    exact ⟨i, (hstable.slot hca i).trans hslot⟩
  victim {i l k' sub} heq hsub := by
    rcases ho.victim heq hsub with ⟨p, hslot⟩
    subst heq
    exact ⟨p, (hstable.slot (hown.holds rfl) sub).trans hslot⟩
  worker hthread := by
    rcases ho.worker hthread with hlast | ⟨hnil, hended⟩
    · exact .inl hlast
    · exact .inr ⟨hnil, by simp [(effect_exec hexec).ended, hended]⟩

end Orderly

/-- The outline of the locks. It rests on `outline`, and holds as long as elements grow. -/
theorem orderly (capacity : ℕ) (on_evict : Bool) :
    StackOutline system Grown (fun m => Inv capacity on_evict m ∧ True)
      fun m t k => Own m t k ∧ Orderly m t k :=
  (outline capacity on_evict).extend (fun _ => trivial)
    (fun hstart _ _ ho => orderly_entry ho hstart)
    (fun hexec hgrown _ hown _ _ _ ho => ⟨trivial, orderly_own hexec hgrown hown.2.2 ho⟩)
    (fun hexec hgrown hinv hown _ _ t' ht _ hown' ho' =>
      orderly_other hexec hgrown ((sound_exec hexec hinv hown).others t' ht) ht hown' ho')

lemma holds_orderly_init (capacity : ℕ) (on_evict on_flush : Bool) :
    Holds (fun m => Inv capacity on_evict m ∧ True) (fun m t k => Own m t k ∧ Orderly m t k)
      (init capacity on_evict on_flush) := by
  rcases holds_init capacity on_evict on_flush with ⟨hinv, hown⟩
  refine ⟨⟨hinv, trivial⟩, fun t => ⟨hown t, ?_⟩⟩
  have hfree : ∀ p, (init capacity on_evict on_flush).mem.mutexOf p ≠ some t := by
    simp [init, cacheInit, Memory.mutexOf, Memory.el?]
  cases t with
  | cacheThread =>
    exact ⟨fun p hp => absurd hp (hfree p), by simp [init], by simp [init],
      fun _ => .inl ⟨.start, rfl⟩⟩
  | client n => exact ⟨fun p hp => absurd hp (hfree p), by simp [init], by simp [init], by simp⟩

end KanekFs.Cache.Machine
