import KanekFs.Cache.Effect

/-!
# What a pass of the thread leaves behind

`cache_sync` and `cache_disable` work the same way. Under `ca_mutex` they mark elements for
eviction and set a flag in `ca_flags`; a pass of the thread evicts what is marked and answers with
another flag. `Request` is one of the two, `Seen` what such a call saw of an element while it had
`ca_mutex`, and `observe` keeps for each client what its last call saw.

An element seen is `Passed` once it was given to the evict callback, with a flush in between if it
was dirty. Until then it is live (`Owed.obliged`), a flush is due as long as it is dirty, and it is
marked whenever `ca_mutex` is free (`Owed.marked`). `owed` is the outline that says so, for runs
in which the callbacks are there.
-/

namespace KanekFs.Cache.Machine

open Threads Run Word

/-! ## Requests -/

/-- The two requests to the thread. -/
inductive Request
  | loop
  | exit
deriving DecidableEq

/-- The flag that makes the request. -/
def Request.asked : Request → CaFlags → Bool
  | .loop, f => f.set_loop_done
  | .exit, f => f.exit

/-- The flag that answers it. -/
def Request.done : Request → CaFlags → Bool
  | .loop, f => f.loop_done
  | .exit, f => f.evicted

/-- An element as a call saw it: whether it was dirty, and what had happened before. -/
structure Seen where
  p : ℕ
  dirty : Bool
  log : List Event
deriving DecidableEq

abbrev Hist := Tid → List Seen

/-- The element at `p` as it is now. -/
def Memory.see (m : Memory) (p : ℕ) : Option Seen :=
  (m.el? p).map fun el => ⟨p, el.ce_flags.dirty, m.log⟩

/-- The element in slot `i`, unless it is pinned. -/
def Memory.seeUnpinned (m : Memory) (i : ℕ) : Option Seen :=
  (m.slot i).bind fun p => (m.el? p).bind fun el =>
    if el.ce_flags.pin then none else some ⟨p, el.ce_flags.dirty, m.log⟩

/-- What the calls see: `cache_sync` the unpinned elements, one after the other, `cache_disable`
all elements in the table. -/
def observe (m : Memory) (t : Tid) (f : Frame) (_ : Input) (h : Hist) : Hist :=
  match f with
  | .sync .lock => Function.update h t []
  | .sync (.scan i) => Function.update h t ((m.seeUnpinned i).toList ++ h t)
  | .disable .lock => Function.update h t (m.entries.filterMap m.see)
  | _ => h

/-- The element was passed to the evict callback after it was seen, and to the flush callback
before that if it was dirty. -/
def Passed (o : Seen) (log : List Event) : Prop :=
  ∃ l₁ l₂, log = l₁ ++ .evicted o.p :: (l₂ ++ o.log) ∧ (o.dirty = true → .flushed o.p ∈ l₂)

/-- The element was flushed since, if it was dirty. -/
def Flushed (o : Seen) (log : List Event) : Prop :=
  o.dirty = true → ∃ l, log = l ++ o.log ∧ .flushed o.p ∈ l

/-- The element is live, and dirty if a flush is due. -/
def Waiting (o : Seen) (m : Memory) : Prop :=
  o.log <:+ m.log ∧ ∃ el, m.heap o.p = .live el ∧ (el.ce_flags.dirty = true ∨ Flushed o m.log)

/-- The element was passed or is still there. -/
def Obliged (o : Seen) (m : Memory) : Prop := Passed o m.log ∨ Waiting o m

/-- The element was passed or is marked for eviction. -/
def Marked (o : Seen) (m : Memory) : Prop :=
  Passed o m.log ∨ ∃ el, m.heap o.p = .live el ∧ el.ce_flags.evict = true

/-! ### What later steps keep -/

section Keeps

variable {m m' : Memory} {o : Seen} {log log' : List Event}

lemma Passed.mono (h : Passed o log) (hlog : log <:+ log') : Passed o log' := by
  rcases hlog with ⟨l, rfl⟩
  rcases h with ⟨l₁, l₂, rfl, hflush⟩
  exact ⟨l ++ l₁, l₂, by simp, hflush⟩

lemma Flushed.mono (h : Flushed o log) (hlog : log <:+ log') : Flushed o log' := by
  intro hdirty
  rcases hlog with ⟨l, rfl⟩
  rcases h hdirty with ⟨l', rfl, hflush⟩
  exact ⟨l ++ l', by simp, by simp [hflush]⟩

lemma Keeps.obliged (h : Keeps m m') (ho : Obliged o m) : Obliged o m' := by
  rcases ho with hp | ⟨hlog, el, hel, hdue⟩
  · exact .inl (hp.mono h.log)
  · rcases h.live o.p el hel with ⟨el', hel', hdirty, -⟩
    exact .inr ⟨hlog.trans h.log, el', hel', hdue.imp hdirty fun hf => hf.mono h.log⟩

lemma Keeps.marked (h : Keeps m m') (ho : Marked o m) : Marked o m' := by
  rcases ho with hp | ⟨el, hel, hevict⟩
  · exact .inl (hp.mono h.log)
  · rcases h.live o.p el hel with ⟨el', hel', -, hev⟩
    exact .inr ⟨el', hel', hev hevict⟩

/-- The evict callback is called for an element that owes no flush. -/
lemma passed_evicted (ho : Obliged o m) (hclean : Passed o m.log ∨ Flushed o m.log) :
    Passed o (m.emit (.evicted o.p)).log := by
  rcases ho with hp | ⟨⟨l, hl⟩, -⟩
  · exact hp.mono (List.suffix_cons _ _)
  · rcases hclean with hp | hf
    · exact hp.mono (List.suffix_cons _ _)
    · refine ⟨[], l, by simp [Memory.emit, hl], ?_⟩
      intro hdirty
      rcases hf hdirty with ⟨l', hl', hflush⟩
      obtain rfl : l = l' := List.append_cancel_right (hl.trans hl')
      exact hflush

/-- The flush callback is called for an element that was seen and not passed. -/
lemma flushed_flush (ho : Obliged o m) :
    Passed o (m.emit (.flushed o.p)).log ∨ Flushed o (m.emit (.flushed o.p)).log := by
  rcases ho with hp | ⟨⟨l, hl⟩, -⟩
  · exact .inl (hp.mono (List.suffix_cons _ _))
  · exact .inr fun _ => ⟨.flushed o.p :: l, by simp [Memory.emit, hl], by simp⟩

end Keeps

/-! ## The outline -/

/-- No flush is due for what was seen of `p`. -/
def Clean (s : Memory × Hist) (p : ℕ) : Prop :=
  ∀ t, ∀ o ∈ s.2 t, o.p = p → Passed o s.1.log ∨ Flushed o s.1.log

/-- Nothing is due for what was seen of `p`. -/
def Settled (s : Memory × Hist) (p : ℕ) : Prop := ∀ t, ∀ o ∈ s.2 t, o.p = p → Passed o s.1.log

/-- What holds of the elements seen in every state. -/
structure Owed (s : Memory × Hist) : Prop where
  obliged : ∀ t, ∀ o ∈ s.2 t, Obliged o s.1
  marked : s.1.ca_mutex = none → ∀ t, ∀ o ∈ s.2 t, Marked o s.1

/-- The calls are about to mark the element `p`. -/
def ToMark (m : Memory) (p : ℕ) : List Frame → Prop
  | .flagOp .markEviction q pc :: k =>
    q = p ∧ pc.toAssign = true ∨ ∃ i j, k = [.disable (.scan i)] ∧ i ≤ j ∧ m.slot j = some p
  | .disable (.scan i) :: _ => ∃ j, i ≤ j ∧ m.slot j = some p
  | _ => False

/-- What the work on `p` relies on: its flush, and then its evict callback, have been called. -/
def WorkOwes (s : Memory × Hist) (p : ℕ) : Stage → Prop
  | .clearDirty | .setClean | .onEvict => Clean s p
  | .decInUse | .zeroFlags | .unlock | .destroy | .free | .clearSlot => Settled s p
  | .addCount | .flush | .release => True

/-- The thread relies on its copy of the flags. -/
def TopOwes (s : Memory × Hist) : List Frame → Prop
  | .work _ p _ st :: _ => WorkOwes s p st
  | .thread (.tryLock _ p flags) :: _ =>
    (flags.dirty = false → Clean s p) ∧ (flags.evict = false → Settled s p)
  | _ => True

/-- What the calls of `t` rely on. -/
structure Owes (s : Memory × Hist) (t : Tid) (k : List Frame) : Prop where
  client : t ≠ .cacheThread → ∀ f ∈ k, f.isThread = false
  marked : s.1.ca_mutex = some t →
    ∀ t', ∀ o ∈ s.2 t', Marked o s.1 ∨ t' = t ∧ ToMark s.1 o.p k
  top : TopOwes s k

/-- A callback that is called is there. -/
def Memory.calls (m : Memory) : Frame → Bool
  | .work _ _ _ .flush => m.ca_on_flush_callback
  | .work _ _ _ .onEvict => m.ca_on_evict_callback
  | _ => true

section Outline

variable {capacity : ℕ} {on_evict : Bool} {m m' : Memory} {h h' : Hist} {t t' : Tid} {p i : ℕ}
  {f : Frame} {fs k k' : List Frame} {inp : Input}

lemma topOwes_of_not_works {s : Memory × Hist} (hk : ∀ g ∈ k, g.works = false) : TopOwes s k := by
  cases k with
  | nil => trivial
  | cons g k =>
    have hg := hk g (by simp)
    cases g with
    | work i p evict st => simp at hg
    | thread pc =>
      cases pc with
      | tryLock i p flags => simp at hg
      | _ => trivial
    | _ => trivial

/-- A call that waits is not at work. -/
lemma Caller.not_works (hk : Caller m f k) : ∀ g ∈ k, g.works = false := by
  cases f with
  | flagOp op p pc =>
    rcases hk with rfl | ⟨-, -, ⟨i, rfl⟩ | ⟨i, rfl⟩⟩ <;> simp
  | evictByIdx i p locked => rcases hk with rfl | rfl <;> simp
  | work i p evict st => rcases hk with rfl | ⟨-, rfl | rfl⟩ <;> simp
  | unlockCa ret => rcases hk with rfl | rfl | ⟨rc, rfl⟩ | rfl | rfl <;> simp
  | _ =>
    obtain rfl : k = [] := hk
    simp

lemma Settled.mono (hp : Settled (m, h) p) (hlog : m.log <:+ m'.log) : Settled (m', h) p :=
  fun t o ho hop => (hp t o ho hop).mono hlog

lemma Clean.mono (hp : Clean (m, h) p) (hlog : m.log <:+ m'.log) : Clean (m', h) p :=
  fun t o ho hop => (hp t o ho hop).imp (fun hp => hp.mono hlog) fun hf => hf.mono hlog

lemma WorkOwes.mono {st : Stage} (hst : WorkOwes (m, h) p st) (hlog : m.log <:+ m'.log) :
    WorkOwes (m', h) p st := by
  cases st with
  | addCount => trivial
  | flush => trivial
  | release => trivial
  | clearDirty => exact Clean.mono hst hlog
  | setClean => exact Clean.mono hst hlog
  | onEvict => exact Clean.mono hst hlog
  | decInUse => exact Settled.mono hst hlog
  | zeroFlags => exact Settled.mono hst hlog
  | unlock => exact Settled.mono hst hlog
  | destroy => exact Settled.mono hst hlog
  | free => exact Settled.mono hst hlog
  | clearSlot => exact Settled.mono hst hlog

lemma TopOwes.mono (hk : TopOwes (m, h) k) (hlog : m.log <:+ m'.log) : TopOwes (m', h) k := by
  cases k with
  | nil => trivial
  | cons g k =>
    cases g with
    | work i p evict st => exact WorkOwes.mono hk hlog
    | thread pc =>
      cases pc with
      | tryLock i p flags =>
        exact ⟨fun hd => (hk.1 hd).mono hlog, fun he => (hk.2 he).mono hlog⟩
      | _ => trivial
    | _ => trivial

/-! ### Steps of other threads -/

/-- While another thread holds `ca_mutex` nothing is seen. -/
lemma observe_bystander (hexec : exec m t f inp = some (m', fs)) (hown : Own m t (f :: k))
    (hca : m.ca_mutex = some t') (ht : t' ≠ t) : observe m t f inp h = h := by
  have hout : f.inCa = false := by
    by_contra hin
    have hself := hown.holds (by simpa using hin)
    exact ht (Option.some.inj (hca.symm.trans hself))
  replace hexec := execFrame_of_exec hexec
  cases f with
  | sync pc =>
    cases pc with
    | lock =>
      have hfree := (Memory.lockCa_eq_some (frames_of_map hexec).1).1
      simp [hca] at hfree
    | scan i => simp [Frame.inCa] at hout
    | _ => rfl
  | disable pc =>
    cases pc with
    | lock =>
      have hfree := (Memory.lockCa_eq_some (frames_of_map hexec).1).1
      simp [hca] at hfree
    | _ => rfl
  | _ => rfl

/-- ... and no element is freed or loses a flag. -/
lemma keeps_bystander (hexec : exec m t f inp = some (m', fs)) (hown : Own m t (f :: k))
    (hca : m.ca_mutex = some t') (ht : t' ≠ t) : Keeps m m' := by
  refine keeps_exec hexec ?_
  by_contra hclears
  have hin : f.inCa = true := by
    cases f with
    | work i p evict st => rfl
    | _ => simp [Frame.clears] at hclears
  exact ht (Option.some.inj (hca.symm.trans (hown.holds hin)))

lemma ToMark.congr (hslot : ∀ j, m'.slot j = m.slot j) (hk : ToMark m p k) : ToMark m' p k := by
  cases k with
  | nil => exact hk
  | cons g k =>
    cases g with
    | flagOp op q pc =>
      cases op with
      | markEviction =>
        rcases hk with hq | ⟨i, j, rfl, hij, hj⟩
        · exact .inl hq
        · exact .inr ⟨i, j, rfl, hij, (hslot j).trans hj⟩
      | _ => exact hk
    | disable pc =>
      cases pc with
      | scan i =>
        rcases hk with ⟨j, hij, hj⟩
        exact ⟨j, hij, (hslot j).trans hj⟩
      | _ => exact hk
    | _ => exact hk

/-- The calls of a thread rely on nothing that the others disturb. -/
lemma owes_bystander (hexec : exec m t f inp = some (m', fs)) (hown : Own m t (f :: k))
    (hstable : Stable t' m m') (ht : t' ≠ t) (hown' : Own m t' k') (hk' : Owes (m, h) t' k') :
    Owes (m', observe m t f inp h) t' k' where
  client := hk'.client
  marked hca := by
    replace hca := hstable.mutex.mp hca
    rw [observe_bystander hexec hown hca ht]
    intro t₁ o ho
    refine (hk'.marked hca t₁ o ho).imp (keeps_bystander hexec hown hca ht).marked ?_
    rintro ⟨rfl, hto⟩
    exact ⟨rfl, hto.congr (hstable.slot hca)⟩
  top := by
    by_cases hworks : ∀ g ∈ k', g.works = false
    · exact topOwes_of_not_works hworks
    · -- who works on an element holds `ca_mutex`
      push Not at hworks
      rcases hworks with ⟨g, hg, hwork⟩
      have hca : m.ca_mutex = some t' := by
        cases k' with
        | nil => simp at hg
        | cons g' k' =>
          refine hown'.1.mp (List.any_eq_true.mpr ⟨g, hg, ?_⟩)
          cases g with
          | work i p evict st => rfl
          | thread pc =>
            cases pc with
            | tryLock i p flags => rfl
            | _ => simp at hwork
          | _ => simp at hwork
      rw [observe_bystander hexec hown hca ht]
      exact hk'.top.mono hstable.log

/-! ### Steps of the same thread -/

/-- A statement that leaves all marked, when nothing was about to be marked. -/
lemma owed_of (hothers : ∀ t' ≠ t, Stable t' m m') (hs : Owed (m, h)) (ho : Owes (m, h) t (f :: k))
    (hno : ∀ p, ¬ ToMark m p (f :: k)) (hsub : ∀ t', ∀ o ∈ h' t', o ∈ h t')
    (hob : ∀ t', ∀ o ∈ h' t', Obliged o m') (hmk : ∀ t', ∀ o ∈ h' t', Marked o m → Marked o m')
    (hclient : t ≠ .cacheThread → ∀ g ∈ fs ++ k, g.isThread = false)
    (htop : TopOwes (m', h') (fs ++ k)) : Owed (m', h') ∧ Owes (m', h') t (fs ++ k) := by
  -- `ca_mutex` is free afterwards, or held by `t`, only if it was before
  have hall : (∀ t' ≠ t, m'.ca_mutex ≠ some t') → ∀ t', ∀ o ∈ h' t', Marked o m' := by
    intro hca' t' o hmem
    refine hmk t' o hmem ?_
    cases hca : m.ca_mutex with
    | none => exact hs.marked hca t' o (hsub t' o hmem)
    | some t₁ =>
      by_cases ht₁ : t₁ = t
      · subst ht₁
        exact (ho.marked hca t' o (hsub t' o hmem)).resolve_right fun hto => hno o.p hto.2
      · exact absurd ((hothers t₁ ht₁).mutex.mpr hca) (hca' t₁ ht₁)
  refine ⟨⟨hob, fun hca' => hall ?_⟩, hclient, fun hca' t' o hmem => .inl (hall ?_ t' o hmem), htop⟩
  · intro t' _ heq
    exact absurd (hca'.symm.trans heq) (by simp)
  · intro t' ht' heq
    exact ht' (Option.some.inj (heq.symm.trans hca'))

lemma owed_keeps (hkeeps : Keeps m m') (hothers : ∀ t' ≠ t, Stable t' m m') (hs : Owed (m, h))
    (ho : Owes (m, h) t (f :: k)) (hno : ∀ p, ¬ ToMark m p (f :: k))
    (hsub : ∀ t', ∀ o ∈ h' t', o ∈ h t')
    (hclient : t ≠ .cacheThread → ∀ g ∈ fs ++ k, g.isThread = false)
    (htop : TopOwes (m', h') (fs ++ k)) : Owed (m', h') ∧ Owes (m', h') t (fs ++ k) :=
  owed_of hothers hs ho hno hsub
    (fun t' o hmem => hkeeps.obliged (hs.obliged t' o (hsub t' o hmem)))
    (fun _ _ _ hm => hkeeps.marked hm) hclient htop

/-- Only the element `p` changes, and it is dealt with separately. -/
lemma owed_element (hheap : ∀ q ≠ p, m'.heap q = m.heap q) (hlog : m.log <:+ m'.log)
    (hp : ∀ t', ∀ o ∈ h t', o.p = p → Obliged o m' ∧ (Marked o m → Marked o m'))
    (hothers : ∀ t' ≠ t, Stable t' m m') (hs : Owed (m, h))
    (ho : Owes (m, h) t (f :: k)) (hno : ∀ p, ¬ ToMark m p (f :: k))
    (hclient : t ≠ .cacheThread → ∀ g ∈ fs ++ k, g.isThread = false)
    (htop : TopOwes (m', h) (fs ++ k)) : Owed (m', h) ∧ Owes (m', h) t (fs ++ k) := by
  refine owed_of hothers hs ho hno (fun _ _ hmem => hmem) ?_ ?_ hclient htop
  · intro t' o hmem
    by_cases hop : o.p = p
    · exact (hp t' o hmem hop).1
    · rcases hs.obliged t' o hmem with hpass | ⟨hl, el, hel, hdue⟩
      · exact .inl (hpass.mono hlog)
      · exact .inr ⟨hl.trans hlog, el, (hheap o.p hop).trans hel,
          hdue.imp_right fun hf => hf.mono hlog⟩
  · intro t' o hmem hm
    by_cases hop : o.p = p
    · exact (hp t' o hmem hop).2 hm
    · rcases hm with hpass | ⟨el, hel, hevict⟩
      · exact .inl (hpass.mono hlog)
      · exact .inr ⟨el, (hheap o.p hop).trans hel, hevict⟩

lemma flagOp_ca_mutex {op : FlagOp} {pc : FlagPc}
    (hexec : execFlagOp m t op p pc = some (m', fs)) : m'.ca_mutex = m.ca_mutex := by
  cases pc with
  | test =>
    rcases Option.map_eq_some_iff.mp hexec with ⟨el, -, heq⟩
    rcases Prod.mk.inj heq with ⟨rfl, -⟩
    rfl
  | lock =>
    rcases Memory.lockEl_eq_some (frames_of_map hexec).1 with ⟨el, -, -, rfl⟩
    rfl
  | assign =>
    rcases Memory.setFlags_eq_some (frames_of_map hexec).1 with ⟨el, -, rfl⟩
    rfl
  | clearClean =>
    rcases Memory.setFlags_eq_some (frames_of_map hexec).1 with ⟨el, -, rfl⟩
    rfl
  | unlock =>
    rcases Option.map_eq_some_iff.mp hexec with ⟨m₁, hunlock, heq⟩
    rcases Memory.unlockEl_eq_some hunlock with ⟨el, -, -, rfl⟩
    rcases Prod.mk.inj heq with ⟨rfl, -⟩
    split_ifs <;> rfl

/-- The mark of an element: what was about to be marked is, or is still about to be. -/
lemma marked_flagOp {pc : FlagPc} {o : Seen} (hm : Consistent m) (hkeeps : Keeps m m')
    (hslot : ∀ j, m'.slot j = m.slot j)
    (hexec : execFlagOp m t .markEviction p pc = some (m', fs))
    (ho : Marked o m ∨ ToMark m o.p (.flagOp .markEviction p pc :: k)) :
    Marked o m' ∨ ToMark m' o.p (fs ++ k) := by
  rcases ho with ho | ⟨rfl, hpc⟩ | ⟨i, j, rfl, hij, hj⟩
  · exact .inl (hkeeps.marked ho)
  · -- the element being marked
    cases pc with
    | test =>
      rcases Option.map_eq_some_iff.mp hexec with ⟨el, hel, heq⟩
      rcases Prod.mk.inj heq with ⟨rfl, rfl⟩
      rw [if_pos (hm.active_of_live (Memory.el?_eq_some.mp hel))]
      exact .inr (.inl ⟨rfl, rfl⟩)
    | lock =>
      rcases frames_of_map hexec with ⟨-, rfl⟩
      exact .inr (.inl ⟨rfl, rfl⟩)
    | assign =>
      rcases frames_of_map hexec with ⟨hset, rfl⟩
      rcases Memory.setFlags_eq_some hset with ⟨el, -, rfl⟩
      exact .inl (.inr ⟨_, setEl_self, rfl⟩)
    | clearClean => simp [FlagPc.toAssign] at hpc
    | unlock => simp [FlagPc.toAssign] at hpc
  · -- one that `cache_disable` comes to later
    have hj' := (hslot j).trans hj
    have hstays : ∀ pc', ToMark m' o.p (.flagOp .markEviction p pc' :: [.disable (.scan i)]) :=
      fun _ => .inr ⟨i, j, rfl, hij, hj'⟩
    cases pc with
    | test =>
      rcases Option.map_eq_some_iff.mp hexec with ⟨el, hel, heq⟩
      rcases Prod.mk.inj heq with ⟨rfl, rfl⟩
      rw [if_pos (hm.active_of_live (Memory.el?_eq_some.mp hel))]
      exact .inr (hstays _)
    | lock =>
      rcases frames_of_map hexec with ⟨-, rfl⟩
      exact .inr (hstays _)
    | assign =>
      rcases frames_of_map hexec with ⟨-, rfl⟩
      exact .inr (hstays _)
    | clearClean =>
      rcases frames_of_map hexec with ⟨-, rfl⟩
      exact .inr (hstays _)
    | unlock =>
      rcases Option.map_eq_some_iff.mp hexec with ⟨m₁, -, heq⟩
      rcases Prod.mk.inj heq with ⟨rfl, rfl⟩
      exact .inr ⟨j, hij, hj'⟩

/-- A statement of `cache_element_mark_dirty` or its kin. -/
lemma owed_flagOp {op : FlagOp} {pc : FlagPc} (hexec : execFlagOp m t op p pc = some (m', fs))
    (hkeeps : Keeps m m') (hown : Own m t (.flagOp op p pc :: k)) (hs : Owed (m, h))
    (ho : Owes (m, h) t (.flagOp op p pc :: k))
    (hclient : t ≠ .cacheThread → ∀ g ∈ fs ++ k, g.isThread = false)
    (hworks : ∀ g ∈ fs ++ k, g.works = false) :
    Owed (m', h) ∧ Owes (m', h) t (fs ++ k) := by
  have hca := flagOp_ca_mutex hexec
  have hptr : m'.ca_elements_ptr = m.ca_elements_ptr := (outcome_flagOp m' fs hexec).1.table
  have hslot : ∀ j, m'.slot j = m.slot j := fun j => by rw [Memory.slot, Memory.slot, hptr]
  refine ⟨⟨fun t' o hmem => hkeeps.obliged (hs.obliged t' o hmem), ?_⟩, hclient, ?_,
    topOwes_of_not_works hworks⟩
  · intro hfree t' o hmem
    exact hkeeps.marked (hs.marked (hca.symm.trans hfree) t' o hmem)
  · intro hheld t' o hmem
    replace hheld : m.ca_mutex = some t := hca.symm.trans hheld
    rcases hown.2.2 with rfl | ⟨rfl, hm, -⟩
    · -- a client called it, without `ca_mutex`
      simpa [Frame.inCa] using hown.1.mpr hheld
    · rcases ho.marked hheld t' o hmem with hmark | ⟨rfl, hto⟩
      · exact .inl (hkeeps.marked hmark)
      · exact (marked_flagOp hm hkeeps hslot hexec (.inr hto)).imp_right fun hto => ⟨rfl, hto⟩

/-- `CACHE_EL_DIRTY` is cleared after the flush. -/
lemma obliged_clean {o : Seen} {el el' : Elem} (hel : m.heap o.p = .live el)
    (hevict : el'.ce_flags.evict = el.ce_flags.evict) (ho : Obliged o m)
    (hclean : Passed o m.log ∨ Flushed o m.log) :
    Obliged o (m.setEl o.p el') ∧ (Marked o m → Marked o (m.setEl o.p el')) := by
  constructor
  · rcases ho with hpass | ⟨hlog, -⟩
    · exact .inl hpass
    · exact hclean.imp id fun hf => ⟨hlog, el', setEl_self, .inr hf⟩
  · rintro (hpass | ⟨el₁, hel₁, he⟩)
    · exact .inl hpass
    · obtain rfl : el = el₁ := live_inj hel hel₁
      exact .inr ⟨el', setEl_self, hevict.trans he⟩

/-- A statement of the work on an element. -/
lemma owed_work {evict : Bool} {st : Stage} (hexec : execWork m t i p evict st = some (m', fs))
    (hc : m.calls (.work i p evict st) = true)
    (hkeeps : Frame.clears (.work i p evict st) = false → Keeps m m')
    (hothers : ∀ t' ≠ t, Stable t' m m')
    (hown : Own m t (.work i p evict st :: k)) (hs : Owed (m, h))
    (ho : Owes (m, h) t (.work i p evict st :: k))
    (hclient : t ≠ .cacheThread → ∀ g ∈ fs ++ k, g.isThread = false) :
    Owed (m', h) ∧ Owes (m', h) t (fs ++ k) := by
  have hno : ∀ q, ¬ ToMark m q (.work i p evict st :: k) := fun _ hto => hto
  have htop : WorkOwes (m, h) p st := ho.top
  have hrest : TopOwes (m', h) k := topOwes_of_not_works hown.2.2.not_works
  have hsame : ∀ t', ∀ o ∈ h t', o ∈ h t' := fun _ _ hmem => hmem
  cases st with
  | addCount =>
    rcases frames_of_map hexec with ⟨-, rfl⟩
    exact owed_keeps (hkeeps rfl) hothers hs ho hno hsame hclient trivial
  | flush =>
    rcases Prod.mk.inj (Option.some.inj hexec) with ⟨rfl, rfl⟩
    refine owed_keeps (hkeeps rfl) hothers hs ho hno hsame hclient ?_
    rw [if_pos (show m.ca_on_flush_callback = true from hc)]
    rintro t' o hmem rfl
    exact flushed_flush (hs.obliged t' o hmem)
  | clearDirty =>
    rcases frames_of_map hexec with ⟨hset, rfl⟩
    rcases Memory.setFlags_eq_some hset with ⟨el, hel, rfl⟩
    refine owed_element (m := m) (p := p)
      (fun q hq => by simp [Memory.setEl, Function.update_of_ne hq])
      List.suffix_rfl ?_ hothers hs ho hno hclient (WorkOwes.mono (m := m) htop List.suffix_rfl)
    rintro t' o hmem rfl
    exact obliged_clean hel rfl (hs.obliged t' o hmem) (htop t' o hmem rfl)
  | setClean =>
    rcases frames_of_map hexec with ⟨-, rfl⟩
    have hm := hkeeps rfl
    refine owed_keeps hm hothers hs ho hno hsame hclient ?_
    split_ifs
    · exact Clean.mono htop hm.log
    · trivial
  | onEvict =>
    rcases Prod.mk.inj (Option.some.inj hexec) with ⟨rfl, rfl⟩
    refine owed_keeps (hkeeps rfl) hothers hs ho hno hsame hclient ?_
    rw [if_pos (show m.ca_on_evict_callback = true from hc)]
    rintro t' o hmem rfl
    exact passed_evicted (hs.obliged t' o hmem) (htop t' o hmem rfl)
  | decInUse =>
    rcases Prod.mk.inj (Option.some.inj hexec) with ⟨rfl, rfl⟩
    exact owed_keeps (hkeeps rfl) hothers hs ho hno hsame hclient
      (Settled.mono (m := m) htop List.suffix_rfl)
  | zeroFlags =>
    rcases frames_of_map hexec with ⟨hset, rfl⟩
    rcases Memory.setFlags_eq_some hset with ⟨el, hel, rfl⟩
    refine owed_element (m := m) (p := p)
      (fun q hq => by simp [Memory.setEl, Function.update_of_ne hq])
      List.suffix_rfl ?_ hothers hs ho hno hclient (WorkOwes.mono (m := m) htop List.suffix_rfl)
    intro t' o hmem hop
    exact ⟨.inl (htop t' o hmem hop), fun _ => .inl (htop t' o hmem hop)⟩
  | unlock =>
    rcases frames_of_map hexec with ⟨-, rfl⟩
    have hm := hkeeps rfl
    exact owed_keeps hm hothers hs ho hno hsame hclient (Settled.mono htop hm.log)
  | destroy =>
    rcases Option.map_eq_some_iff.mp hexec with ⟨el, -, heq⟩
    rcases Prod.mk.inj heq with ⟨rfl, rfl⟩
    exact owed_keeps (hkeeps rfl) hothers hs ho hno hsame hclient htop
  | free =>
    rcases frames_of_map hexec with ⟨hfree, rfl⟩
    rcases Memory.freeEl_eq_some hfree with ⟨el, -, rfl⟩
    have hlog := List.suffix_cons (.freed p) m.log
    refine owed_element (m := m) (p := p)
      (fun q hq => by simp [Memory.emit, Function.update_of_ne hq])
      hlog ?_ hothers hs ho hno hclient (Settled.mono (m := m) htop hlog)
    intro t' o hmem hop
    have hpass := (htop t' o hmem hop).mono hlog
    exact ⟨.inl hpass, fun _ => .inl hpass⟩
  | clearSlot =>
    rcases Prod.mk.inj (Option.some.inj hexec) with ⟨rfl, rfl⟩
    exact owed_keeps (hkeeps rfl) hothers hs ho hno hsame hclient hrest
  | release =>
    rcases frames_of_map hexec with ⟨-, rfl⟩
    exact owed_keeps (hkeeps rfl) hothers hs ho hno hsame hclient hrest

/-! The flags of a live element say what is due for it. -/

lemma Owed.clean {el : Elem} (hs : Owed (m, h)) (hel : m.heap p = .live el)
    (hdirty : el.ce_flags.dirty = false) : Clean (m, h) p := by
  rintro t o hmem rfl
  refine (hs.obliged t o hmem).imp_right ?_
  rintro ⟨-, el₁, hel₁, hdue⟩
  obtain rfl : el = el₁ := live_inj hel hel₁
  exact hdue.resolve_left (by simp [hdirty])

lemma settled_of_marked {el : Elem} (hall : ∀ t, ∀ o ∈ h t, Marked o m)
    (hel : m.heap p = .live el) (hevict : el.ce_flags.evict = false) : Settled (m, h) p := by
  rintro t o hmem rfl
  rcases hall t o hmem with hpass | ⟨el₁, hel₁, he⟩
  · exact hpass
  · obtain rfl : el = el₁ := live_inj hel hel₁
    simp [hevict] at he

/-- What is seen is live, and dirty as seen. -/
lemma obliged_see {o : Seen} {el : Elem} (hel : m.heap p = .live el)
    (ho : o = ⟨p, el.ce_flags.dirty, m.log⟩) : Obliged o m := by
  subst ho
  refine .inr ⟨List.suffix_rfl, el, hel, ?_⟩
  cases hdirty : el.ce_flags.dirty with
  | true => exact .inl rfl
  | false => exact .inr fun hd => absurd hd (by simp)

lemma mem_update {o : Seen} {l : List Seen} (hmem : o ∈ Function.update h t l t') :
    t' ≠ t ∧ o ∈ h t' ∨ t' = t ∧ o ∈ l := by
  by_cases ht : t' = t
  · subst ht
    exact .inr ⟨rfl, by simpa using hmem⟩
  · exact .inl ⟨ht, by simpa [Function.update_of_ne ht] using hmem⟩

/-- `cache_sync` comes to the next entry: it sees an element and is about to mark it, or passes
over the entry. -/
lemma owed_sync_scan (hexec : execSync m t (.scan i) inp = some (m', fs))
    (hothers : ∀ t' ≠ t, Stable t' m m') (hown : Own m t (.sync (.scan i) :: k))
    (hs : Owed (m, h)) (ho : Owes (m, h) t (.sync (.scan i) :: k))
    (hclient : t ≠ .cacheThread → ∀ g ∈ fs ++ k, g.isThread = false) :
    Owed (m', observe m t (.sync (.scan i)) inp h) ∧
      Owes (m', observe m t (.sync (.scan i)) inp h) t (fs ++ k) := by
  obtain rfl : k = [] := hown.2.2
  have hca := hown.holds rfl
  have hno : ∀ q, ¬ ToMark m q [.sync (.scan i)] := fun _ hto => hto
  -- nothing is seen
  have hpass : m' = m → m.seeUnpinned i = none → TopOwes (m', observe m t (.sync (.scan i)) inp h)
      (fs ++ []) → Owed (m', observe m t (.sync (.scan i)) inp h) ∧
      Owes (m', observe m t (.sync (.scan i)) inp h) t (fs ++ []) := by
    rintro rfl hsee htop
    refine owed_keeps keeps_rfl hothers hs ho hno ?_ hclient htop
    intro t' o hmem
    rcases mem_update hmem with ⟨-, hmem⟩ | ⟨rfl, hmem⟩
    · exact hmem
    · simpa [hsee] using hmem
  rcases scan_cases hexec with ⟨hslot, rfl, rfl⟩ | ⟨p, hslot, hexec⟩ | ⟨hlen, rfl, rfl⟩
  · exact hpass rfl (by simp [Memory.seeUnpinned, hslot]) trivial
  · rcases Option.map_eq_some_iff.mp hexec with ⟨el, hel, heq⟩
    cases hpin : el.ce_flags.pin with
    | true =>
      simp only [hpin, if_true] at heq
      rcases Prod.mk.inj heq with ⟨rfl, rfl⟩
      exact hpass rfl (by simp [Memory.seeUnpinned, hslot, hel, hpin]) trivial
    | false =>
      simp only [hpin, Bool.false_eq_true, if_false] at heq
      rcases Prod.mk.inj heq with ⟨rfl, rfl⟩
      have hsee : m.seeUnpinned i = some ⟨p, el.ce_flags.dirty, m.log⟩ := by
        simp [Memory.seeUnpinned, hslot, hel, hpin]
      simp only [observe, hsee, Option.toList_some, List.singleton_append]
      refine ⟨⟨?_, fun hfree => absurd (hca.symm.trans hfree) (by simp)⟩, hclient, ?_, trivial⟩
      · intro t' o hmem
        rcases mem_update hmem with ⟨-, hmem⟩ | ⟨rfl, hmem⟩
        · exact hs.obliged t' o hmem
        · rcases List.mem_cons.mp hmem with rfl | hmem
          · exact obliged_see (Memory.el?_eq_some.mp hel) rfl
          · exact hs.obliged t' o hmem
      · intro _ t' o hmem
        have hold : o ∈ h t' → Marked o m := fun hmem =>
          (ho.marked hca t' o hmem).resolve_right fun hto => hno o.p hto.2
        rcases mem_update hmem with ⟨-, hmem⟩ | ⟨rfl, hmem⟩
        · exact .inl (hold hmem)
        · rcases List.mem_cons.mp hmem with rfl | hmem
          · exact .inr ⟨rfl, .inl ⟨rfl, rfl⟩⟩
          · exact .inl (hold hmem)
  · have hslot : m.slot i = none := by simp [Memory.slot, List.getElem?_eq_none hlen]
    exact hpass rfl (by simp [Memory.seeUnpinned, hslot]) trivial

/-- `cache_disable` sees the table. -/
lemma owed_disable_lock (hexec : execDisable m t .lock inp = some (m', fs))
    (hkeeps : Keeps m m') (hown : Own m t (.disable .lock :: k)) (hs : Owed (m, h))
    (hclient : t ≠ .cacheThread → ∀ g ∈ fs ++ k, g.isThread = false) :
    Owed (m', observe m t (.disable .lock) inp h) ∧
      Owes (m', observe m t (.disable .lock) inp h) t (fs ++ k) := by
  obtain rfl : k = [] := hown.2.2
  rcases frames_of_map hexec with ⟨hlock, rfl⟩
  rcases Memory.lockCa_eq_some hlock with ⟨hfree, rfl⟩
  refine ⟨⟨?_, fun hca => by simp at hca⟩, hclient, ?_, trivial⟩
  · intro t' o hmem
    change o ∈ Function.update h t (m.entries.filterMap m.see) t' at hmem
    rcases mem_update hmem with ⟨-, hold⟩ | ⟨rfl, hnew⟩
    · exact hkeeps.obliged (hs.obliged t' o hold)
    · rcases List.mem_filterMap.mp hnew with ⟨p, -, hsee⟩
      rcases Option.map_eq_some_iff.mp hsee with ⟨el, hel, rfl⟩
      exact hkeeps.obliged (obliged_see (Memory.el?_eq_some.mp hel) rfl)
  · intro _ t' o hmem
    change o ∈ Function.update h t (m.entries.filterMap m.see) t' at hmem
    rcases mem_update hmem with ⟨-, hold⟩ | ⟨rfl, hnew⟩
    · exact .inl (hkeeps.marked (hs.marked hfree t' o hold))
    · rcases List.mem_filterMap.mp hnew with ⟨p, hp, hsee⟩
      rcases Option.map_eq_some_iff.mp hsee with ⟨el, -, rfl⟩
      rcases Memory.mem_entries.mp hp with ⟨j, hj⟩
      exact .inr ⟨rfl, j, Nat.zero_le j, hj⟩

/-- `cache_disable` comes to the next entry. -/
lemma owed_disable_scan (inp : Input) (hexec : execDisable m t (.scan i) inp = some (m', fs))
    (hown : Own m t (.disable (.scan i) :: k))
    (hs : Owed (m, h)) (ho : Owes (m, h) t (.disable (.scan i) :: k))
    (hclient : t ≠ .cacheThread → ∀ g ∈ fs ++ k, g.isThread = false) :
    Owed (m', h) ∧ Owes (m', h) t (fs ++ k) := by
  obtain rfl : k = [] := hown.2.2
  have hca := hown.holds rfl
  have hout : ∀ j, m.slot j ≠ none → j < m.ca_elements_ptr.length := by
    intro j hj
    by_contra hge
    exact hj (by simp [Memory.slot, List.getElem?_eq_none (not_lt.mp hge)])
  rcases scan_cases hexec with ⟨hslot, rfl, rfl⟩ | ⟨p, hslot, hexec⟩ | ⟨hlen, rfl, rfl⟩
  · refine ⟨hs, hclient, ?_, trivial⟩
    intro hheld t' o hmem
    refine (ho.marked hheld t' o hmem).imp_right ?_
    rintro ⟨rfl, j, hij, hj⟩
    refine ⟨rfl, j, ?_, hj⟩
    rcases hij.eq_or_lt with rfl | hlt
    · simp [hslot] at hj
    · exact hlt
  · rcases Prod.mk.inj (Option.some.inj hexec) with ⟨rfl, rfl⟩
    refine ⟨hs, hclient, ?_, trivial⟩
    intro hheld t' o hmem
    refine (ho.marked hheld t' o hmem).imp_right ?_
    rintro ⟨rfl, j, hij, hj⟩
    refine ⟨rfl, ?_⟩
    rcases hij.eq_or_lt with rfl | hlt
    · exact .inl ⟨Option.some.inj (hslot.symm.trans hj), rfl⟩
    · exact .inr ⟨i + 1, j, rfl, hlt, hj⟩
  · refine ⟨hs, hclient, ?_, trivial⟩
    intro hheld t' o hmem
    refine .inl ((ho.marked hheld t' o hmem).resolve_right ?_)
    rintro ⟨rfl, j, hij, hj⟩
    have hj' := hout j (by simp [hj])
    omega

/-- The thread reads flags and decides on them. -/
lemma owed_thread {pc : ThreadPc} (hexec : execThread m t pc = some (m', fs))
    (hkeeps : Keeps m m') (hothers : ∀ t' ≠ t, Stable t' m m')
    (hworks : Frame.readsFlags (.thread pc) = false → ∀ g ∈ fs ++ k, g.works = false)
    (hown : Own m t (.thread pc :: k)) (hs : Owed (m, h)) (ho : Owes (m, h) t (.thread pc :: k))
    (hclient : t ≠ .cacheThread → ∀ g ∈ fs ++ k, g.isThread = false) :
    Owed (m', h) ∧ Owes (m', h) t (fs ++ k) := by
  refine owed_keeps hkeeps hothers hs ho (fun _ hto => hto) (fun _ _ hmem => hmem) hclient ?_
  cases pc with
  | read i p =>
    have hca := hown.holds rfl
    rcases Option.map_eq_some_iff.mp hexec with ⟨el, hel, heq⟩
    rcases Prod.mk.inj heq with ⟨rfl, rfl⟩
    replace hel := Memory.el?_eq_some.mp hel
    split_ifs
    · refine ⟨hs.clean hel, settled_of_marked ?_ hel⟩
      intro t' o hmem
      exact (ho.marked hca t' o hmem).resolve_right fun hto => hto.2
    · trivial
  | tryLock i p flags =>
    rcases Option.map_eq_some_iff.mp hexec with ⟨el, hel, heq⟩
    split_ifs at heq
    · rcases Prod.mk.inj heq with ⟨rfl, rfl⟩
      unfold afterTryLock
      split_ifs with hdirty
      · trivial
      · exact (ho.top.1 (by simpa using hdirty)).mono List.suffix_rfl
      · trivial
    · rcases Prod.mk.inj heq with ⟨rfl, rfl⟩
      trivial
  | _ => exact topOwes_of_not_works (hworks rfl)

/-- Every statement keeps the outline. -/
theorem owed_exec (hexec : exec m t f inp = some (m', fs)) (hc : m.calls f = true)
    (hsound : Sound capacity on_evict t m m' (fs ++ k)) (hown : Own m t (f :: k))
    (hs : Owed (m, h)) (ho : Owes (m, h) t (f :: k)) :
    Owed (m', observe m t f inp h) ∧ Owes (m', observe m t f inp h) t (fs ++ k) := by
  have hclient : t ≠ .cacheThread → ∀ g ∈ fs ++ k, g.isThread = false := by
    intro ht g hg
    rcases List.mem_append.mp hg with hg | hg
    · exact isThread_exec hexec (ho.client ht f (by simp)) g hg
    · exact ho.client ht g (by simp [hg])
  have hworks : f.readsFlags = false → ∀ g ∈ fs ++ k, g.works = false := by
    intro hf g hg
    rcases List.mem_append.mp hg with hg | hg
    · exact works_exec hexec hf g hg
    · exact hown.2.2.not_works g hg
  have hkeeps : f.clears = false → Keeps m m' := keeps_exec hexec
  have hothers := hsound.others
  have hsame : ∀ t', ∀ o ∈ h t', o ∈ h t' := fun _ _ hmem => hmem
  -- most statements see nothing, mark nothing and read no flags
  have hplain : f.clears = false → f.readsFlags = false → (∀ p, ¬ ToMark m p (f :: k)) →
      Owed (m', h) ∧ Owes (m', h) t (fs ++ k) := fun hf hr hno =>
    owed_keeps (hkeeps hf) hothers hs ho hno hsame hclient (topOwes_of_not_works (hworks hr))
  replace hexec := execFrame_of_exec hexec
  cases f with
  | flagOp op p pc => exact owed_flagOp hexec (hkeeps rfl) hown hs ho hclient (hworks rfl)
  | evictByIdx i p locked =>
    cases locked with
    | false => exact hplain rfl rfl fun _ hto => hto
    | true =>
      refine owed_keeps (hkeeps rfl) hothers hs ho (fun _ hto => hto) hsame hclient ?_
      rcases Option.map_eq_some_iff.mp hexec with ⟨el, hel, heq⟩
      rcases Prod.mk.inj heq with ⟨rfl, rfl⟩
      split_ifs with hdirty
      · trivial
      · exact hs.clean (Memory.el?_eq_some.mp hel) (by simpa using hdirty)
  | work i p evict st => exact owed_work hexec hc hkeeps hothers hown hs ho hclient
  | sync pc =>
    cases pc with
    | lock =>
      refine owed_keeps (hkeeps rfl) hothers hs ho (fun _ hto => hto) ?_ hclient
        (topOwes_of_not_works (hworks rfl))
      intro t' o hmem
      rcases mem_update hmem with ⟨-, hold⟩ | ⟨rfl, hnew⟩
      · exact hold
      · simp at hnew
    | scan i => exact owed_sync_scan hexec hothers hown hs ho hclient
    | _ => exact hplain rfl rfl fun _ hto => hto
  | disable pc =>
    cases pc with
    | lock => exact owed_disable_lock hexec (hkeeps rfl) hown hs hclient
    | scan i => exact owed_disable_scan inp hexec hown hs ho hclient
    | _ => exact hplain rfl rfl fun _ hto => hto
  | thread pc => exact owed_thread hexec (hkeeps rfl) hothers hworks hown hs ho hclient
  | _ => exact hplain rfl rfl fun _ hto => hto

lemma owes_entry {s : Memory × Hist} (hentry : entry f = true) (ho : Owes s t []) :
    Owes s t [f] where
  client _ g hg := by
    obtain rfl : g = f := by simpa using hg
    cases g with
    | thread pc => simp [entry] at hentry
    | _ => rfl
  marked hca t' o hmem := .inl ((ho.marked hca t' o hmem).resolve_right fun hto => hto.2)
  top := by
    refine topOwes_of_not_works ?_
    intro g hg
    obtain rfl : g = f := by simpa using hg
    cases g with
    | work i p evict st => simp [entry] at hentry
    | thread pc => simp [entry] at hentry
    | _ => rfl

/-- The outline, for runs in which the callbacks are there. -/
theorem owed (capacity : ℕ) (on_evict : Bool) :
    StackOutline (system.observe observe) (fun s _ f _ => s.1.calls f = true)
      (fun s => Inv capacity on_evict s.1 ∧ Owed s) (fun s t k => Own s.1 t k ∧ Owes s t k) :=
  ((outline capacity on_evict).observe observe).extend (fun _ => trivial)
    (by
      intro t inp fs hstart s _ ho
      rcases start_eq_some hstart with ⟨n, f, rfl, rfl, hentry, rfl⟩
      exact owes_entry hentry ho)
    (by
      intro s t f k inp s' fs hexec hc hinv hown _ _ hs ho
      rcases System.exec_observe.mp hexec with ⟨hexec, hobs⟩
      have hsound := sound_exec hexec hinv hown
      have hnext := owed_exec hexec hc hsound hown hs ho
      rw [← hobs] at hnext
      exact hnext)
    (by
      intro s t f k inp s' fs hexec hc hinv hown _ _ t' ht k' hown' ho'
      rcases System.exec_observe.mp hexec with ⟨hexec, hobs⟩
      have hstable := (sound_exec hexec hinv hown).others t' ht
      have hnext := owes_bystander (h := s.2) hexec hown hstable ht hown' ho'
      rw [← hobs] at hnext
      exact hnext)

end Outline

end KanekFs.Cache.Machine
