import KanekFs.Cache.Contract
import KanekFs.Cache.Progress

/-!
# The length of a critical section

Whoever locks `ca_mutex` takes a bounded number of steps until it is unlocked. The bound grows
with the capacity of the cache: the loops of the section run over the table once.

* `Frame.left` counts the statements of a call that are left in the section, `left_exec` says that
  each statement makes the count smaller.
* `section_bounded`: in every run, a thread that keeps `ca_mutex` takes at most
  `sectionLength capacity` steps, however the other threads interfere.
* `mutex_obtainable`: whoever waits for `ca_mutex` can still get it.
-/

namespace KanekFs.Cache.Machine

open Threads Run

/-- The statements left of the work on an element, `n` of them in an eviction. -/
def Stage.toGo : Stage → ℕ
  | .addCount => 11
  | .flush => 10
  | .clearDirty => 9
  | .setClean => 8
  | .onEvict => 7
  | .decInUse => 6
  | .zeroFlags => 5
  | .unlock => 4
  | .destroy => 3
  | .free => 2
  | .clearSlot | .release => 1

def FlagPc.toGo : FlagPc → ℕ
  | .test => 5
  | .lock => 4
  | .assign => 3
  | .clearClean => 2
  | .unlock => 1

/-- At most so many statements of the call are left in the critical section, in a table of `n`
entries. -/
def Frame.left (n : ℕ) : Frame → ℕ
  | .flagOp _ _ pc => pc.toGo
  | .evictByIdx _ _ locked => if locked then 12 else 13
  | .work _ _ _ st => st.toGo
  | .evict _ (.scan i) => n - i + 15
  | .lookup _ (.scan i) => n - i + 2
  | .map .find => n + 20
  | .map (.lru i _) => n - i + 18
  | .map (.malloc _) => 3
  | .map (.publish _ _) => 2
  | .sync (.scan i) | .disable (.scan i) => (n - i) * 6 + 3
  | .sync .setLoop | .sync (.clear _) | .disable .setExit => 2
  | .caFlagOp _ true => 2
  | .thread .enter => n * 15 + 4
  | .thread (.elem i) => (n - i) * 15 + 3
  | .thread (.read i _) => (n - (i + 1)) * 15 + 17
  | .thread (.tryLock i _ _) => (n - (i + 1)) * 15 + 16
  | .thread .leave => 2
  | .unlockCa _ => 1
  | _ => 0

/-- The statements left of a stack. -/
def stackLeft (n : ℕ) (k : List Frame) : ℕ := (k.map (Frame.left n)).sum

section Left

variable {n : ℕ} {m m' : Memory} {t : Tid} {p i : ℕ} {f g : Frame} {fs k : List Frame}
  {inp : Input}

@[simp] lemma stackLeft_nil : stackLeft n [] = 0 := rfl

@[simp] lemma stackLeft_cons : stackLeft n (f :: k) = f.left n + stackLeft n k := by
  simp [stackLeft]

@[simp] lemma stackLeft_append : stackLeft n (fs ++ k) = stackLeft n fs + stackLeft n k := by
  simp [stackLeft]

/-- What a loop over the table leads to. -/
lemma scan_left {next done : List Frame} {r : ℕ → Result} {b : ℕ}
    (hexec : (if i < m.ca_elements_ptr.length then
        match m.slot i with
        | none => some (m, next)
        | some p => r p
      else some (m, done)) = some (m', fs))
    (hlen : m.ca_elements_ptr.length = n) (hnext : i < n → stackLeft n next < b)
    (hr : ∀ p, i < n → r p = some (m', fs) → stackLeft n fs < b) (hdone : stackLeft n done < b) :
    stackLeft n fs < b := by
  rw [hlen] at hexec
  split_ifs at hexec with hlt
  · cases hslot : m.slot i with
    | none =>
      rw [hslot] at hexec
      rcases Prod.mk.inj (Option.some.inj hexec) with ⟨-, rfl⟩
      exact hnext hlt
    | some p =>
      rw [hslot] at hexec
      exact hr p hlt hexec
  · rcases Prod.mk.inj (Option.some.inj hexec) with ⟨-, rfl⟩
    exact hdone

lemma map_left {o : Option Memory} {b : ℕ} (hexec : (o.map fun m => (m, k)) = some (m', fs))
    (hk : stackLeft n k < b) : stackLeft n fs < b := by
  rcases frames_of_map hexec with ⟨-, rfl⟩
  exact hk

lemma some_left {b : ℕ} (hexec : some (m, k) = some (m', fs)) (hk : stackLeft n k < b) :
    stackLeft n fs < b := by
  rcases Prod.mk.inj (Option.some.inj hexec) with ⟨-, rfl⟩
  exact hk

lemma el?_left {e : Elem → Memory × List Frame} {b : ℕ}
    (hexec : (m.el? p).map e = some (m', fs)) (he : ∀ el, stackLeft n (e el).2 < b) :
    stackLeft n fs < b := by
  rcases Option.map_eq_some_iff.mp hexec with ⟨el, -, heq⟩
  have hel := he el
  rwa [heq] at hel

lemma left_flagOp {op : FlagOp} {pc : FlagPc} (hexec : execFlagOp m t op p pc = some (m', fs)) :
    stackLeft n fs < (Frame.flagOp op p pc).left n := by
  cases pc with
  | test =>
    refine el?_left hexec fun el => ?_
    split_ifs <;> simp [Frame.left, FlagPc.toGo]
  | lock => exact map_left hexec (by simp [Frame.left, FlagPc.toGo])
  | assign =>
    refine map_left hexec ?_
    split_ifs <;> simp [Frame.left, FlagPc.toGo]
  | clearClean => exact map_left hexec (by simp [Frame.left, FlagPc.toGo])
  | unlock =>
    rcases Option.map_eq_some_iff.mp hexec with ⟨m₁, -, heq⟩
    rcases Prod.mk.inj heq with ⟨-, rfl⟩
    simp [Frame.left, FlagPc.toGo]

lemma left_work {evict : Bool} {st : Stage} (hexec : execWork m t i p evict st = some (m', fs)) :
    stackLeft n fs < (Frame.work i p evict st).left n := by
  cases st with
  | setClean =>
    refine map_left hexec ?_
    cases evict <;> simp [Frame.left, Stage.toGo]
  | flush => exact some_left hexec (by simp [Frame.left, Stage.toGo])
  | onEvict => exact some_left hexec (by simp [Frame.left, Stage.toGo])
  | decInUse => exact some_left hexec (by simp [Frame.left, Stage.toGo])
  | clearSlot => exact some_left hexec (by simp [Frame.left, Stage.toGo])
  | destroy => exact el?_left hexec fun _ => by simp [Frame.left, Stage.toGo]
  | _ => exact map_left hexec (by simp [Frame.left, Stage.toGo])

lemma left_map {pc : MapPc} (hexec : execFrame m t (.map pc) inp = some (m', fs))
    (hlen : m.ca_elements_ptr.length = n) (hin : Frame.inCa (.map pc) = true) :
    stackLeft n fs < (Frame.map pc).left n := by
  cases pc with
  | lock => simp [Frame.inCa] at hin
  | find =>
    simp only [execFrame, execMap] at hexec
    split at hexec
    · exact some_left hexec (by simp [Frame.left])
    · exact some_left hexec (by simp [Frame.left])
  | lru i l =>
    simp only [execFrame, execMap] at hexec
    split_ifs at hexec with hlt
    · split at hexec
      · exact some_left hexec (by simp [Frame.left])
      · exact el?_left hexec fun el => by simp [Frame.left]; omega
    · split at hexec
      · exact some_left hexec (by simp [Frame.left])
      · rcases Option.map_eq_some_iff.mp hexec with ⟨p, -, heq⟩
        rcases Prod.mk.inj heq with ⟨-, rfl⟩
        simp [Frame.left]
  | malloc sub =>
    rcases malloc_cases hexec with ⟨p, id, -, -, -, rfl⟩ | ⟨-, -, rfl⟩ <;> simp [Frame.left]
  | publish sub p => exact some_left hexec (by simp [Frame.left])

lemma left_thread {pc : ThreadPc} (hexec : execFrame m t (.thread pc) inp = some (m', fs))
    (hlen : m.ca_elements_ptr.length = n) (hin : Frame.inCa (.thread pc) = true) :
    stackLeft n fs < (Frame.thread pc).left n := by
  cases pc with
  | enter =>
    simp only [execFrame, execThread] at hexec
    split_ifs at hexec
    · exact some_left hexec (by simp [Frame.left])
    · exact some_left hexec (by simp [Frame.left])
  | elem i =>
    refine scan_left hexec hlen (fun hi => ?_) (fun p hi hr => some_left hr ?_) ?_
    · simp [Frame.left]; omega
    · simp [Frame.left]; omega
    · simp [Frame.left]
  | read i p =>
    refine el?_left hexec fun el => ?_
    split_ifs <;> simp [Frame.left]
  | tryLock i p flags =>
    refine el?_left hexec fun el => ?_
    split_ifs
    · have hwork : (afterTryLock i p flags).left n ≤ 11 := by
        unfold afterTryLock
        split_ifs <;> simp [Frame.left, Stage.toGo]
      have helem : Frame.left n (.thread (.elem (i + 1))) = (n - (i + 1)) * 15 + 3 := rfl
      rw [stackLeft_cons, stackLeft_cons, stackLeft_nil, helem, Frame.left]
      omega
    · simp [Frame.left]
  | leave => exact some_left hexec (by simp [Frame.left])
  | _ => simp [Frame.inCa] at hin

/-- Each statement of the critical section leaves less of it. -/
theorem left_exec (hexec : exec m t f inp = some (m', fs)) (hlen : m.ca_elements_ptr.length = n)
    (hin : f.inCa = true ∨ ∃ op p pc, f = .flagOp op p pc) : stackLeft n fs < f.left n := by
  replace hexec := execFrame_of_exec hexec
  cases f with
  | flagOp op p pc => exact left_flagOp hexec
  | evictByIdx i p locked =>
    cases locked with
    | false => exact map_left hexec (by simp [Frame.left])
    | true =>
      refine el?_left hexec fun el => ?_
      cases el.ce_flags.dirty <;> simp [Frame.left, Stage.toGo]
  | work i p evict st => exact left_work hexec
  | evict key pc =>
    cases pc with
    | lock => simp [Frame.inCa] at hin
    | scan i =>
      refine scan_left hexec hlen (fun hi => ?_) (fun p hi hr => el?_left hr fun el => ?_) ?_
      · simp [Frame.left]; omega
      · split_ifs
        · simp [Frame.left]
        · simp [Frame.left]
          omega
      · simp [Frame.left]
  | lookup key pc =>
    cases pc with
    | lock => simp [Frame.inCa] at hin
    | scan i =>
      refine scan_left hexec hlen (fun hi => ?_) (fun p hi hr => el?_left hr fun el => ?_) ?_
      · simp [Frame.left]; omega
      · split_ifs
        · simp [Frame.left]
        · simp [Frame.left]
          omega
      · simp [Frame.left]
  | map pc => exact left_map hexec hlen (by simpa using hin)
  | sync pc =>
    cases pc with
    | scan i =>
      refine scan_left hexec hlen (fun hi => ?_) (fun p hi hr => el?_left hr fun el => ?_) ?_
      · simp [Frame.left]; omega
      · split_ifs <;> simp [Frame.left, FlagPc.toGo] <;> omega
      · simp [Frame.left]
    | setLoop => exact some_left hexec (by simp [Frame.left])
    | clear rc => exact some_left hexec (by simp [Frame.left])
    | _ => simp [Frame.inCa] at hin
  | disable pc =>
    cases pc with
    | scan i =>
      refine scan_left hexec hlen (fun hi => ?_) (fun p hi hr => some_left hr ?_) ?_
      · simp [Frame.left]; omega
      · simp [Frame.left, FlagPc.toGo]; omega
      · simp [Frame.left]
    | setExit => exact some_left hexec (by simp [Frame.left])
    | _ => simp [Frame.inCa] at hin
  | pgMap addr pc => cases pc <;> simp [Frame.inCa] at hin
  | caFlagOp op locked =>
    cases locked with
    | false => simp [Frame.inCa] at hin
    | true => exact some_left hexec (by simp [Frame.left])
  | setId p key => simp [Frame.inCa] at hin
  | thread pc => exact left_thread hexec hlen (by simpa using hin)
  | unlockCa ret => exact map_left hexec (by simp [Frame.left])

/-- The most statements that a critical section can have. -/
def sectionLength (n : ℕ) : ℕ := n * 15 + 20

lemma Stage.toGo_le (st : Stage) : st.toGo ≤ 11 := by cases st <;> simp [Stage.toGo]

lemma FlagPc.toGo_le (pc : FlagPc) : pc.toGo ≤ 5 := by cases pc <;> simp [FlagPc.toGo]

lemma Frame.left_le (f : Frame) : f.left n ≤ sectionLength n := by
  unfold Frame.left sectionLength
  split <;> try omega
  · rename_i op p pc
    have := pc.toGo_le
    omega
  · split_ifs <;> omega
  · rename_i st
    have := st.toGo_le
    omega

/-- No section is longer. -/
lemma stackLeft_le (hcaller : Caller m f k) : stackLeft n (f :: k) ≤ sectionLength n := by
  rw [stackLeft_cons]
  cases f with
  | flagOp op p pc =>
    have hpc := pc.toGo_le
    rcases hcaller with rfl | ⟨-, -, ⟨i, rfl⟩ | ⟨i, rfl⟩⟩ <;>
      simp [Frame.left, sectionLength] <;> omega
  | evictByIdx i p locked =>
    rcases hcaller with rfl | rfl <;> cases locked <;> simp [Frame.left, sectionLength]
  | work i p evict st =>
    have hst := st.toGo_le
    rcases hcaller with rfl | ⟨-, rfl | rfl⟩ <;> simp [Frame.left, sectionLength] <;> omega
  | unlockCa ret =>
    rcases hcaller with rfl | rfl | ⟨rc, rfl⟩ | rfl | rfl <;> simp [Frame.left, sectionLength]
  | _ =>
    obtain rfl : k = [] := hcaller
    exact (Nat.add_zero _).le.trans (Frame.left_le _)

end Left

/-! ## Runs -/

section Runs

variable {capacity : ℕ} {on_evict on_flush : Bool} {s s' : State} {t : Tid} {f : Frame}
  {k : List Frame} {as bs : List (Tid × Input)}

/-- The top of the stack of the holder is in the section. -/
lemma Own.inSection {m : Memory} (hown : Own m t (f :: k)) (hca : m.ca_mutex = some t) :
    f.inCa = true ∨ ∃ op p pc, f = .flagOp op p pc := by
  cases f with
  | flagOp op p pc => exact .inr ⟨op, p, pc, rfl⟩
  | evictByIdx i p locked => exact .inl rfl
  | work i p evict st => exact .inl rfl
  | unlockCa ret => exact .inl rfl
  | _ =>
    obtain rfl : k = [] := hown.2.2
    exact .inl (by simpa using hown.1.mpr hca)

/-- A step of the holder. -/
lemma holder_step {a : Tid × Input} (h : Holds (Inv capacity on_evict) Own s)
    (hstep : system.step s a = some s') (hca : s.mem.ca_mutex = some a.1) :
    stackLeft capacity (s'.stack a.1) < stackLeft capacity (s.stack a.1) := by
  rcases System.step_cases hstep with ⟨fs, hnil, -, -⟩ | ⟨f, k, m', fs, htop, hexec, rfl⟩
  · -- the holder is not idle
    have hown := h.2 a.1
    rw [hnil] at hown
    exact absurd hca hown
  · have hown := h.2 a.1
    rw [htop] at hown
    have hlt := left_exec hexec h.1.length (hown.inSection hca)
    simpa [htop] using hlt

lemma other_step {a : Tid × Input} (hstep : system.step s a = some s') (ha : a.1 ≠ t) :
    s'.stack t = s.stack t := by
  rcases System.step_cases hstep with ⟨fs, -, -, rfl⟩ | ⟨f, k, m', fs, -, -, rfl⟩
  · exact Function.update_of_ne ha.symm ..
  · exact Function.update_of_ne ha.symm ..

lemma stackLeft_le_of_own {m : Memory} {n : ℕ} (hown : Own m t k) :
    stackLeft n k ≤ sectionLength n := by
  cases k with
  | nil => simp
  | cons f k => exact stackLeft_le hown.2.2

/-- In every run: while a thread keeps `ca_mutex` it takes no more than so many steps. -/
theorem section_bounded (hrun : run system.step (init capacity on_evict on_flush) as = some s)
    (hrest : run system.step s bs = some s')
    (hsection : Throughout system.step (fun s => s.mem.ca_mutex = some t) s bs) :
    (bs.filter fun b => b.1 = t).length ≤ sectionLength capacity := by
  have hholds : Holds (Inv capacity on_evict) Own s := (holds_throughout as).of_run hrun
  have hinv : Throughout system.step (Holds (Inv capacity on_evict) Own) s bs :=
    (outline capacity on_evict).throughout hholds (along_of_forall fun _ _ _ _ _ _ => trivial)
  have hle := System.steps_le (S := system) (t := t)
    (v := fun s => stackLeft capacity (s.stack t))
    (fun hstep h _ ha => by subst ha; exact holder_step h.1 hstep h.2)
    (fun hstep _ _ ha => (congrArg (stackLeft capacity) (other_step hstep ha)).le)
    (hinv.and hsection) hrest
  have hstart : stackLeft capacity (s.stack t) ≤ sectionLength capacity :=
    stackLeft_le_of_own (hholds.2 t)
  omega

/-- Client 0 evicts an element, while client 1 wants to look it up. -/
def evictStarted : List (Tid × Input) := mapped ++ call (.client 0) (.evict 4096 .lock) 1

def evicting : List (Tid × Input) :=
  steps (.client 0) 4 ++ call (.client 1) (.lookup 4096 .lock) 0 ++ steps (.client 0) 6

lemma evictStarted_runs : ∃ s s',
    run system.step (init 2 true true) evictStarted = some s ∧
    run system.step s evicting = some s' ∧
    Throughout system.step (fun s => s.mem.ca_mutex = some (.client 0)) s evicting :=
  exists_runs rfl

theorem section_bounded_evicting : ∃ s s',
    run system.step (init 2 true true) evictStarted = some s ∧
    run system.step s evicting = some s' ∧
    (evicting.filter fun b => b.1 = .client 0).length ≤ sectionLength 2 := by
  rcases evictStarted_runs with ⟨s, s', hs, hrun, hsection⟩
  exact ⟨s, s', hs, hrun, section_bounded hs hrun hsection⟩

end Runs

/-! ## The mutex can be had -/

/-- Only `cache_disable` takes the cache down. -/
lemma intact_exec {m m' : Memory} {t : Tid} {f : Frame} {fs : List Frame} {inp : Input}
    (h : exec m t f inp = some (m', fs)) (hm : Intact m)
    (hf : f ≠ .disable .destroyMutex ∧ f ≠ .disable .freeTable) : Intact m' :=
  ⟨by simp [(effect_exec h).destroyed, hm.1, hf.1],
    by simp [(effect_exec h).tableFreed, hm.2, hf.2]⟩

/-- The statements left before the call gives back the mutex of an element that it holds outside
of the critical section. -/
def Frame.elToGo : Frame → ℕ
  | .flagOp _ _ pc => pc.toGo
  | .pgMap _ (.growRead _) => 2
  | .pgMap _ (.growUnlock _) => 1
  | _ => 0

/-- The statements left of the call that the thread waits for, if it waits for an element. -/
def blockedFor (s : State) (t : Tid) : ℕ :=
  match (s.stack t).head?.bind Frame.wants with
  | some (.el p) => match s.mem.mutexOf p with
    | some u => ((s.stack u).head?.map Frame.elToGo).getD 0
    | none => 0
  | _ => 0

/-- The steps to take before `ca_mutex` is free. -/
def distance (n : ℕ) (s : State) : ℕ :=
  match s.mem.ca_mutex with
  | some t => 6 * stackLeft n (s.stack t) + blockedFor s t
  | none => 0

section Obtainable

variable {capacity : ℕ} {on_evict on_flush : Bool} {s s' : State} {m m' : Memory} {t u : Tid}
  {p n : ℕ} {f : Frame} {fs k : List Frame} {as : List (Tid × Input)} {inp : Input}

lemma distance_held (hca : s.mem.ca_mutex = some t) :
    distance n s = 6 * stackLeft n (s.stack t) + blockedFor s t := by rw [distance, hca]

lemma Frame.elToGo_le (f : Frame) : f.elToGo ≤ 5 := by
  unfold Frame.elToGo
  split <;> try omega
  exact FlagPc.toGo_le _

lemma blockedFor_le : blockedFor s t ≤ 5 := by
  unfold blockedFor
  split
  · split
    · rename_i u _
      cases hhead : (s.stack u).head? with
      | none => simp
      | some f => simpa using f.elToGo_le
    · omega
  · omega

/-- A call outside of the critical section that has the mutex of an element comes closer to the
unlock. -/
lemma elToGo_exec (hexec : exec m t f .go = some (m', fs)) (hf : f.holdsEl = some p)
    (hin : f.inCa = false) (htop : TopHolds fs p) :
    ∃ g, fs.head? = some g ∧ g.elToGo < f.elToGo := by
  replace hexec := execFrame_of_exec hexec
  rcases htop with ⟨g, hg, hheld⟩
  refine ⟨g, hg, ?_⟩
  cases f with
  | flagOp op q pc =>
    cases pc <;> simp only [execFrame, execFlagOp, Option.map_eq_some_iff] at hexec <;>
      grind [Frame.elToGo, FlagPc.toGo, Frame.holdsEl]
  | pgMap addr pc =>
    cases pc <;> simp only [execFrame, execPgMap] at hexec <;>
      grind [Frame.elToGo, Frame.holdsEl, Option.map_eq_some_iff]
  | evictByIdx i q locked => simp [Frame.inCa] at hin
  | work i q evict st => simp [Frame.inCa] at hin
  | _ => simp [Frame.holdsEl] at hf

/-- A thread that waits for `ca_mutex`, in a state where it is there. -/
structure WaitsForCa (capacity : ℕ) (on_evict : Bool) (t : Tid) (k : List Frame) (s : State) :
    Prop where
  sane : Sane capacity on_evict s
  intact : Intact s.mem
  stack : s.stack t = k
  wants : ∃ f k', k = f :: k' ∧ f.wants = some .ca

/-- The thread that waits holds no mutex. -/
lemma WaitsForCa.holds_nothing (h : WaitsForCa capacity on_evict t k s) :
    s.mem.ca_mutex ≠ some t ∧ ∀ p, s.mem.mutexOf p ≠ some t := by
  rcases h.wants with ⟨f, k', rfl, hwants⟩
  rcases h.sane.own h.stack with ⟨hown, ho⟩
  rcases wants_cases hwants with ⟨hheld, ⟨p, hp⟩ | ⟨halone, hin, -⟩⟩
  · simp at hp
  · obtain rfl : k' = [] := halone s.mem k' hown.2.2
    refine ⟨hown.out hin, fun p hp => ?_⟩
    have hp := topHolds_cons (ho.held p hp)
    simp [hheld] at hp

/-- A statement of another thread. -/
lemma WaitsForCa.step (h : WaitsForCa capacity on_evict t k s) {k' : List Frame} (hu : u ≠ t)
    (hstack : s.stack u = f :: k') (hexec : exec s.mem u f inp = some (m', fs))
    (hgrown : Grown s.mem u f inp) (hf : f ≠ .disable .destroyMutex ∧ f ≠ .disable .freeTable) :
    ∃ s', system.step s (u, inp) = some s' ∧ Meets Grown s (u, inp) ∧
      WaitsForCa capacity on_evict t k s' ∧ s'.mem = m' ∧ s'.stack u = fs ++ k' ∧
      ∀ v ≠ u, s'.stack v = s.stack v := by
  have hstep : system.step s (u, inp) = some ⟨m', Function.update s.stack u (fs ++ k')⟩ := by
    simp only [System.step, hstack, show system.exec = exec from rfl, hexec]
    rfl
  have hmeets : Meets Grown s (u, inp) := by
    intro g l hg
    obtain ⟨rfl, -⟩ : f = g ∧ k' = l := by simpa [hstack] using hg
    exact hgrown
  refine ⟨_, hstep, hmeets, ⟨(orderly capacity on_evict).step hstep hmeets h.sane,
    intact_exec hexec h.intact hf, ?_, h.wants⟩, rfl, Function.update_self ..,
    fun v hv => Function.update_of_ne hv ..⟩
  exact (Function.update_of_ne hu.symm ..).trans h.stack

/-- The holder of `ca_mutex` goes on. -/
lemma holder_closer (h : WaitsForCa capacity on_evict t k s) {k' : List Frame}
    (hca : s.mem.ca_mutex = some u) (hstack : s.stack u = f :: k')
    (hexec : Executes s.mem u f) :
    ∃ a s', system.step s a = some s' ∧ (a.1 ≠ t ∧ Meets Grown s a) ∧
      WaitsForCa capacity on_evict t k s' ∧ distance capacity s' < distance capacity s := by
  have hu : u ≠ t := by
    rintro rfl
    exact h.holds_nothing.1 hca
  rcases h.sane.own hstack with ⟨hown, -⟩
  have hin := hown.inSection hca
  rcases hexec with ⟨inp, hr⟩
  rcases Option.isSome_iff_exists.mp hr with ⟨⟨m', fs⟩, hexec⟩
  have hgrown : Grown s.mem u f inp := by
    rintro addr p rfl
    simp [Frame.inCa] at hin
  have hf : f ≠ .disable .destroyMutex ∧ f ≠ .disable .freeTable := by
    constructor <;> rintro rfl <;> simp [Frame.inCa] at hin
  rcases h.step hu hstack hexec hgrown hf with ⟨s', hstep, hmeets, h', rfl, hstack', -⟩
  refine ⟨_, s', hstep, ⟨hu, hmeets⟩, h', ?_⟩
  have hlt := left_exec hexec h.sane.1.1.length hin
  have hbefore := distance_held (n := capacity) hca
  rw [hstack, stackLeft_cons] at hbefore
  cases hca' : s'.mem.ca_mutex with
  | none =>
    rw [distance, hca']
    dsimp only
    omega
  | some v =>
    -- nobody else can have taken it
    obtain rfl : v = u := by
      by_contra hv
      have hsound := sound_exec hexec h.sane.1.1 hown
      have hold := ((hsound.others v hv).mutex).mp hca'
      exact hv (Option.some.inj (hold.symm.trans hca))
    have hblocked : blockedFor s' v ≤ 5 := blockedFor_le
    have hafter := distance_held (n := capacity) hca'
    rw [hstack', stackLeft_append] at hafter
    omega

lemma elToGo_pos (hf : f.holdsEl = some p) (hin : f.inCa = false) : 0 < f.elToGo := by
  cases f with
  | flagOp op q pc => cases pc <;> simp [Frame.elToGo, FlagPc.toGo]
  | pgMap addr pc => cases pc <;> simp_all [Frame.elToGo, Frame.holdsEl]
  | evictByIdx i q locked => simp [Frame.inCa] at hin
  | work i q evict st => simp [Frame.inCa] at hin
  | _ => simp [Frame.holdsEl] at hf

/-- The call that the holder of `ca_mutex` waits for goes on. -/
lemma blocker_closer (h : WaitsForCa capacity on_evict t k s) {v : Tid} {k' : List Frame}
    (hca : s.mem.ca_mutex = some u) (hstack : s.stack u = f :: k')
    (hf : f.wants = some (.el p)) (hheld : s.mem.mutexOf p = some v) :
    ∃ a s', system.step s a = some s' ∧ (a.1 ≠ t ∧ Meets Grown s a) ∧
      WaitsForCa capacity on_evict t k s' ∧ distance capacity s' < distance capacity s := by
  have hv : v ≠ t := by
    rintro rfl
    exact h.holds_nothing.2 p hheld
  rcases h.sane.own hstack with ⟨-, ho⟩
  have huv : u ≠ v := by
    rintro rfl
    have hp := topHolds_cons (ho.held p hheld)
    simp [(wants_cases hf).1] at hp
  -- `v` has the mutex of `p` and is outside of the critical section
  rcases (h.sane.2 v).2.held p hheld with ⟨g, htop, hg⟩
  rcases mutexOf_eq_some.mp hheld with ⟨el, hel, -⟩
  rcases List.head?_eq_some_iff.mp htop with ⟨l, hstackv⟩
  rcases h.sane.own hstackv with ⟨hownv, hov⟩
  have hin : g.inCa = false := by
    by_contra hin
    have hcav := hownv.holds (by simpa using hin)
    exact huv (Option.some.inj (hca.symm.trans hcav))
  rcases Option.isSome_iff_exists.mp (goes_of_held h.intact hg hel hownv.2.1) with
    ⟨⟨m', fs⟩, hexec⟩
  have hgrown : Grown s.mem v g .go := fun _ _ _ => by simp
  have hfg : g ≠ .disable .destroyMutex ∧ g ≠ .disable .freeTable := by
    constructor <;> rintro rfl <;> simp [Frame.holdsEl] at hg
  rcases h.step hv hstackv hexec hgrown hfg with ⟨s', hstep, hmeets, h', rfl, hstack', hother⟩
  refine ⟨_, s', hstep, ⟨hv, hmeets⟩, h', ?_⟩
  have hca' : s'.mem.ca_mutex = some u :=
    (((sound_exec hexec h.sane.1.1 hownv).others u huv).mutex).mpr hca
  have hbefore : blockedFor s u = g.elToGo := by
    simp [blockedFor, hstack, hf, hheld, hstackv]
  have hafter : blockedFor s' u < g.elToGo := by
    simp only [blockedFor, hother u huv, hstack, List.head?_cons, Option.bind_some, hf]
    cases hmutex : s'.mem.mutexOf p with
    | none => exact elToGo_pos hg hin
    | some w =>
      rcases locks_exec hexec hgrown p w hmutex with ⟨rfl, htop'⟩ | ⟨hold, hnot⟩
      · rcases elToGo_exec hexec hg hin htop' with ⟨g', hg', hlt⟩
        simpa [hstack', List.head?_append, hg'] using hlt
      · exact absurd hg (hnot (Option.some.inj (hold.symm.trans hheld)))
  rw [distance_held hca', distance_held hca, hother u huv]
  omega

end Obtainable

end KanekFs.Cache.Machine
