import KanekFs.Cache.Pass

/-!
# The answers of the thread

A pass of the thread that will answer a request visits the table from slot 0 on. Under the step
condition `Attends` it skips no marked element, so behind it nothing is due (`Swept`), and when it
leaves, everything that was seen has been passed (`AllPassed`). The answer is then a flag in
`ca_flags`; a call that waits for it has to know that the flag was not there when it asked.

`answered` is the outline. `Sweeps` is what the thread relies on during a pass, and `Answer` what a
call of `cache_sync` or `cache_disable` relies on after its request.
-/

namespace KanekFs.Cache.Machine

open Threads Run Word

/-! ## The step condition -/

/-- The conditions under which an answer can be relied on. The callbacks that are called are
there, and
* a pass that will answer finds the mutex of a marked element free;
* no client sets the flag of an answer;
* an old answer is not there when a request is made;
* `cache_disable` finds the thread started when it wants to join it. -/
def attends (r : Request) (m : Memory) (f : Frame) : Bool :=
  match r, f with
  | r, .thread (.tryLock _ p flags) =>
    !(r.asked m.ca_flags && flags.evict) || (m.el? p).all fun el => el.ce_mutex = none
  | r, .caFlagOp (.setFlags b) true => !r.done b
  | .loop, .sync .setLoop => !m.ca_flags.loop_done
  | .exit, .disable .lock => !m.ca_flags.evicted
  | .exit, .disable .join => m.ca_tid = some .cacheThread
  | _, _ => true

def Attends (r : Request) (m : Memory) (_ : Tid) (f : Frame) (_ : Input) : Prop :=
  m.calls f = true ∧ attends r m f = true

instance (r : Request) (m : Memory) (t : Tid) (f : Frame) (i : Input) :
    Decidable (Attends r m t f i) := inferInstanceAs (Decidable (_ ∧ _))

/-! ## The outline -/

/-- Everything that was seen has been passed. -/
def AllPassed (s : Memory × Hist) : Prop := ∀ t, ∀ o ∈ s.2 t, Passed o s.1.log

/-- Nothing is due in the slots below `n`. -/
def Swept (s : Memory × Hist) (n : ℕ) : Prop :=
  ∀ j < n, ∀ p, s.1.slot j = some p → Settled s p

/-- What the thread relies on during a pass. -/
def Sweeps (r : Request) (s : Memory × Hist) : List Frame → Prop
  | .thread (.elem i) :: _ | .thread (.read i _) :: _ | .thread (.tryLock i _ _) :: _ =>
    r.asked s.1.ca_flags = true → Swept s i
  | .work i p evict _ :: .thread _ :: _ =>
    r.asked s.1.ca_flags = true → Swept s i ∧ (evict = false → Settled s p)
  | .thread .leave :: _ => r.asked s.1.ca_flags = true → AllPassed s
  | .thread .finish :: _ => s.1.ca_flags.evicted = true
  | _ => True

/-- What `t` saw has been passed. -/
def PassedFor (s : Memory × Hist) (t : Tid) : Prop := ∀ o ∈ s.2 t, Passed o s.1.log

/-- What a call that has made its request relies on. -/
def Answer (r : Request) (s : Memory × Hist) (t : Tid) (f : Frame) : Prop :=
  match r, f with
  | .loop, .sync .wait => s.1.ca_flags.loop_done = true → PassedFor s t
  | .loop, .sync (.clearLock true) | .loop, .sync (.clear true) | .loop, .sync (.ret true) =>
    PassedFor s t
  | .exit, .disable (.scan _) | .exit, .disable .setExit => s.1.ca_flags.evicted = false
  | .exit, .disable .wait | .exit, .disable .join => s.1.ca_flags.evicted = true → PassedFor s t
  | .exit, .disable .destroyMutex | .exit, .disable .freeTable | .exit, .disable .ret =>
    PassedFor s t ∧ s.1.ca_thread_ended = true
  | _, _ => True

/-- The table is freed after the thread has ended, and the thread ends after the answer. -/
structure Lived (r : Request) (s : Memory × Hist) : Prop where
  ended : s.1.ca_thread_ended = true → s.1.ca_flags.evicted = true
  tableFreed : r = .exit → s.1.ca_elements_freed = true → s.1.ca_thread_ended = true

structure Serves (r : Request) (s : Memory × Hist) (t : Tid) (k : List Frame) : Prop where
  sweeps : Sweeps r s k
  answers : ∀ f ∈ k, Answer r s t f
  ended : t = .cacheThread → s.1.ca_thread_ended = true → k = []

section Outline

variable {r : Request} {capacity : ℕ} {on_evict : Bool} {m m' : Memory} {h h' : Hist}
  {t t' : Tid} {p i n : ℕ} {f : Frame} {fs k k' : List Frame} {inp : Input}

lemma sweeps_of_not_thread {s : Memory × Hist} (hk : ∀ g ∈ k, g.isThread = false) :
    Sweeps r s k := by
  cases k with
  | nil => trivial
  | cons g k =>
    have hg := hk g (by simp)
    cases g with
    | thread pc => simp at hg
    | work i p evict st =>
      cases k with
      | nil => trivial
      | cons g' k =>
        have hg' := hk g' (by simp)
        cases g' with
        | thread pc => simp at hg'
        | _ => trivial
    | _ => trivial

lemma Swept.succ {s : Memory × Hist} (hs : Swept s i)
    (hi : ∀ p, s.1.slot i = some p → Settled s p) : Swept s (i + 1) := by
  intro j hj p hp
  rcases Nat.lt_succ_iff_lt_or_eq.mp hj with hlt | rfl
  · exact hs j hlt p hp
  · exact hi p hp

lemma Swept.mono (hs : Swept (m, h) n) (hptr : m'.ca_elements_ptr = m.ca_elements_ptr)
    (hlog : m.log <:+ m'.log) : Swept (m', h) n := by
  intro j hj p hp
  refine Settled.mono (hs j hj p ?_) hlog
  rwa [Memory.slot, hptr] at hp

lemma AllPassed.mono (hs : AllPassed (m, h)) (hlog : m.log <:+ m'.log) : AllPassed (m', h) :=
  fun t o hmem => (hs t o hmem).mono hlog

lemma PassedFor.mono (hs : PassedFor (m, h) t) (hlog : m.log <:+ m'.log) (hh : h' t = h t) :
    PassedFor (m', h') t := by
  intro o hmem
  exact (hs o (by simpa [hh] using hmem)).mono hlog

/-- A pass over the whole table has passed everything. -/
lemma Swept.allPassed (hs : Swept (m, h) n) (hn : m.ca_elements_ptr.length ≤ n)
    (hm : Consistent m) (hmarked : ∀ t, ∀ o ∈ h t, Marked o m) : AllPassed (m, h) := by
  intro t o hmem
  rcases hmarked t o hmem with hpass | ⟨el, hel, -⟩
  · exact hpass
  · rcases hm.slot_of_live hel with ⟨j, hj⟩
    have hlt := (List.getElem?_eq_some_iff.mp (Memory.slot_eq_some.mp hj)).1
    exact hs j (by omega) o.p hj t o hmem rfl

/-- So has one that finds the table empty. -/
lemma allPassed_of_empty (hinv : Inv capacity on_evict m) (hcap : capacity < 2 ^ 31)
    (hm : Consistent m) (huse : m.ca_elements_in_use = 0)
    (hmarked : ∀ t, ∀ o ∈ h t, Marked o m) : AllPassed (m, h) := by
  have hle : m.entries.length ≤ capacity := entries_length_le.trans hinv.length.le
  have hcount := hm.count
  rw [huse, u32_of_lt (by omega)] at hcount
  have hempty : m.entries = [] := List.length_eq_zero_iff.mp hcount.symm
  have hsweep : Swept (m, h) m.ca_elements_ptr.length := by
    intro j _ p hj
    have hp := Memory.mem_entries.mpr ⟨j, hj⟩
    simp [hempty] at hp
  exact hsweep.allPassed le_rfl hm hmarked

/-! ### The flags -/

/-- An answer is given at the end of a pass that has passed everything. -/
lemma done_exec (hexec : exec m t f inp = some (m', fs)) (hc : Attends r m t f inp)
    (hs : Sweeps r (m, h) (f :: k)) (hdone : r.done m'.ca_flags = true) :
    r.done m.ca_flags = true ∨ f = .thread .leave ∧ AllPassed (m, h) := by
  rw [(effect_exec hexec).flags] at hdone
  cases f with
  | thread pc =>
    cases pc with
    | leave =>
      cases hold : r.done m.ca_flags with
      | true => exact .inl rfl
      | false =>
        refine .inr ⟨rfl, hs ?_⟩
        cases r with
        | loop => simpa [Request.done, Request.asked, Frame.caAssign, leaveFlags, show
            m.ca_flags.loop_done = false from hold] using hdone
        | exit => simpa [Request.done, Request.asked, Frame.caAssign, leaveFlags, show
            m.ca_flags.evicted = false from hold] using hdone
    | finish =>
      cases r with
      | loop => simp [Request.done, Frame.caAssign, CaFlags.zero] at hdone
      | exit => exact .inl hs
    | enter =>
      rw [Frame.caAssign] at hdone
      split_ifs at hdone
      · cases r <;> exact .inl hdone
      · exact .inl hdone
    | start => cases r <;> exact .inl hdone
    | _ => exact .inl hdone
  | caFlagOp op locked =>
    cases locked with
    | false => exact .inl hdone
    | true =>
      cases op with
      | setFlags b =>
        have hb : r.done b = false := by
          cases r <;> simpa [attends] using hc.2
        cases r with
        | loop =>
          simpa [Request.done, Frame.caAssign, CaFlagOp.assign, show b.loop_done = false from hb]
            using hdone
        | exit =>
          simpa [Request.done, Frame.caAssign, CaFlagOp.assign, show b.evicted = false from hb]
            using hdone
      | clearLoopDone =>
        cases r with
        | loop => simp [Request.done, Frame.caAssign, CaFlagOp.assign] at hdone
        | exit => exact .inl hdone
      | pause => cases r <;> exact .inl hdone
      | clearPause => cases r <;> exact .inl hdone
  | sync pc =>
    cases pc with
    | setLoop => cases r <;> exact .inl hdone
    | clear rc =>
      cases r with
      | loop => simp [Request.done, Frame.caAssign] at hdone
      | exit => exact .inl hdone
    | _ => exact .inl hdone
  | disable pc =>
    cases pc with
    | setExit => cases r <;> exact .inl hdone
    | _ => exact .inl hdone
  | _ => exact .inl hdone

/-- `CACHE_EVICTED` stays. -/
lemma evicted_exec (hexec : exec m t f inp = some (m', fs)) (h : m.ca_flags.evicted = true) :
    m'.ca_flags.evicted = true := by
  rw [(effect_exec hexec).flags]
  cases f with
  | thread pc =>
    cases pc with
    | enter =>
      rw [Frame.caAssign]
      split_ifs <;> exact h
    | leave => simp [Frame.caAssign, leaveFlags, h]
    | finish => rfl
    | _ => exact h
  | caFlagOp op locked =>
    cases locked with
    | false => exact h
    | true => cases op <;> simp [Frame.caAssign, CaFlagOp.assign, h]
  | sync pc => cases pc <;> exact h
  | disable pc => cases pc <;> exact h
  | _ => exact h

/-- Only the thread, and calls that have `ca_mutex`, make requests or withdraw them. -/
lemma asked_exec (hexec : exec m t f inp = some (m', fs)) (hf : f.isThread = false)
    (hin : f.inCa = false) : r.asked m'.ca_flags = r.asked m.ca_flags := by
  rw [(effect_exec hexec).flags]
  cases f with
  | thread pc => simp at hf
  | caFlagOp op locked =>
    obtain rfl : locked = false := hin
    rfl
  | sync pc => cases pc <;> first | rfl | simp [Frame.inCa] at hin
  | disable pc => cases pc <;> first | rfl | simp [Frame.inCa] at hin
  | _ => rfl

/-! ### Steps of other threads -/

/-- The assertion of a pass, when neither the table nor the request changes. -/
lemma Sweeps.mono (hs : Sweeps r (m, h) k) (hptr : m'.ca_elements_ptr = m.ca_elements_ptr)
    (hlog : m.log <:+ m'.log) (hasked : r.asked m'.ca_flags = r.asked m.ca_flags)
    (hevicted : m.ca_flags.evicted = true → m'.ca_flags.evicted = true) :
    Sweeps r (m', h) k := by
  have hask : r.asked m'.ca_flags = true → r.asked m.ca_flags = true := fun hr => hasked ▸ hr
  cases k with
  | nil => trivial
  | cons g k =>
    cases g with
    | thread pc =>
      cases pc with
      | elem i => exact fun hr => (hs (hask hr)).mono hptr hlog
      | read i p => exact fun hr => (hs (hask hr)).mono hptr hlog
      | tryLock i p flags => exact fun hr => (hs (hask hr)).mono hptr hlog
      | leave => exact fun hr => (hs (hask hr)).mono hlog
      | finish => exact hevicted hs
      | _ => trivial
    | work i p evict st =>
      cases k with
      | nil => trivial
      | cons g' k =>
        cases g' with
        | thread pc =>
          intro hr
          rcases hs (hask hr) with ⟨hswept, hsettled⟩
          exact ⟨hswept.mono hptr hlog, fun he => (hsettled he).mono hlog⟩
        | _ => trivial
    | _ => trivial

/-- Outside a pass the thread relies on little. -/
lemma sweeps_outside {s s' : Memory × Hist} (hk : k.any Frame.inCa = false)
    (hevicted : s.1.ca_flags.evicted = true → s'.1.ca_flags.evicted = true)
    (hs : Sweeps r s k) : Sweeps r s' k := by
  cases k with
  | nil => trivial
  | cons g k =>
    cases g with
    | thread pc =>
      cases pc with
      | finish => exact hevicted hs
      | start => trivial
      | top => trivial
      | lock => trivial
      | loop => trivial
      | _ => simp [Frame.inCa] at hk
    | work i p evict st => simp [Frame.inCa] at hk
    | _ => trivial

/-- What the thread relies on is not disturbed. -/
lemma sweeps_bystander (hexec : exec m t f inp = some (m', fs)) (hown : Own m t (f :: k))
    (hstable : Stable t' m m') (ht : t' ≠ t) (hown' : Own m t' k')
    (hthread : ∀ g ∈ f :: k, t ≠ .cacheThread → g.isThread = false)
    (hthread' : t' ≠ .cacheThread → ∀ g ∈ k', g.isThread = false)
    (hs : Sweeps r (m, h) k') : Sweeps r (m', observe m t f inp h) k' := by
  by_cases hk : ∀ g ∈ k', g.isThread = false
  · exact sweeps_of_not_thread hk
  · obtain rfl : t' = .cacheThread := by
      by_contra ht'
      exact hk (hthread' ht')
    have hf : f.isThread = false := hthread f (by simp) ht.symm
    cases hin : k'.any Frame.inCa with
    | false => exact sweeps_outside hin (evicted_exec hexec) hs
    | true =>
      -- during a pass it holds `ca_mutex`
      have hca : m.ca_mutex = some .cacheThread := by
        cases k' with
        | nil => simp at hin
        | cons g k' => exact hown'.1.mp hin
      have hout : f.inCa = false := by
        by_contra hself
        exact ht (Option.some.inj (hca.symm.trans (hown.holds (by simpa using hself))))
      rw [observe_bystander hexec hown hca ht]
      exact hs.mono (hstable.ptr hca) hstable.log (asked_exec hexec hf hout) (evicted_exec hexec)

/-- A call that waits goes on to rely on its answer. -/
lemma Answer.mono (ha : Answer r (m, h) t f) (hh : h' t = h t) (hlog : m.log <:+ m'.log)
    (hended : m.ca_thread_ended = true → m'.ca_thread_ended = true)
    (hdone : r.done m'.ca_flags = true → r.done m.ca_flags = true ∨ PassedFor (m, h) t)
    (hin : f.inCa = true → r.done m'.ca_flags = true → r.done m.ca_flags = true) :
    Answer r (m', h') t f := by
  have hpassed : PassedFor (m, h) t → PassedFor (m', h') t := fun hp => hp.mono hlog hh
  have hwait : (r.done m.ca_flags = true → PassedFor (m, h) t) → r.done m'.ca_flags = true →
      PassedFor (m', h') t := fun hw hd => hpassed ((hdone hd).elim hw id)
  have hnot : f.inCa = true → r.done m.ca_flags = false → r.done m'.ca_flags = false := by
    intro hf hold
    by_contra hnew
    have hd := hin hf (by simpa using hnew)
    simp [hold] at hd
  cases r with
  | loop =>
    cases f with
    | sync pc =>
      cases pc with
      | wait => exact hwait ha
      | clearLock rc =>
        cases rc with
        | false => trivial
        | true => exact hpassed ha
      | clear rc =>
        cases rc with
        | false => trivial
        | true => exact hpassed ha
      | ret rc =>
        cases rc with
        | false => trivial
        | true => exact hpassed ha
      | _ => trivial
    | _ => trivial
  | exit =>
    cases f with
    | disable pc =>
      cases pc with
      | lock => trivial
      | scan i => exact hnot rfl ha
      | setExit => exact hnot rfl ha
      | wait => exact hwait ha
      | join => exact hwait ha
      | destroyMutex => exact ⟨hpassed ha.1, hended ha.2⟩
      | freeTable => exact ⟨hpassed ha.1, hended ha.2⟩
      | ret => exact ⟨hpassed ha.1, hended ha.2⟩
    | _ => trivial

lemma ended_exec (hexec : exec m t f inp = some (m', fs)) (h : m.ca_thread_ended = true) :
    m'.ca_thread_ended = true := by
  simp [(effect_exec hexec).ended, h]

/-- A statement sees something for its own thread. -/
lemma observe_other (ht : t' ≠ t) : observe m t f inp h t' = h t' := by
  cases f with
  | sync pc => cases pc <;> simp [observe, Function.update_of_ne ht]
  | disable pc => cases pc <;> simp [observe, Function.update_of_ne ht]
  | _ => rfl

/-- What a thread relies on is not disturbed by the others. -/
lemma serves_bystander (hexec : exec m t f inp = some (m', fs)) (hc : Attends r m t f inp)
    (hown : Own m t (f :: k)) (hstable : Stable t' m m') (ht : t' ≠ t) (hown' : Own m t' k')
    (hthread : t ≠ .cacheThread → ∀ g ∈ f :: k, g.isThread = false)
    (hthread' : t' ≠ .cacheThread → ∀ g ∈ k', g.isThread = false)
    (hs : Serves r (m, h) t (f :: k)) (hs' : Serves r (m, h) t' k') :
    Serves r (m', observe m t f inp h) t' k' where
  sweeps := sweeps_bystander hexec hown hstable ht hown' (fun g hg htc => hthread htc g hg) hthread'
    hs'.sweeps
  answers g hg := by
    refine (hs'.answers g hg).mono (observe_other ht) hstable.log (ended_exec hexec) ?_ ?_
    · intro hdone
      exact (done_exec hexec hc hs.sweeps hdone).imp_right fun hleave => hleave.2 t'
    · intro hin hdone
      refine (done_exec hexec hc hs.sweeps hdone).resolve_right ?_
      rintro ⟨rfl, -⟩
      -- both would have `ca_mutex`
      have hca : m.ca_mutex = some t' := by
        cases k' with
        | nil => simp at hg
        | cons g' k' => exact hown'.1.mp (List.any_eq_true.mpr ⟨g, hg, hin⟩)
      exact ht (Option.some.inj (hca.symm.trans (hown.holds rfl)))
  ended htc hended := by
    subst htc
    refine hs'.ended rfl ?_
    have hnew : m'.ca_thread_ended = true := hended
    rw [(effect_exec hexec).ended] at hnew
    rcases Bool.or_eq_true_iff.mp hnew with hold | hfinish
    · exact hold
    · obtain rfl : f = .thread .finish := by simpa using hfinish
      have hf := hthread ht.symm _ (List.mem_cons_self ..)
      simp at hf

/-! ### Steps of the same thread -/

lemma Sound.log (h : Sound capacity on_evict t m m' k) : m.log <:+ m'.log := by
  cases t with
  | cacheThread => exact (h.others (.client 0) (by simp)).log
  | client n => exact (h.others .cacheThread (by simp)).log

/-- The work on an element goes on to its next stage, clears the entry, or ends without an
eviction. -/
lemma work_next {evict : Bool} {st : Stage} (hexec : execWork m t i p evict st = some (m', fs)) :
    (∃ st', fs = [.work i p evict st']) ∧ m'.ca_elements_ptr = m.ca_elements_ptr ∨
      fs = [] ∧ (st = .clearSlot ∧ m'.ca_elements_ptr = m.ca_elements_ptr.set i none ∨
        st = .release ∧ m'.ca_elements_ptr = m.ca_elements_ptr) := by
  have htable := (outcome_work m' fs hexec).1.table
  cases st with
  | flush | onEvict | decInUse =>
    rcases Prod.mk.inj (Option.some.inj hexec) with ⟨-, rfl⟩
    exact .inl ⟨⟨_, rfl⟩, htable⟩
  | destroy =>
    rcases Option.map_eq_some_iff.mp hexec with ⟨el, -, heq⟩
    rcases Prod.mk.inj heq with ⟨-, rfl⟩
    exact .inl ⟨⟨_, rfl⟩, htable⟩
  -- the last statement, after an eviction and after a flush
  | clearSlot =>
    rcases Prod.mk.inj (Option.some.inj hexec) with ⟨-, rfl⟩
    exact .inr ⟨rfl, .inl ⟨rfl, htable⟩⟩
  | release =>
    rcases frames_of_map hexec with ⟨-, rfl⟩
    exact .inr ⟨rfl, .inr ⟨rfl, htable⟩⟩
  | _ =>
    rcases frames_of_map hexec with ⟨-, rfl⟩
    exact .inl ⟨⟨_, rfl⟩, htable⟩

/-- A statement of the work on an element, during a pass or not. -/
lemma sweeps_work {evict : Bool} {st : Stage} (hexec : execWork m t i p evict st = some (m', fs))
    (hlog : m.log <:+ m'.log) (hflags : m'.ca_flags = m.ca_flags)
    (hown : Own m t (.work i p evict st :: k)) (hs : Sweeps r (m, h) (.work i p evict st :: k)) :
    Sweeps r (m', h) (fs ++ k) := by
  have hnext := work_next hexec
  rcases hown.2.2 with rfl | ⟨-, hk⟩
  · -- the thread goes on with the next slot
    rcases hnext with ⟨⟨st', rfl⟩, hptr⟩ | ⟨rfl, hend⟩
    · exact Sweeps.mono (m := m) (k := [.work i p evict st', .thread (.elem (i + 1))]) hs hptr hlog
        (by rw [hflags]) (by rw [hflags]; exact id)
    · intro hr
      rcases hs (by rwa [hflags] at hr) with ⟨hswept, hsettled⟩
      rcases hend with ⟨rfl, hptr⟩ | ⟨rfl, hptr⟩
      · intro j hj q hq
        have hji : j ≠ i := by
          rintro rfl
          rw [Memory.slot_eq_some, hptr] at hq
          simp [List.getElem?_set] at hq
        have hq' : m.slot j = some q := by
          rw [Memory.slot_eq_some, hptr, List.getElem?_set_ne hji.symm] at hq
          exact Memory.slot_eq_some.mpr hq
        exact (hswept j (by omega) q hq').mono hlog
      · have hi : ∀ q, m.slot i = some q → Settled (m, h) q := by
          intro q hq
          obtain rfl : p = q := Option.some.inj (hown.2.1.1.symm.trans hq)
          exact hsettled hown.2.1.2.2.2
        exact (hswept.succ hi).mono hptr hlog
  · -- an eviction that a client asked for
    refine sweeps_of_not_thread ?_
    have hk' : ∀ g ∈ k, g.isThread = false := by
      rcases hk with rfl | rfl <;> simp
    intro g hg
    rcases List.mem_append.mp hg with hg | hg
    · rcases hnext with ⟨⟨st', rfl⟩, -⟩ | ⟨rfl, -⟩
      · obtain rfl : g = .work i p evict st' := by simpa using hg
        rfl
      · simp at hg
    · exact hk' g hg

/-- A statement of the thread: the pass has swept one slot more. -/
lemma sweeps_thread {pc : ThreadPc} (hexec : execThread m t pc = some (m', fs))
    (hc : Attends r m t (.thread pc) inp) (hcap : capacity < 2 ^ 31)
    (hinv : Inv capacity on_evict m) (hown : Own m t (.thread pc :: k))
    (ho : Owes (m, h) t (.thread pc :: k)) (hs : Sweeps r (m, h) (.thread pc :: k)) :
    Sweeps r (m', h) (fs ++ k) := by
  obtain rfl : k = [] := hown.2.2
  have hmarked : m.ca_mutex = some t → ∀ t', ∀ o ∈ h t', Marked o m := fun hca t' o hmem =>
    (ho.marked hca t' o hmem).resolve_right fun hto => hto.2
  cases pc with
  | start =>
    rcases Prod.mk.inj (Option.some.inj hexec) with ⟨rfl, rfl⟩
    trivial
  | top =>
    rcases Prod.mk.inj (Option.some.inj hexec) with ⟨rfl, rfl⟩
    split_ifs <;> trivial
  | lock =>
    rcases frames_of_map hexec with ⟨-, rfl⟩
    trivial
  | enter =>
    have hca := hown.holds rfl
    rw [execThread] at hexec
    split_ifs at hexec with huse
    · rcases Prod.mk.inj (Option.some.inj hexec) with ⟨rfl, rfl⟩
      exact fun _ j hj => absurd hj (Nat.not_lt_zero j)
    · rcases Prod.mk.inj (Option.some.inj hexec) with ⟨rfl, rfl⟩
      exact fun _ => allPassed_of_empty hinv hcap (hown.2.1 rfl) (by omega) (hmarked hca)
  | elem i =>
    have hca := hown.holds rfl
    rcases scan_cases hexec with ⟨hslot, rfl, rfl⟩ | ⟨p, -, hexec⟩ | ⟨hlen, rfl, rfl⟩
    · exact fun hr => (hs hr).succ fun q hq => absurd (hslot.symm.trans hq) (by simp)
    · rcases Prod.mk.inj (Option.some.inj hexec) with ⟨rfl, rfl⟩
      exact hs
    · exact fun hr => (hs hr).allPassed hlen (hown.2.1 rfl) (hmarked hca)
  | read i p =>
    rcases hown.2.1 with ⟨hm, hslot⟩
    rcases Option.map_eq_some_iff.mp hexec with ⟨el, hel, heq⟩
    rcases Prod.mk.inj heq with ⟨rfl, rfl⟩
    rw [if_pos (hm.active_of_live (Memory.el?_eq_some.mp hel))]
    exact hs
  | tryLock i p flags =>
    rcases hown.2.1 with ⟨hm, hslot⟩
    have hnext : r.asked m.ca_flags = true → flags.evict = false → Swept (m, h) (i + 1) := by
      intro hr hevict
      refine (hs hr).succ ?_
      intro q hq
      obtain rfl : p = q := Option.some.inj (hslot.symm.trans hq)
      exact ho.top.2 hevict
    rcases Option.map_eq_some_iff.mp hexec with ⟨el, hel, heq⟩
    split_ifs at heq with hfree
    · rcases Prod.mk.inj heq with ⟨rfl, rfl⟩
      have hpass : ∀ evict st, (evict = false → flags.evict = false) →
          Sweeps r (m.setEl p { el with ce_mutex := some t }, h)
            [.work i p evict st, .thread (.elem (i + 1))] := by
        intro evict st hevict hr
        exact ⟨(hs hr).mono rfl List.suffix_rfl,
          fun he => (ho.top.2 (hevict he)).mono List.suffix_rfl⟩
      unfold afterTryLock
      split_ifs with hdirty hevict
      · exact hpass _ _ id
      · exact hpass _ _ fun he => by simp at he
      · exact hpass _ _ fun _ => by simpa using hevict
    · rcases Prod.mk.inj heq with ⟨rfl, rfl⟩
      intro hr
      refine hnext hr ?_
      -- a marked element would not be skipped
      by_contra hevict
      have hall : (m.el? p).all (fun el => el.ce_mutex = none) = true := by
        have hskip := hc.2
        cases r <;> simpa [attends, hr, show flags.evict = true by simpa using hevict] using hskip
      exact hfree (by simpa [hel] using hall)
  | leave =>
    rcases Prod.mk.inj (Option.some.inj hexec) with ⟨rfl, rfl⟩
    trivial
  | loop =>
    rcases Prod.mk.inj (Option.some.inj hexec) with ⟨rfl, rfl⟩
    split_ifs with hevicted
    · exact hevicted
    · trivial
  | finish =>
    rcases Prod.mk.inj (Option.some.inj hexec) with ⟨rfl, rfl⟩
    trivial

lemma answer_of_not_asks {s : Memory × Hist} (hf : f.asks = false) : Answer r s t f := by
  cases f with
  | sync pc => simp at hf
  | disable pc => simp at hf
  | _ => cases r <;> trivial

/-- A statement of `cache_sync`. -/
lemma answers_sync {pc : SyncPc} (hexec : execSync m t pc inp = some (m', fs))
    (hc : Attends r m t (.sync pc) inp) (hs : Answer r (m, h) t (.sync pc)) :
    ∀ g ∈ fs, Answer r (m', observe m t (.sync pc) inp h) t g := by
  cases pc with
  | test =>
    rcases Prod.mk.inj (Option.some.inj hexec) with ⟨rfl, rfl⟩
    split_ifs
    · exact List.forall_mem_singleton.mpr (by cases r <;> trivial)
    · exact List.forall_mem_nil _
  | lock =>
    rcases frames_of_map hexec with ⟨-, rfl⟩
    exact List.forall_mem_singleton.mpr (by cases r <;> trivial)
  | scan i =>
    have hscan : ∀ j s, Answer r s t (.sync (.scan j)) := fun j s => by cases r <;> trivial
    rcases scan_cases hexec with ⟨-, rfl, rfl⟩ | ⟨p, -, hexec⟩ | ⟨-, rfl, rfl⟩
    · exact List.forall_mem_singleton.mpr (hscan _ _)
    · rcases Option.map_eq_some_iff.mp hexec with ⟨el, -, heq⟩
      rcases Prod.mk.inj heq with ⟨rfl, rfl⟩
      split_ifs
      · exact List.forall_mem_singleton.mpr (hscan _ _)
      · exact List.forall_mem_cons.mpr
          ⟨answer_of_not_asks rfl, List.forall_mem_singleton.mpr (hscan _ _)⟩
    · exact List.forall_mem_singleton.mpr (by cases r <;> trivial)
  | setLoop =>
    rcases Prod.mk.inj (Option.some.inj hexec) with ⟨rfl, rfl⟩
    refine List.forall_mem_cons.mpr ⟨answer_of_not_asks rfl, List.forall_mem_singleton.mpr ?_⟩
    cases r with
    | exit => trivial
    | loop =>
      -- the flag is not there
      intro hdone
      have hold : m.ca_flags.loop_done = false := by simpa [attends] using hc.2
      exact absurd (hold.symm.trans hdone) (by simp)
  | wait =>
    rcases sync_wait_cases hexec with ⟨rfl, rfl | ⟨rfl, hdone⟩⟩
    · exact List.forall_mem_singleton.mpr (by cases r <;> trivial)
    · refine List.forall_mem_singleton.mpr ?_
      cases r with
      | exit => trivial
      | loop => exact hs hdone
  | clearLock rc =>
    rcases frames_of_map hexec with ⟨hlock, rfl⟩
    rcases Memory.lockCa_eq_some hlock with ⟨-, rfl⟩
    refine List.forall_mem_singleton.mpr ?_
    cases r with
    | exit => trivial
    | loop => cases rc <;> exact hs
  | clear rc =>
    rcases Prod.mk.inj (Option.some.inj hexec) with ⟨rfl, rfl⟩
    refine List.forall_mem_cons.mpr ⟨answer_of_not_asks rfl, List.forall_mem_singleton.mpr ?_⟩
    cases r with
    | exit => trivial
    | loop => cases rc <;> exact hs
  | ret rc =>
    rcases Prod.mk.inj (Option.some.inj hexec) with ⟨rfl, rfl⟩
    exact List.forall_mem_nil _

/-- A statement of `cache_disable`. -/
lemma answers_disable {pc : DisablePc} (hexec : execDisable m t pc inp = some (m', fs))
    (hc : Attends r m t (.disable pc) inp) (hlived : Lived r (m, h))
    (hs : Answer r (m, h) t (.disable pc)) :
    ∀ g ∈ fs, Answer r (m', observe m t (.disable pc) inp h) t g := by
  cases pc with
  | lock =>
    rcases frames_of_map hexec with ⟨hlock, rfl⟩
    rcases Memory.lockCa_eq_some hlock with ⟨-, rfl⟩
    refine List.forall_mem_singleton.mpr ?_
    cases r with
    | loop => trivial
    | exit => exact show m.ca_flags.evicted = false by simpa [attends] using hc.2
  | scan i =>
    have hscan : Answer r (m, h) t (.disable (.scan (i + 1))) := by cases r <;> exact hs
    rcases scan_cases hexec with ⟨-, rfl, rfl⟩ | ⟨p, -, hexec⟩ | ⟨-, rfl, rfl⟩
    · exact List.forall_mem_singleton.mpr hscan
    · rcases Prod.mk.inj (Option.some.inj hexec) with ⟨rfl, rfl⟩
      exact List.forall_mem_cons.mpr
        ⟨answer_of_not_asks rfl, List.forall_mem_singleton.mpr hscan⟩
    · exact List.forall_mem_singleton.mpr (by cases r <;> exact hs)
  | setExit =>
    rcases Prod.mk.inj (Option.some.inj hexec) with ⟨rfl, rfl⟩
    refine List.forall_mem_cons.mpr ⟨answer_of_not_asks rfl, List.forall_mem_singleton.mpr ?_⟩
    cases r with
    | loop => trivial
    | exit =>
      -- the flag is not there
      intro hdone
      have hold : m.ca_flags.evicted = false := hs
      exact absurd (hold.symm.trans hdone) (by simp)
  | wait =>
    have hjoin : Answer r (m, h) t (.disable .join) := by cases r <;> exact hs
    rcases disable_wait_cases hexec with ⟨rfl, rfl⟩
    exact List.forall_mem_singleton.mpr hjoin
  | join =>
    have hpassed : m.ca_tid = some .cacheThread → m.ca_thread_ended = true →
        Answer r (m, h) t (.disable .destroyMutex) := by
      intro _ hended
      cases r with
      | loop => trivial
      | exit => exact ⟨hs (hlived.ended hended), hended⟩
    rw [execDisable] at hexec
    split_ifs at hexec with htid hended
    · rcases Prod.mk.inj (Option.some.inj hexec) with ⟨rfl, rfl⟩
      exact List.forall_mem_singleton.mpr (hpassed htid hended)
    · rcases Prod.mk.inj (Option.some.inj hexec) with ⟨rfl, rfl⟩
      refine List.forall_mem_singleton.mpr ?_
      cases r with
      | loop => trivial
      | exit => exact absurd (by simpa [attends] using hc.2) htid
  | destroyMutex =>
    rcases Prod.mk.inj (Option.some.inj hexec) with ⟨rfl, rfl⟩
    exact List.forall_mem_singleton.mpr (by cases r <;> exact hs)
  | freeTable =>
    rcases Prod.mk.inj (Option.some.inj hexec) with ⟨rfl, rfl⟩
    exact List.forall_mem_singleton.mpr (by cases r <;> exact hs)
  | ret =>
    rcases Prod.mk.inj (Option.some.inj hexec) with ⟨rfl, rfl⟩
    exact List.forall_mem_nil _

lemma sweeps_exec (hcap : capacity < 2 ^ 31) (hexec : exec m t f inp = some (m', fs))
    (hc : Attends r m t f inp) (hinv : Inv capacity on_evict m) (hlog : m.log <:+ m'.log)
    (hown : Own m t (f :: k)) (ho : Owes (m, h) t (f :: k)) (hs : Sweeps r (m, h) (f :: k)) :
    Sweeps r (m', observe m t f inp h) (fs ++ k) := by
  -- away from the thread and its work there is nothing to show
  have hclient : f.isThread = false → (∀ g ∈ k, g.isThread = false) →
      Sweeps r (m', observe m t f inp h) (fs ++ k) := by
    intro hf hk
    refine sweeps_of_not_thread ?_
    intro g hg
    rcases List.mem_append.mp hg with hg | hg
    · exact isThread_exec hexec hf g hg
    · exact hk g hg
  have hflags := (effect_exec hexec).flags
  have hframe := execFrame_of_exec hexec
  cases f with
  | work i p evict st => exact sweeps_work hframe hlog hflags hown hs
  | thread pc => exact sweeps_thread hframe hc hcap hinv hown ho hs
  | unlockCa ret =>
    rcases frames_of_map hframe with ⟨-, rfl⟩
    rcases hown.2.2 with rfl | rfl | ⟨rc, rfl⟩ | rfl | rfl <;> trivial
  | flagOp op p pc =>
    refine hclient rfl ?_
    rcases hown.2.2 with rfl | ⟨-, -, ⟨i, rfl⟩ | ⟨i, rfl⟩⟩ <;> simp
  | evictByIdx i p locked =>
    refine hclient rfl ?_
    rcases hown.2.2 with rfl | rfl <;> simp
  | _ =>
    refine hclient rfl ?_
    obtain rfl : k = [] := hown.2.2
    simp

lemma answers_exec (hexec : exec m t f inp = some (m', fs)) (hc : Attends r m t f inp)
    (hlog : m.log <:+ m'.log) (hown : Own m t (f :: k)) (hlived : Lived r (m, h))
    (hs : Serves r (m, h) t (f :: k)) :
    ∀ g ∈ fs ++ k, Answer r (m', observe m t f inp h) t g := by
  have hself := hs.answers f (List.mem_cons_self ..)
  have hframe := execFrame_of_exec hexec
  have hwaits : f.asks = false → observe m t f inp h = h →
      ∀ g ∈ fs ++ k, Answer r (m', observe m t f inp h) t g := by
    intro hf hobs g hg
    rw [hobs]
    rcases List.mem_append.mp hg with hg | hg
    · exact answer_of_not_asks (asks_exec hexec hf g hg)
    · -- no call waits for the thread
      have hdone : r.done m'.ca_flags = true → r.done m.ca_flags = true := by
        intro hdone
        refine (done_exec hexec hc hs.sweeps hdone).resolve_right ?_
        rintro ⟨rfl, -⟩
        obtain rfl : k = [] := hown.2.2
        simp at hg
      exact (hs.answers g (List.mem_cons_of_mem _ hg)).mono rfl hlog (ended_exec hexec)
        (fun hd => .inl (hdone hd)) fun _ => hdone
  cases f with
  | sync pc =>
    obtain rfl : k = [] := hown.2.2
    rw [List.append_nil]
    exact answers_sync hframe hc hself
  | disable pc =>
    obtain rfl : k = [] := hown.2.2
    rw [List.append_nil]
    exact answers_disable hframe hc hlived hself
  | _ => exact hwaits rfl rfl

/-- Every statement keeps the outline. -/
theorem serves_exec (hcap : capacity < 2 ^ 31) (hexec : exec m t f inp = some (m', fs))
    (hc : Attends r m t f inp) (hinv : Inv capacity on_evict m) (hown : Own m t (f :: k))
    (ho : Owes (m, h) t (f :: k)) (hlived : Lived r (m, h)) (hs : Serves r (m, h) t (f :: k)) :
    Lived r (m', observe m t f inp h) ∧ Serves r (m', observe m t f inp h) t (fs ++ k) := by
  have hlife := effect_exec hexec
  have hlog : m.log <:+ m'.log := (sound_exec hexec hinv hown).log
  refine ⟨⟨?_, ?_⟩, sweeps_exec hcap hexec hc hinv hlog hown ho hs.sweeps,
    answers_exec hexec hc hlog hown hlived hs, ?_⟩
  · -- the thread ends after the answer
    intro hended
    replace hended : m'.ca_thread_ended = true := hended
    rw [hlife.ended] at hended
    rcases Bool.or_eq_true_iff.mp hended with hold | hfinish
    · exact evicted_exec hexec (hlived.ended hold)
    · obtain rfl : f = .thread .finish := by simpa using hfinish
      exact evicted_exec hexec hs.sweeps
  · -- the table is freed after that
    rintro rfl hfreed
    refine ended_exec hexec ?_
    replace hfreed : m'.ca_elements_freed = true := hfreed
    rw [hlife.tableFreed] at hfreed
    rcases Bool.or_eq_true_iff.mp hfreed with hold | hfree
    · exact hlived.tableFreed rfl hold
    · obtain rfl : f = .disable .freeTable := by simpa using hfree
      exact (hs.answers _ (List.mem_cons_self ..)).2
  · -- nothing of the thread is left when it has ended
    intro ht hended
    replace hended : m'.ca_thread_ended = true := hended
    rw [hlife.ended] at hended
    rcases Bool.or_eq_true_iff.mp hended with hold | hfinish
    · exact absurd (hs.ended ht hold) (by simp)
    · obtain rfl : f = .thread .finish := by simpa using hfinish
      obtain rfl : k = [] := hown.2.2
      rcases Prod.mk.inj (Option.some.inj (execFrame_of_exec hexec)) with ⟨-, rfl⟩
      rfl

lemma serves_entry {s : Memory × Hist} (ht : t ≠ .cacheThread) (hentry : entry f = true) :
    Serves r s t [f] where
  sweeps := by
    refine sweeps_of_not_thread (List.forall_mem_singleton.mpr ?_)
    cases f with
    | thread pc => simp [entry] at hentry
    | _ => rfl
  answers := by
    refine List.forall_mem_singleton.mpr ?_
    cases f with
    | sync pc =>
      obtain rfl : pc = .test := by simpa [entry] using hentry
      cases r <;> trivial
    | disable pc =>
      obtain rfl : pc = .lock := by simpa [entry] using hentry
      cases r <;> trivial
    | _ => exact answer_of_not_asks rfl
  ended htc := absurd htc ht

/-- The outline of the requests `r`, on top of that of what is owed. -/
theorem answered (hcap : capacity < 2 ^ 31) (on_evict : Bool) (r : Request) :
    StackOutline (system.observe observe) (fun s t f inp => Attends r s.1 t f inp)
      (fun s => (Inv capacity on_evict s.1 ∧ Owed s) ∧ Lived r s)
      (fun s t k => (Own s.1 t k ∧ Owes s t k) ∧ Serves r s t k) :=
  (owed capacity on_evict).extend (fun hc => hc.1)
    (by
      intro t inp fs hstart s _ _
      rcases start_eq_some hstart with ⟨n, f, rfl, rfl, hentry, rfl⟩
      exact serves_entry (by simp) hentry)
    (by
      intro s t f k inp s' fs hexec hc hinv hown _ _ hlived hs
      rcases System.exec_observe.mp hexec with ⟨hexec, hobs⟩
      have hnext := serves_exec (h := s.2) hcap hexec hc hinv.1 hown.1 hown.2 hlived hs
      rw [← hobs] at hnext
      exact hnext)
    (by
      intro s t f k inp s' fs hexec hc hinv hown _ hs t' ht k' hown' hs'
      rcases System.exec_observe.mp hexec with ⟨hexec, hobs⟩
      have hstable := (sound_exec hexec hinv.1 hown.1).others t' ht
      have hnext := serves_bystander (h := s.2) hexec hc hown.1 hstable ht hown'.1
        hown.2.client hown'.2.client hs hs'
      rw [← hobs] at hnext
      exact hnext)

/-- The cache after `cache_init` and `cache_enable`, with nothing seen. -/
def observedInit (elements_capacity : ℕ) (on_evict on_flush : Bool) :
    Threads.State Tid (Memory × Hist) Frame where
  mem := (cacheInit elements_capacity on_evict on_flush, fun _ => [])
  stack := (init elements_capacity on_evict on_flush).stack

lemma holds_observedInit (capacity : ℕ) (on_evict on_flush : Bool) (r : Request) :
    Holds (fun s => (Inv capacity on_evict s.1 ∧ Owed s) ∧ Lived r s)
      (fun s t k => (Own s.1 t k ∧ Owes s t k) ∧ Serves r s t k)
      (observedInit capacity on_evict on_flush) := by
  rcases holds_init capacity on_evict on_flush with ⟨hinv, hown⟩
  refine ⟨⟨⟨hinv, ?_, ?_⟩, ?_, ?_⟩, ?_⟩
  · simp [observedInit]
  · simp [observedInit]
  · simp [observedInit, cacheInit]
  · simp [observedInit, cacheInit]
  · intro t
    refine ⟨⟨hown t, ?_⟩, ?_⟩
    · cases t with
      | cacheThread => exact ⟨fun ht => absurd rfl ht, by simp [observedInit], trivial⟩
      | client n => exact ⟨by simp [observedInit, init], by simp [observedInit], trivial⟩
    · cases t with
      | cacheThread =>
        exact ⟨trivial, List.forall_mem_singleton.mpr (answer_of_not_asks rfl),
          by simp [observedInit, cacheInit]⟩
      | client n => exact ⟨trivial, List.forall_mem_nil _, by simp⟩

/-- Both outlines together hold of every run that meets the step condition. -/
theorem answered_throughout (hcap : capacity < 2 ^ 31) {on_flush : Bool}
    {as : List (Tid × Input)}
    (hC : Along (system.observe observe).step (Meets fun s t f inp => Attends r s.1 t f inp)
      (observedInit capacity on_evict on_flush) as) :
    Throughout (system.observe observe).step
      (Holds (fun s => (Inv capacity on_evict s.1 ∧ Owed s) ∧ Lived r s)
        (fun s t k => (Own s.1 t k ∧ Owes s t k) ∧ Serves r s t k))
      (observedInit capacity on_evict on_flush) as :=
  (answered hcap on_evict r).throughout (holds_observedInit capacity on_evict on_flush r) hC

end Outline

end KanekFs.Cache.Machine
