import KanekFs.Cache.Pinned

/-!
# Elements that were looked up

`cache_lookup` and a hit of `pgcache_element_map` return an element that nobody else may be using,
and do not look at `CACHE_EL_EVICT`: the element may be on its way out already. If it is not
(`Unclaimed`), it stays until somebody asks for an eviction (`requests`).
-/

namespace KanekFs.Cache.Machine

open Threads Run

/-- The step issues a request that can concern the element at `p`: it starts a call of
`cache_sync`, `cache_disable`, `cache_element_evict`, or `cache_element_mark_eviction` for it, or it
is `cache_element_map` that finds the table full and goes for an eviction. -/
def requests (p : ℕ) (s : State) (a : Tid × Input) : Bool :=
  match s.stack a.1, a.2 with
  | [], .call (.sync _) | [], .call (.disable _) | [], .call (.evict _ _) => true
  | [], .call (.flagOp .markEviction q _) => q = p
  | .map .find :: _, _ => (s.mem.ca_elements_ptr.findIdx? Option.isNone).isNone
  | _, _ => false

/-- The element that the step returns to the caller, if it ends a call of `cache_lookup` or of
`cache_element_map`, or a hit of `pgcache_element_map`. -/
def returns (s : State) (a : Tid × Input) : Option ℕ :=
  match s.stack a.1 with
  | [.unlockCa ret] => ret
  | [.pgMap _ (.ret ret)] => ret
  | _ => none

/-- The element at `p` is there, it is not marked for eviction, and no call has chosen it or still
looks for elements where it is. -/
structure Unclaimed (s : State) (p : ℕ) : Prop where
  live : ∃ el, s.mem.heap p = .live el ∧ el.ce_flags.evict = false ∧ el.ce_flags.active = true
  calls : ∀ t, ∀ f ∈ s.stack t, f.chose s.mem p = false ∧ f.mayChoose s.mem p = false

section Step

variable {capacity : ℕ} {on_evict on_flush : Bool} {m m' : Memory} {s s' : State} {t : Tid}
  {p : ℕ} {f g : Frame} {fs k : List Frame} {inp : Input} {a : Tid × Input}

lemma mayChoose_congr (h : g.inCa = true → m'.ca_elements_ptr = m.ca_elements_ptr) :
    g.mayChoose m' p = g.mayChoose m p := by
  cases g with
  | sync pc =>
    cases pc with
    | scan i => simp only [Frame.mayChoose, Memory.ahead, h rfl]
    | _ => rfl
  | disable pc =>
    cases pc with
    | scan i => simp only [Frame.mayChoose, Memory.ahead, h rfl]
    | _ => rfl
  | evict key pc =>
    cases pc with
    | scan i => simp only [Frame.mayChoose, Memory.ahead, h rfl]
    | lock => rfl
  | map pc =>
    cases pc with
    | lru i l => simp only [Frame.mayChoose, Memory.ahead, h rfl]
    | _ => rfl
  | _ => rfl

/-- A call that waits goes on where it was. -/
lemma Caller.mayChoose (hk : Caller m f k) (hexec : exec m t f inp = some (m', fs)) :
    ∀ g ∈ k, g.mayChoose m' p = g.mayChoose m p := by
  cases f with
  | flagOp op q pc => exact fun g _ => mayChoose_congr fun _ => (effect_exec hexec).table
  | evictByIdx i q locked => rcases hk with rfl | rfl <;> simp [Frame.mayChoose]
  | work i q evict st => rcases hk with rfl | ⟨-, rfl | rfl⟩ <;> simp [Frame.mayChoose]
  | unlockCa ret => exact fun g _ => mayChoose_congr fun _ => (effect_exec hexec).table
  | _ =>
    obtain rfl : k = [] := hk
    simp

/-- An element that no call has chosen keeps its flags. -/
lemma live_exec (hexec : exec m t f inp = some (m', fs)) (hown : Own m t (f :: k))
    (hf : f.chose m p = false)
    (hlive : ∃ el, m.heap p = .live el ∧ el.ce_flags.evict = false ∧ el.ce_flags.active = true) :
    ∃ el, m'.heap p = .live el ∧ el.ce_flags.evict = false ∧ el.ce_flags.active = true := by
  rcases hlive with ⟨el, hel, hevict, hactive⟩
  have hcell := (effect_exec hexec).cells p
  rw [hel] at hcell
  generalize m'.heap p = c' at hcell ⊢
  cases hcell with
  | @assigned _ el' hfl =>
    refine ⟨el', rfl, ?_⟩
    rw [hfl]
    have hassigned := assigned f p el.ce_flags
    generalize f.assigns p el.ce_flags = fl' at hassigned
    cases hassigned with
    | flagOp op =>
      cases op with
      | markEviction => simp [Frame.chose, FlagPc.toAssign] at hf
      | _ => exact ⟨hevict, hactive⟩
    | zeroFlags i ev =>
      -- the work has come to a removal, and is one for an eviction
      obtain rfl : ev = true := hown.2.1.2.2.2.2
      simp [Frame.chose] at hf
    | _ => exact ⟨hevict, hactive⟩
  | removed hfrees =>
    cases f with
    | work i q ev st =>
      cases st with
      | free =>
        obtain rfl : p = q := hfrees
        obtain rfl : ev = true := hown.2.1.2.2.2.2
        simp [Frame.chose] at hf
      | _ => exact hfrees.elim
    | _ => exact hfrees.elim

lemma unclaimed_start (hu : Unclaimed s p) (hnil : s.stack t = []) (hstart : start t inp = some fs)
    (hno : requests p s (t, inp) = false) :
    Unclaimed ⟨s.mem, Function.update s.stack t fs⟩ p := by
  rcases start_eq_some hstart with ⟨n, f, rfl, rfl, hentry, rfl⟩
  refine ⟨hu.live, ?_⟩
  intro t' g hg
  by_cases ht : t' = .client n
  · subst ht
    obtain rfl : g = f := by simpa using hg
    cases g with
    | flagOp op q pc =>
      cases op with
      | markEviction =>
        have hqp : q ≠ p := by simpa [requests, hnil] using hno
        exact ⟨by simp [Frame.chose, hqp], rfl⟩
      | _ => exact ⟨rfl, rfl⟩
    | evict key pc => simp [requests, hnil] at hno
    | disable pc => simp [requests, hnil] at hno
    | sync pc => simp [requests, hnil] at hno
    | map pc =>
      obtain rfl : pc = .lock := by simpa [entry] using hentry
      exact ⟨rfl, rfl⟩
    | evictByIdx i q locked => simp [entry] at hentry
    | work i q evict st => simp [entry] at hentry
    | thread pc => simp [entry] at hentry
    | _ => exact ⟨rfl, rfl⟩
  · exact hu.calls t' g (by simpa [Function.update_of_ne ht] using hg)

lemma unclaimed_exec (hown : Holds (Inv capacity on_evict) Own s) (hu : Unclaimed s p)
    (hstack : s.stack t = f :: k) (hexec : exec s.mem t f inp = some (m', fs))
    (hno : requests p s (t, inp) = false) :
    Unclaimed ⟨m', Function.update s.stack t (fs ++ k)⟩ p := by
  have hself : Own s.mem t (f :: k) := hstack ▸ hown.2 t
  have hsound := sound_exec hexec hown.1 hself
  rcases hu.calls t f (by simp [hstack]) with ⟨hchose, hmay⟩
  refine ⟨live_exec hexec hself hchose hu.live, ?_⟩
  intro t' g hg
  by_cases ht : t' = t
  · subst ht
    replace hg : g ∈ fs ++ k := by simpa using hg
    rcases List.mem_append.mp hg with hg | hg
    · have horigin := choice_exec m' fs hexec g hg p
      constructor
      · by_contra hg'
        cases horigin.1 (by simpa using hg') with
        | already h => simp [hchose] at h
        | unpinned h _ _ => simp [hmay] at h
        | any h _ => simp [hmay] at h
        | marked _ hel hevict =>
          rcases hu.live with ⟨el, hel', hnot, -⟩
          obtain rfl := live_inj hel hel'
          simp [hnot] at hevict
      · by_contra hg'
        rcases horigin.2 (by simpa using hg') with h | ⟨rfl, hfull⟩
        · simp [hmay] at h
        · simp [requests, hstack, hfull] at hno
    · refine ⟨hself.2.2.not_chose g hg m', ?_⟩
      rw [hself.2.2.mayChoose hexec g hg]
      exact (hu.calls t' g (by simp [hstack, hg])).2
  · replace hg : g ∈ s.stack t' := by simpa [Function.update_of_ne ht] using hg
    rcases hu.calls t' g hg with ⟨hc, hm⟩
    have hptr : g.inCa = true → m'.ca_elements_ptr = s.mem.ca_elements_ptr := fun hin =>
      (hsound.others t' ht).ptr (own_inCa (hown.2 t') hg hin)
    refine ⟨?_, (mayChoose_congr hptr).trans hm⟩
    rw [← hc]
    exact chose_congr fun hin i => by rw [Memory.slot, Memory.slot, hptr hin]

/-- A step that issues no request leaves the element alone. -/
theorem unclaimed_step (hstep : system.step s a = some s') (hno : requests p s a = false)
    (hown : Holds (Inv capacity on_evict) Own s) (hu : Unclaimed s p) : Unclaimed s' p := by
  rcases System.step_cases hstep with ⟨fs, hnil, hstart, rfl⟩ | ⟨f, k, m', fs, hstack, hexec, rfl⟩
  · exact unclaimed_start hu hnil hstart hno
  · exact unclaimed_exec hown hu hstack hexec hno

/-- To return an element is no request. -/
lemma requests_of_returns (hret : returns s a = some p) : requests p s a = false := by
  unfold returns at hret
  unfold requests
  split at hret <;> simp_all

end Step

/-! ## Runs -/

section Runs

variable {capacity : ℕ} {on_evict on_flush : Bool} {as bs : List (Tid × Input)} {s s' : State}
  {a : Tid × Input} {p : ℕ}

/-- The element at `p` is not freed in a run that issues no request for it. -/
def Stays (p : ℕ) (s : State) (bs : List (Tid × Input)) : Prop :=
  Along system.step (fun s a => requests p s a = false) s bs →
    Throughout system.step (fun s => s.mem.heap p ≠ .freed) s bs

/-- In every run, an element that is `Unclaimed` when it is returned is not freed before somebody
asks for it. -/
theorem looked_up_element_stays
    (hrun : run system.step (init capacity on_evict on_flush) as = some s)
    (hret : returns s a = some p) (hfree : Unclaimed s p) (hstep : system.step s a = some s') :
    Stays p s' bs := by
  have hown : Holds (Inv capacity on_evict) Own s := (holds_throughout as).of_run hrun
  have hown' : Holds (Inv capacity on_evict) Own s' :=
    (outline capacity on_evict).step hstep (fun _ _ _ => trivial) hown
  have hfree' := unclaimed_step hstep (requests_of_returns hret) hown hfree
  intro hno
  refine (run_invariant (P := fun s => Holds (Inv capacity on_evict) Own s ∧ Unclaimed s p) ?_
    ⟨hown', hfree'⟩ hno).mono ?_
  · rintro s a s' hs hnot ⟨hown, hu⟩
    exact ⟨(outline capacity on_evict).step hs (fun _ _ _ => trivial) hown,
      unclaimed_step hs hnot hown hu⟩
  · rintro s ⟨-, hu⟩ hfreed
    rcases hu.live with ⟨el, hel, -⟩
    simp [hfreed] at hel

/-- Client 1 looks the element up. -/
def lookedUp : List (Tid × Input) := mapped ++ call (.client 1) (.lookup 4096 .lock) 2

/-- The same, after client 0 has marked it for eviction. -/
def lookedUpMarked : List (Tid × Input) :=
  mapped ++ call (.client 0) (.flagOp .markEviction 4096 .test) 4 ++
    call (.client 1) (.lookup 4096 .lock) 2

/-- Nothing was asked for: the element is still there after a pass of the thread. -/
theorem looked_up_element_stays_pass :
    ∃ s s', run system.step (init 1 true true) lookedUp = some s ∧
      returns s (.client 1, .go) = some 4096 ∧ system.step s (.client 1, .go) = some s' ∧
      Throughout system.step (fun s => s.mem.heap 4096 ≠ .freed) s' (steps .cacheThread 11) := by
  have hrun : (run system.step (init 1 true true) lookedUp).map (fun s =>
      (s.stack .cacheThread, s.stack (.client 0), s.stack (.client 1),
        (s.mem.el? 4096).map fun el => el.ce_flags)) =
      some ([.thread .start], [], [.unlockCa (some 4096)], some .mapped) := by decide +kernel
  have hnext : ((run system.step (init 1 true true) lookedUp).bind fun s =>
      (system.step s (.client 1, .go)).map fun s' =>
        decide (Along system.step (fun s a => requests 4096 s a = false) s'
          (steps .cacheThread 11))) = some true := by decide +kernel
  rcases Option.map_eq_some_iff.mp hrun with ⟨s, hs, heq⟩
  simp only [Prod.mk.injEq, Option.map_eq_some_iff] at heq
  rcases heq with ⟨hthread, hclient₀, hclient₁, el, hel, hflags⟩
  rw [hs, Option.bind_some] at hnext
  rcases Option.map_eq_some_iff.mp hnext with ⟨s', hs', hno⟩
  have hret : returns s (.client 1, .go) = some 4096 := by simp [returns, hclient₁]
  refine ⟨s, s', hs, hret, hs',
    looked_up_element_stays hs hret ⟨?_, ?_⟩ hs' (of_decide_eq_true hno)⟩
  · exact ⟨el, Memory.el?_eq_some.mp hel, by rw [hflags]; rfl, by rw [hflags]; rfl⟩
  · intro t f hf
    cases t with
    | cacheThread =>
      obtain rfl : f = .thread .start := by simpa [hthread] using hf
      exact ⟨rfl, rfl⟩
    | client n =>
      by_cases hn : n = 0 ∨ n = 1
      · rcases hn with rfl | rfl
        · simp [hclient₀] at hf
        · obtain rfl : f = .unlockCa (some 4096) := by simpa [hclient₁] using hf
          exact ⟨rfl, rfl⟩
      · -- no other client has taken a step
        have hclients : ∀ a ∈ lookedUp, a.1 = .client 0 ∨ a.1 = .client 1 := by decide
        have hidle := System.run_stack hs (t := .client n) (by
          intro a ha hat
          rcases hclients a ha with h | h
          · exact hn (.inl (Tid.client.inj (hat.symm.trans h)))
          · exact hn (.inr (Tid.client.inj (hat.symm.trans h))))
        simp [hidle, init] at hf

/-- The element is returned, nobody asks for anything, and a pass of the thread frees it. -/
theorem lookup_returns_doomed_element :
    ∃ s s', run system.step (init 1 true true) lookedUpMarked = some s ∧
      returns s (.client 1, .go) = some 4096 ∧ system.step s (.client 1, .go) = some s' ∧
      ¬ Stays 4096 s' (steps .cacheThread 13) := by
  have hrun : ((run system.step (init 1 true true) lookedUpMarked).bind fun s =>
      (system.step s (.client 1, .go)).bind fun s' =>
      (run system.step s' (steps .cacheThread 13)).map fun s'' =>
        (returns s (.client 1, .go), (s''.mem.heap 4096).shape,
          decide (Along system.step (fun s a => requests 4096 s a = false) s'
            (steps .cacheThread 13)))) = some (some 4096, some none, true) := by decide +kernel
  rcases Option.bind_eq_some_iff.mp hrun with ⟨s, hs, hrun⟩
  rcases Option.bind_eq_some_iff.mp hrun with ⟨s', hs', hrun⟩
  rcases Option.map_eq_some_iff.mp hrun with ⟨s'', hs'', heq⟩
  simp only [Prod.mk.injEq, decide_eq_true_eq] at heq
  rcases heq with ⟨hret, hshape, hno⟩
  refine ⟨s, s', hs, hret, hs', ?_⟩
  intro hstays
  exact (hstays hno).of_run hs'' (Cell.shape_eq_freed.mp hshape)

end Runs

end KanekFs.Cache.Machine
