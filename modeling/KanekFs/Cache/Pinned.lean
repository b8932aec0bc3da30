import KanekFs.Cache.Choice
import KanekFs.Cache.Contract

/-!
# Pinned elements

`CACHE_EL_PIN` is tested when an element is chosen, and `cache_element_pin` asks nobody whether the
element was chosen already. So a pinned element can be evicted. It is not in the runs where an
element is pinned only as long as it is not chosen (`pinOk`): there `Unpinned` is an invariant, and
`pinned_elements_stay` follows.
-/

namespace KanekFs.Cache.Machine

open Threads Run

/-- The calls of a run without `cache_disable`, `cache_element_evict` and a
`cache_element_mark_eviction` of a client. -/
def keepsPinned : Input → Bool
  | .call (.disable _) | .call (.evict _ _) | .call (.flagOp .markEviction _ _) => false
  | _ => true

/-- The call that has `ca_mutex` has chosen the element at `p`. -/
def chosenByHolder (s : State) (p : ℕ) : Bool :=
  match s.mem.ca_mutex with
  | none => false
  | some t => (s.stack t).any (Frame.chose s.mem p)

/-- The element that `cache_element_pin` pins is not marked for eviction, nor chosen, nor on its
way out. -/
def pinOk (s : State) (a : Tid × Input) : Bool :=
  match s.stack a.1 with
  | .flagOp .pin p .assign :: _ => !chosenByHolder s p &&
    (s.mem.el? p).all fun el => !el.ce_flags.evict && el.ce_flags.active
  | _ => true

/-- No element is pinned while it is being evicted. -/
def PinnedStay (s : State) : Prop :=
  ∀ t i p st k, s.stack t = .work i p true st :: k →
    ∀ el, s.mem.heap p = .live el → el.ce_flags.pin = false

/-- The element at `p`, if there is one, is not pinned. -/
def NotPinned (m : Memory) (p : ℕ) : Prop := ∀ el, m.heap p = .live el → el.ce_flags.pin = false

/-- A chosen element is not pinned. -/
structure Unpinned (s : State) : Prop where
  flags : ∀ p el, s.mem.heap p = .live el →
    el.ce_flags.evict = true ∨ el.ce_flags.active = false → el.ce_flags.pin = false
  chosen : ∀ t, ∀ f ∈ s.stack t, ∀ p, f.chose s.mem p = true → NotPinned s.mem p
  demands : ∀ t, ∀ f ∈ s.stack t, f.demands = false
  marks : ∀ t, ∀ f ∈ (s.stack t).getLast?, f.marks = false

section Step

variable {capacity : ℕ} {on_evict on_flush : Bool} {m m' : Memory} {s s' : State} {t t' : Tid}
  {p : ℕ} {el el' : Elem} {f g : Frame} {fs k k' : List Frame} {inp : Input}

/-- Where the flag of a pinned element comes from. -/
lemma pinned_exec (hexec : exec m t f inp = some (m', fs)) (hel : m'.heap p = .live el')
    (hpin : el'.ce_flags.pin = true) :
    (∃ el, m.heap p = .live el ∧ el.ce_flags.pin = true) ∨ f = .flagOp .pin p .assign := by
  rcases flags_exec hexec hel with hfl | ⟨el, hold, hfl⟩
  · simp [hfl, ElFlags.mapped] at hpin
  · rw [hfl] at hpin
    have hassigned := assigned f p el.ce_flags
    generalize f.assigns p el.ce_flags = fl' at hassigned hpin
    cases hassigned with
    | flagOp op =>
      cases op with
      | pin => exact .inr rfl
      | markUnpin => simp [FlagOp.assign] at hpin
      | markDirty => exact .inl ⟨el, hold, hpin⟩
      | markEviction => exact .inl ⟨el, hold, hpin⟩
    | zeroFlags i ev => simp [ElFlags.zero] at hpin
    | _ => exact .inl ⟨el, hold, hpin⟩

/-- Where the flags of a pinned element on its way out come from. -/
lemma leaving_exec (hexec : exec m t f inp = some (m', fs)) (hel : m'.heap p = .live el')
    (hleave : el'.ce_flags.evict = true ∨ el'.ce_flags.active = false)
    (hpin : el'.ce_flags.pin = true) :
    (∃ el, m.heap p = .live el ∧ (el.ce_flags.evict = true ∨ el.ce_flags.active = false)) ∨
      f = .flagOp .markEviction p .assign := by
  rcases flags_exec hexec hel with hfl | ⟨el, hold, hfl⟩
  · simp [hfl, ElFlags.mapped] at hpin
  · rw [hfl] at hpin hleave
    have hassigned := assigned f p el.ce_flags
    generalize f.assigns p el.ce_flags = fl' at hassigned hpin hleave
    cases hassigned with
    | flagOp op =>
      cases op with
      | markEviction => exact .inr rfl
      | pin => exact .inl ⟨el, hold, hleave⟩
      | markUnpin => exact .inl ⟨el, hold, hleave⟩
      | markDirty => exact .inl ⟨el, hold, hleave⟩
    | zeroFlags i ev => simp [ElFlags.zero] at hpin
    | _ => exact .inl ⟨el, hold, hleave⟩

/-! ### Stacks -/

/-- A choice is in the hands of the call on top. -/
lemma Caller.not_chose (hk : Caller m f k) : ∀ g ∈ k, ∀ m₁ : Memory, g.chose m₁ p = false := by
  cases f with
  | flagOp op q pc =>
    rcases hk with rfl | ⟨-, -, ⟨i, rfl⟩ | ⟨i, rfl⟩⟩ <;> simp [Frame.chose]
  | evictByIdx i q locked => rcases hk with rfl | rfl <;> simp [Frame.chose]
  | work i q evict st => rcases hk with rfl | ⟨-, rfl | rfl⟩ <;> simp [Frame.chose]
  | unlockCa ret =>
    rcases hk with rfl | rfl | ⟨rc, rfl⟩ | rfl | rfl <;> simp [Frame.chose]
  | _ =>
    obtain rfl : k = [] := hk
    simp

lemma chose_congr (h : g.inCa = true → ∀ i, m'.slot i = m.slot i) :
    g.chose m' p = g.chose m p := by
  cases g with
  | map pc =>
    cases pc with
    | lru i l => simp only [Frame.chose, h rfl]
    | _ => rfl
  | flagOp op q pc => cases op <;> rfl
  | thread pc => cases pc <;> rfl
  | _ => rfl

lemma own_inCa (hown : Own m t k) (hg : g ∈ k) (hin : g.inCa = true) : m.ca_mutex = some t := by
  cases k with
  | nil => simp at hg
  | cons f k => exact hown.1.mp (List.any_eq_true.mpr ⟨g, hg, hin⟩)

/-- A call that has chosen an element has `ca_mutex`, unless a client marks it. -/
lemma chose_holder (hown : Own m t k) (hmarks : ∀ f ∈ k.getLast?, f.marks = false) (hg : g ∈ k)
    (hchose : g.chose m p = true) : m.ca_mutex = some t := by
  cases g with
  | flagOp op q pc =>
    cases op with
    | markEviction =>
      cases k with
      | nil => simp at hg
      | cons f k =>
        rcases List.mem_cons.mp hg with rfl | hg'
        · rcases hown.2.2 with rfl | ⟨-, -, ⟨i, rfl⟩ | ⟨i, rfl⟩⟩
          · have hmark := hmarks (.flagOp .markEviction q pc) (by simp)
            simp at hmark
          · exact own_inCa (g := .sync (.scan i)) hown (by simp) rfl
          · exact own_inCa (g := .disable (.scan i)) hown (by simp) rfl
        · simp [hown.2.2.not_chose _ hg'] at hchose
    | _ => simp [Frame.chose] at hchose
  | evictByIdx i q locked => exact own_inCa hown hg rfl
  | work i q evict st => exact own_inCa hown hg rfl
  | map pc =>
    cases pc with
    | lru i l => exact own_inCa hown hg rfl
    | _ => simp [Frame.chose] at hchose
  | thread pc =>
    cases pc with
    | tryLock i q fl => exact own_inCa hown hg rfl
    | _ => simp [Frame.chose] at hchose
  | _ => simp [Frame.chose] at hchose

/-- `cache_sync` waits for the marks that it makes. -/
lemma sync_last {pc : SyncPc} (hexec : execSync m t pc inp = some (m', fs)) :
    ∀ g ∈ fs.getLast?, g.marks = false := by
  cases pc with
  | test =>
    rcases Prod.mk.inj (Option.some.inj hexec) with ⟨-, rfl⟩
    split_ifs <;> simp
  | lock =>
    rcases frames_of_map hexec with ⟨-, rfl⟩
    simp
  | scan i =>
    rcases scan_cases hexec with ⟨-, -, rfl⟩ | ⟨p, -, hexec⟩ | ⟨-, -, rfl⟩
    · simp
    · rcases Option.map_eq_some_iff.mp hexec with ⟨el, -, heq⟩
      rcases Prod.mk.inj heq with ⟨-, rfl⟩
      split_ifs <;> simp
    · simp
  | setLoop =>
    rcases Prod.mk.inj (Option.some.inj hexec) with ⟨-, rfl⟩
    simp
  | wait =>
    rcases sync_wait_cases hexec with ⟨-, rfl | ⟨rfl, -⟩⟩
    · simp
    · simp
  | clearLock rc =>
    rcases frames_of_map hexec with ⟨-, rfl⟩
    simp
  | clear rc =>
    rcases Prod.mk.inj (Option.some.inj hexec) with ⟨-, rfl⟩
    simp
  | ret rc =>
    rcases Prod.mk.inj (Option.some.inj hexec) with ⟨-, rfl⟩
    simp

/-- No mark of a client appears. -/
lemma marks_exec (hexec : exec m t f inp = some (m', fs)) (hdemands : f.demands = false)
    (hmarks : ∀ g ∈ (f :: k).getLast?, g.marks = false) :
    ∀ g ∈ (fs ++ k).getLast?, g.marks = false := by
  cases k with
  | cons g k => simpa using hmarks
  | nil =>
    rw [List.append_nil]
    cases f with
    | sync pc => exact sync_last (execFrame_of_exec hexec)
    | disable pc => simp at hdemands
    | _ =>
      intro g hg
      by_contra hmark
      have hold := (leadsTo_exec hexec g (List.mem_of_getLast? hg)).marks rfl
        (by simpa using hmark)
      have hnot := hmarks _ rfl
      exact absurd (hold.symm.trans hnot) (by simp)

/-! ### The invariant -/

/-- An element that is pinned after the step was not on its way out before. -/
lemma not_leaving (hu : Unpinned s)
    (hstack : s.stack t = f :: k) (hexec : exec s.mem t f inp = some (m', fs))
    (hok : pinOk s (t, inp) = true) (hel : m'.heap p = .live el')
    (hpin : el'.ce_flags.pin = true) :
    ∃ el, s.mem.heap p = .live el ∧ el.ce_flags.evict = false ∧ el.ce_flags.active = true ∧
      (el.ce_flags.pin = true ∨ f = .flagOp .pin p .assign ∧ chosenByHolder s p = false) := by
  rcases pinned_exec hexec hel hpin with ⟨el, hold, hp⟩ | rfl
  · -- it was pinned before
    have hstay : ¬ (el.ce_flags.evict = true ∨ el.ce_flags.active = false) := by
      intro hleave
      exact absurd (hp.symm.trans (hu.flags p el hold hleave)) (by simp)
    simp only [not_or, Bool.not_eq_true, Bool.not_eq_false] at hstay
    exact ⟨el, hold, hstay.1, hstay.2, .inl hp⟩
  · -- it is being pinned
    rcases flags_exec hexec hel with hfl | ⟨el, hold, -⟩
    · simp [hfl, ElFlags.mapped] at hpin
    · simp only [pinOk, hstack, Memory.el?_eq_some.mpr hold, Option.all_some, Bool.and_eq_true,
        Bool.not_eq_eq_eq_not, Bool.not_true] at hok
      exact ⟨el, hold, hok.2.1, hok.2.2, .inr ⟨rfl, hok.1⟩⟩

lemma unpinned_start (hu : Unpinned s) (hstart : start t inp = some fs)
    (hinp : keepsPinned inp = true) : Unpinned ⟨s.mem, Function.update s.stack t fs⟩ := by
  rcases start_eq_some hstart with ⟨n, f, rfl, rfl, hentry, rfl⟩
  have hf : (∀ p, f.chose s.mem p = false) ∧ f.demands = false ∧ f.marks = false := by
    cases f with
    | flagOp op q pc => cases op <;> simp [keepsPinned, Frame.chose] at hinp ⊢
    | evict key pc => simp [keepsPinned] at hinp
    | disable pc => simp [keepsPinned] at hinp
    | map pc =>
      obtain rfl : pc = .lock := by simpa [entry] using hentry
      exact ⟨fun _ => rfl, rfl, rfl⟩
    | evictByIdx i q locked => simp [entry] at hentry
    | work i q evict st => simp [entry] at hentry
    | thread pc => simp [entry] at hentry
    | _ => exact ⟨fun _ => rfl, rfl, rfl⟩
  refine ⟨hu.flags, ?_, ?_, ?_⟩
  · intro t' g hg p hchose
    by_cases ht : t' = .client n
    · subst ht
      obtain rfl : g = f := by simpa using hg
      simp [hf.1] at hchose
    · exact hu.chosen t' g (by simpa [Function.update_of_ne ht] using hg) p hchose
  · intro t' g hg
    by_cases ht : t' = .client n
    · subst ht
      obtain rfl : g = f := by simpa using hg
      exact hf.2.1
    · exact hu.demands t' g (by simpa [Function.update_of_ne ht] using hg)
  · intro t' g hg
    by_cases ht : t' = .client n
    · subst ht
      obtain rfl : g = f := by simpa using hg.symm
      exact hf.2.2
    · exact hu.marks t' g (by simpa [Function.update_of_ne ht] using hg)

lemma unpinned_exec (hown : Holds (Inv capacity on_evict) Own s) (hu : Unpinned s)
    (hstack : s.stack t = f :: k) (hexec : exec s.mem t f inp = some (m', fs))
    (hok : pinOk s (t, inp) = true) : Unpinned ⟨m', Function.update s.stack t (fs ++ k)⟩ := by
  have hself : Own s.mem t (f :: k) := hstack ▸ hown.2 t
  have hsound := sound_exec hexec hown.1 hself
  have hf : f ∈ s.stack t := by simp [hstack]
  have hdemands := hu.demands t f hf
  refine ⟨?_, ?_, ?_, ?_⟩
  · intro p el' hel hleave
    by_contra hpin
    replace hpin : el'.ce_flags.pin = true := by simpa using hpin
    rcases not_leaving hu hstack hexec hok hel hpin with ⟨el, hold, he, ha, hwas⟩
    rcases leaving_exec hexec hel hleave hpin with ⟨el₁, hold₁, hleave₁⟩ | rfl
    · obtain rfl : el = el₁ := live_inj hold hold₁
      simp [he, ha] at hleave₁
    · -- it is being marked, by a call that chose it
      have hnot := hu.chosen t _ hf p (by simp [Frame.chose, FlagPc.toAssign]) el hold
      rcases hwas with hp | ⟨heq, -⟩
      · simp [hnot] at hp
      · simp at heq
  · intro t' g hg p hchose el' hel
    by_contra hpin
    replace hpin : el'.ce_flags.pin = true := by simpa using hpin
    rcases not_leaving hu hstack hexec hok hel hpin with ⟨el, hold, he, ha, hwas⟩
    -- whoever had chosen it before
    have hbefore : ∀ t₁, ∀ g₁ ∈ s.stack t₁, g₁.chose s.mem p = true → False := by
      intro t₁ g₁ hg₁ hchose₁
      rcases hwas with hp | ⟨-, hholder⟩
      · simp [hu.chosen t₁ g₁ hg₁ p hchose₁ el hold] at hp
      · have hca := chose_holder (hown.2 t₁) (hu.marks t₁) hg₁ hchose₁
        simp only [chosenByHolder, hca, List.any_eq_false] at hholder
        exact hholder g₁ hg₁ hchose₁
    by_cases ht : t' = t
    · subst ht
      replace hg : g ∈ fs ++ k := by simpa using hg
      rcases List.mem_append.mp hg with hg | hg
      · cases (choice_exec m' fs hexec g hg p).1 hchose with
        | already h => exact hbefore t' f hf h
        | @unpinned hmay el₁ hel₁ hp =>
          obtain rfl : el = el₁ := live_inj hold hel₁
          rcases hwas with hp' | ⟨rfl, -⟩
          · simp [hp] at hp'
          · simp [Frame.mayChoose] at hmay
        | any hmay hany =>
          rcases hany with ⟨key, pc, rfl⟩ | ⟨pc, rfl⟩ <;> simp at hdemands
        | @marked i hread el₁ hel₁ hevict =>
          obtain rfl : el = el₁ := live_inj hold hel₁
          simp [he] at hevict
      · simp [hself.2.2.not_chose g hg] at hchose
    · replace hg : g ∈ s.stack t' := by simpa [Function.update_of_ne ht] using hg
      refine hbefore t' g hg ?_
      rw [← hchose]
      exact (chose_congr fun hin i =>
        (hsound.others t' ht).slot (own_inCa (hown.2 t') hg hin) i).symm
  · intro t' g hg
    by_cases ht : t' = t
    · subst ht
      replace hg : g ∈ fs ++ k := by simpa using hg
      rcases List.mem_append.mp hg with hg | hg
      · exact (leadsTo_exec hexec g hg).demands hdemands
      · exact hu.demands t' g (by simp [hstack, hg])
    · exact hu.demands t' g (by simpa [Function.update_of_ne ht] using hg)
  · intro t' g hg
    by_cases ht : t' = t
    · subst ht
      have hmarks : ∀ g ∈ (f :: k).getLast?, g.marks = false := by
        rw [← hstack]
        exact hu.marks t'
      exact marks_exec hexec hdemands hmarks g (by simpa using hg)
    · exact hu.marks t' g (by simpa [Function.update_of_ne ht] using hg)

/-- A chosen element is not pinned, in every state of a run whose steps meet `pinOk`. -/
theorem unpinned_step {a : Tid × Input} (hstep : system.step s a = some s')
    (hinp : keepsPinned a.2 = true) (hok : pinOk s a = true)
    (hown : Holds (Inv capacity on_evict) Own s) (hu : Unpinned s) : Unpinned s' := by
  rcases System.step_cases hstep with ⟨fs, -, hstart, rfl⟩ | ⟨f, k, m', fs, hstack, hexec, rfl⟩
  · exact unpinned_start hu hstart hinp
  · exact unpinned_exec hown hu hstack hexec hok

end Step

/-! ## Runs -/

section Runs

variable {capacity : ℕ} {on_evict on_flush : Bool} {as : List (Tid × Input)}

lemma unpinned_init : Unpinned (init capacity on_evict on_flush) where
  flags := by simp [init, cacheInit]
  chosen t f hf p hchose := by
    cases t with
    | cacheThread =>
      obtain rfl : f = .thread .start := by simpa [init] using hf
      simp [Frame.chose] at hchose
    | client n => simp [init] at hf
  demands t f hf := by
    cases t with
    | cacheThread =>
      obtain rfl : f = .thread .start := by simpa [init] using hf
      rfl
    | client n => simp [init] at hf
  marks t f hf := by
    cases t with
    | cacheThread =>
      obtain rfl : f = .thread .start := by simpa [init] using hf.symm
      rfl
    | client n => simp [init] at hf

/-- In every run of `cache_sync`, `cache_element_map`, `cache_element_pin` and the other calls that
test `CACHE_EL_PIN` or evict nothing, whose steps meet `pinOk`, no pinned element is evicted. -/
theorem pinned_elements_stay (hinp : ∀ a ∈ as, keepsPinned a.2 = true)
    (hok : Along system.step (fun s a => pinOk s a = true) (init capacity on_evict on_flush) as) :
    Throughout system.step PinnedStay (init capacity on_evict on_flush) as := by
  have hC : Along system.step (fun s a => keepsPinned a.2 = true ∧ pinOk s a = true)
      (init capacity on_evict on_flush) as := (along_of_forall fun a ha _ => hinp a ha).and hok
  refine (run_invariant (P := fun s => Holds (Inv capacity on_evict) Own s ∧ Unpinned s) ?_
    ⟨holds_init capacity on_evict on_flush, unpinned_init⟩ hC).mono ?_
  · rintro s a s' hstep ⟨hcall, hpin⟩ ⟨hown, hu⟩
    exact ⟨(outline capacity on_evict).step hstep (fun _ _ _ => trivial) hown,
      unpinned_step hstep hcall hpin hown hu⟩
  · rintro s ⟨-, hu⟩ t i p st k hstack
    exact hu.chosen t (.work i p true st) (by simp [hstack]) p (by simp [Frame.chose])

/-- `cache_sync` marks the element for eviction, client 1 pins it, and the thread comes to it. -/
def pinnedAfterSync : List (Tid × Input) :=
  mapped ++ call (.client 0) (.sync .test) 10 ++ call (.client 1) (.flagOp .pin 4096 .test) 4 ++
    steps .cacheThread 7

/-- The element is pinned, `cache_sync` leaves it alone, and so does the thread. -/
def pinnedBeforeSync : List (Tid × Input) :=
  mapped ++ call (.client 1) (.flagOp .pin 4096 .test) 4 ++ call (.client 0) (.sync .test) 6 ++
    steps .cacheThread 11

theorem pinned_elements_stay_sync :
    (run system.step (init 1 true true) pinnedBeforeSync).map (fun s =>
        (s.mem.el? 4096).map fun el => el.ce_flags.pin) = some (some true) ∧
      Throughout system.step PinnedStay (init 1 true true) pinnedBeforeSync :=
  ⟨by decide +kernel, pinned_elements_stay (by decide) (by decide +kernel)⟩

/-- The thread is about to evict a pinned element. -/
theorem sync_evicts_pinned_element :
    (∀ a ∈ pinnedAfterSync, keepsPinned a.2 = true) ∧
      ∃ s, run system.step (init 1 true true) pinnedAfterSync = some s ∧ ¬ PinnedStay s := by
  have hrun : (run system.step (init 1 true true) pinnedAfterSync).map
      (fun s => (s.stack .cacheThread, (s.mem.el? 4096).map fun el => el.ce_flags.pin)) =
      some ([.work 0 4096 true .onEvict, .thread (.elem 1)], some true) := by decide +kernel
  rcases Option.map_eq_some_iff.mp hrun with ⟨s, hs, heq⟩
  simp only [Prod.mk.injEq, Option.map_eq_some_iff] at heq
  rcases heq with ⟨hstack, el, hel, hpin⟩
  refine ⟨by decide, s, hs, ?_⟩
  intro h
  simp [h .cacheThread 0 4096 .onEvict _ hstack el (Memory.el?_eq_some.mp hel)] at hpin

end Runs

end KanekFs.Cache.Machine
