import KanekFs.Page.Lifetime
import KanekFs.Page.Transparency

/-!
# What reaches the device

`Sim` relates a page cache to an array that only client writes change. The device lags behind this
array. Here is how far.

* `Sim.lags`: an operation leaves a block of the device as it is, or brings it up to date with the
  array. With a complete pass of the thread, `Sim.pass_current`, the whole device is up to date.
* `crash_content`: wherever a run ends, each block of the device holds what was last written to it
  at some point since the last pass. A crash loses nothing older than a pass, and leaves nothing
  that was never written.
* `destroy_durable`: `pgcache_destroy` leaves on the device all that was written.
-/

namespace KanekFs.Page

open Bytes Cache Run

section Steps

variable {rs : List (ℕ × ℤ)} {c c' : PgCache} {a : Disk} {n i : ℕ} {el : PgElement} {op : Op}

/-! ## The count of the elements -/

lemma counted_map {env : MapEnv} {addr : ℕ} {numblocks : ℤ} {r : Option ℕ} (h : Counted n c)
    (hmap : pgcacheElementMap env addr numblocks c = some (c', r)) : Counted n c' := by
  unfold pgcacheElementMap at hmap
  split at hmap
  · -- the element is there, and stays
    unfold mapHit at hmap
    split at hmap
    · cases hmap
    · next el hel =>
      unfold growElement at hmap
      split_ifs at hmap <;> rcases Prod.mk.inj (Option.some.inj hmap) with ⟨rfl, -⟩ <;>
        exact h.setSlot hel _ _
  · split at hmap
    · cases hmap
    · next c₁ hnone =>
      rcases Prod.mk.inj (Option.some.inj hmap) with ⟨rfl, -⟩
      exact h.map hnone
    · next c₁ sub hnew =>
      have hc₁ : Counted n c₁ := h.map hnew
      unfold fillPage at hmap
      split at hmap
      · cases hmap
      · next el hel =>
        split_ifs at hmap
        · rcases Option.map_eq_some_iff.mp hmap with ⟨c₂, hmark, heq⟩
          rcases Prod.mk.inj heq with ⟨rfl, -⟩
          exact hc₁.markFlags hmark
        · rcases Prod.mk.inj (Option.some.inj hmap) with ⟨rfl, -⟩
          exact hc₁.setSlot hel _ _

lemma counted_mapZero {env : MapEnv} {addr : ℕ} {numblocks : ℤ} {r : Option ℕ} (h : Counted n c)
    (hmap : pgcacheElementMapZero env addr numblocks c = some (c', r)) : Counted n c' := by
  unfold pgcacheElementMapZero at hmap
  split at hmap
  · rcases Option.map_eq_some_iff.mp hmap with ⟨el, hel, heq⟩
    rcases Prod.mk.inj heq with ⟨rfl, -⟩
    exact h.setSlot hel _ _
  · split at hmap
    · cases hmap
    · next c₁ hnone =>
      rcases Prod.mk.inj (Option.some.inj hmap) with ⟨rfl, -⟩
      exact h.map hnone
    · next c₁ sub hnew =>
      have hc₁ : Counted n c₁ := h.map hnew
      split at hmap
      · cases hmap
      · next el hel =>
        split_ifs at hmap <;> rcases Prod.mk.inj (Option.some.inj hmap) with ⟨rfl, -⟩
        · exact hc₁
        · exact hc₁.setSlot hel _ _

/-- Every operation keeps the count. -/
theorem counted_step (h : Counted n c) (hstep : step c op = some c') : Counted n c' := by
  cases op with
  | map env addr numblocks =>
    rcases Option.map_eq_some_iff.mp hstep with ⟨⟨c₁, r⟩, hmap, rfl⟩
    exact counted_map h hmap
  | mapZero env addr numblocks =>
    rcases Option.map_eq_some_iff.mp hstep with ⟨⟨c₁, r⟩, hmap, rfl⟩
    exact counted_mapZero h hmap
  | write i ws =>
    simp only [step, clientWrite] at hstep
    split at hstep
    · cases hstep
    · next el hel =>
      split at hstep
      · split_ifs at hstep
        exact (h.setSlot hel _ c.world).markFlags hstep
      · cases hstep
  | markDirty i => exact h.markFlags (show cacheElementMarkDirty i c = some c' from hstep)
  | markEviction i => exact h.markFlags (show cacheElementMarkEviction i c = some c' from hstep)
  | pin i => exact h.markFlags (show cacheElementPin i c = some c' from hstep)
  | unpin i => exact h.markFlags (show cacheElementMarkUnpin i c = some c' from hstep)
  | evict key => exact (kept_counted callbacks).evict h hstep
  | pass => exact Option.some.inj hstep ▸ (kept_counted callbacks).threadPass h

/-! ## The device lags behind the array -/

/-- Each block of the device is as it was in `d`, or as it is in the array. -/
def Lags (d a : Disk) (c : PgCache) : Prop := ∀ b, c.world b = d b ∨ c.world b = a b

lemma kept_lags (hrs : Requests rs) (d : Disk) :
    Kept callbacks (fun c => Sim rs c a ∧ Lags d a c) where
  flush {c i el} hel hdirty h := by
    refine ⟨(kept_sim hrs).flush hel hdirty h.1, fun b => ?_⟩
    rcases h.1.flushed hrs hel b with ⟨hin, hout⟩
    -- a flush brings the blocks of the page up to date
    by_cases hb : b ∈ pageBlocks el
    · exact .inr (hin hb)
    · exact (h.2 b).imp (hout hb).trans (hout hb).trans
  drop hel hclean h := ⟨(kept_sim hrs).drop hel hclean h.1, h.2⟩

/-- An operation leaves a block of the device as it is, or brings it up to date. -/
theorem Sim.lags (h : Sim rs c a) (hrs : Requests rs) (hop : op.Succeeds)
    (hstep : Page.step c op = some c') : Lags c.world (arrayStep c op a) c' := by
  have hstart : Sim rs c a ∧ Lags c.world a c := ⟨h, fun _ => .inl rfl⟩
  have hkept := kept_lags (a := a) hrs c.world
  -- where an operation does not touch the device
  have hsame : c'.world = c.world → Lags c.world (arrayStep c op a) c' :=
    fun heq b => .inl (congrFun heq b)
  cases op with
  | map env addr numblocks =>
    rcases Option.map_eq_some_iff.mp hstep with ⟨⟨c₁, r⟩, hmap, rfl⟩
    cases pgcacheElementMap_effect hmap with
    | hit hkey hel hn => exact hsame rfl
    | grown hkey hel hn hlock hok hself hother hworld =>
      rename_i i el
      intro b
      rw [hworld, growDisk]
      split_ifs with hdirty
      · rcases h.flushed hrs hel b with ⟨hin, hout⟩
        by_cases hb : b ∈ pageBlocks el
        · exact .inr (hin hb)
        · exact .inl (hout hb)
      · exact .inl rfl
    | growFailed m hkey hel hfail => exact absurd hop.2 hfail
    | noElement hkey hno hroom =>
      rcases hroom with rfl | ⟨sub, hroom⟩
      · exact hsame rfl
      · exact (hroom.kept hkept hstart).2
    | filled hkey hsub hroom hok hself hother hworld =>
      intro b
      rw [hworld]
      exact (hroom.kept hkept hstart).2 b
    | fillFailed f hkey hroom hfail => exact absurd hop.2 hfail
  | mapZero env addr numblocks => exact hop.elim
  | write i ws =>
    simp only [Page.step, clientWrite] at hstep
    split at hstep
    · cases hstep
    · split at hstep
      · split_ifs at hstep
        have hworld := world_markFlags (show cacheElementMarkDirty i _ = some c' from hstep)
        exact hsame hworld
      · cases hstep
  | markDirty i =>
    exact hsame (world_markFlags (show cacheElementMarkDirty i c = some c' from hstep))
  | markEviction i =>
    exact hsame (world_markFlags (show cacheElementMarkEviction i c = some c' from hstep))
  | pin i => exact hsame (world_markFlags (show cacheElementPin i c = some c' from hstep))
  | unpin i => exact hsame (world_markFlags (show cacheElementMarkUnpin i c = some c' from hstep))
  | evict key => exact (hkept.evict hstart hstep).2
  | pass => exact Option.some.inj hstep ▸ (hkept.threadPass hstart).2

/-! ## A pass brings the device up to date -/

lemma Sim.current_of_clean (h : Sim rs c a)
    (hclean : Each (fun el => el.ce_flags.dirty = false) c) : c.world = a := by
  funext b
  rcases h.current b with hdev | ⟨j, el, hj, hdirty, -⟩
  · exact hdev
  · exact absurd (hclean j el hj) (by simp [hdirty])

theorem Sim.pass_current (h : Sim rs c a) (hrs : Requests rs) (hc : Counted n c)
    (hn : n < 2 ^ 32) : (threadPass callbacks c).world = a :=
  ((kept_sim hrs).threadPass h).current_of_clean (threadPass_clean hc hn fun i el hel =>
    ⟨(h.page i el hel).active, (h.page i el hel).unlocked⟩)

/-- What `pgcache_destroy` leaves is the array. -/
theorem Sim.destroy (h : Sim rs c a) (hrs : Requests rs) (hc : Counted n c) (hn : n < 2 ^ 32) :
    pgcacheDestroy true c = some a := by
  rcases exists_pgcacheDestroy true (fun i el hel => (h.page i el hel).unlocked) with ⟨d, hd⟩
  rcases Option.map_eq_some_iff.mp hd with ⟨c₂, hdisable, rfl⟩
  rcases Option.map_eq_some_iff.mp hdisable with ⟨c₁, hmark, rfl⟩
  rw [hd]
  -- marked elements are written back by the last pass
  have hmarked : Sim rs c₁ a ∧ Counted n c₁ :=
    markAllEviction_induction (P := fun c => Sim rs c a ∧ Counted n c)
      (fun _ _ _ hm hP => ⟨hP.1.markFlags hm (fun _ => rfl) (fun _ hd => hd), hP.2.markFlags hm⟩)
      ⟨h, hc⟩ hmark
  exact congrArg some (hmarked.1.pass_current hrs hmarked.2 hn)

end Steps

/-! ## Runs -/

section Runs

variable {elements_capacity : ℕ} {d : Disk} {t t₁ t₂ : List Op} {c : PgCache}

/-- What is asked of the operations of a run: they succeed, and their requests are among `rs`. -/
def Regular (rs : List (ℕ × ℤ)) (op : Op) : Prop :=
  op.Succeeds ∧ ∀ r, op.request = some r → r ∈ rs

lemma regular_of_mem (hops : ∀ op ∈ t, op.Succeeds) : ∀ op ∈ t, Regular (requests t) op :=
  fun op hop => ⟨hops op hop, fun _ hr => List.mem_filterMap.mpr ⟨op, hop, hr⟩⟩

/-- A new cache after a run: it represents the array, and its elements are counted. -/
lemma sim_of_run {rs : List (ℕ × ℤ)} (hrs : Requests rs) (hops : ∀ op ∈ t, Regular rs op)
    (hrun : run step (pgcacheAlloc elements_capacity d) t = some c) :
    Sim rs c (lastWritten (pgcacheAlloc elements_capacity d) t d) ∧
      Counted elements_capacity c :=
  run_simulates (R := fun c a => Sim rs c a ∧ Counted elements_capacity c)
    (C := fun _ op => Regular rs op)
    (fun _ _ _ _ hs hC h => ⟨h.1.step hrs hC.1 hC.2 hs, counted_step h.2 hs⟩)
    ⟨sim_pgcacheAlloc _ d, counted_cacheInit _ d⟩ (along_of_forall fun op hop _ => hops op hop) hrun

/-- After a pass, or in the beginning, the device is up to date. -/
lemma current_of_run {rs : List (ℕ × ℤ)} (hcap : elements_capacity < 2 ^ 31) (hrs : Requests rs)
    (hops : ∀ op ∈ t, Regular rs op) (hsync : ∀ op ∈ t.getLast?, op = .pass)
    (hrun : run step (pgcacheAlloc elements_capacity d) t = some c) :
    c.world = lastWritten (pgcacheAlloc elements_capacity d) t d := by
  rcases List.eq_nil_or_concat t with rfl | ⟨t, op, rfl⟩
  · rw [run_nil, Option.some.injEq] at hrun
    exact hrun ▸ rfl
  · obtain rfl : op = .pass := hsync op (by simp)
    rw [List.concat_eq_append] at hops hrun ⊢
    rcases run_append_eq_some.mp hrun with ⟨c₁, hrun₁, hpass⟩
    obtain rfl : threadPass callbacks c₁ = c := by simpa [run, step] using hpass
    have hsim := sim_of_run hrs (fun op hop => hops op (List.mem_append_left _ hop)) hrun₁
    -- the pass itself changes nothing in the array
    rw [hsim.1.pass_current hrs hsim.2 (by omega), lastWritten, lastWritten,
      replay_append hrun₁]
    rfl

/-- **What a crash leaves.** Wherever a run ends that has come past a pass, or has begun with `t₂`:
each block of the device holds what was last written to it then or at some later point. -/
theorem crash_content (hcap : elements_capacity < 2 ^ 31) (hops : ∀ op ∈ t₁ ++ t₂, op.Succeeds)
    (hreq : Requests (requests (t₁ ++ t₂))) (hsync : ∀ op ∈ t₁.getLast?, op = .pass)
    (hrun : run step (pgcacheAlloc elements_capacity d) (t₁ ++ t₂) = some c) (b : ℕ) :
    ∃ u v, t₂ = u ++ v ∧
      c.world b = lastWritten (pgcacheAlloc elements_capacity d) (t₁ ++ u) d b := by
  have hregular := regular_of_mem hops
  generalize requests (t₁ ++ t₂) = rs at hreq hregular
  rcases run_append_eq_some.mp hrun with ⟨c₁, hrun₁, hrun₂⟩
  have hregular₁ : ∀ op ∈ t₁, Regular rs op :=
    fun op hop => hregular op (List.mem_append_left _ hop)
  have hcurrent := current_of_run hcap hreq hregular₁ hsync hrun₁
  have hlag := run_lags (R := fun c a => Sim rs c a) (C := fun _ op => Regular rs op)
    (f := fun c : PgCache => c.world b) (g := fun a : Disk => a b)
    (fun _ _ _ _ hs hC h => ⟨h.step hreq hC.1 hC.2 hs, h.lags hreq hC.1 hs b⟩)
    (sim_of_run hreq hregular₁ hrun₁).1
    (along_of_forall fun op hop _ => hregular op (List.mem_append_right _ hop)) hrun₂
  rcases hlag with hold | ⟨u, v, huv, hu⟩
  · exact ⟨[], t₂, rfl, by rw [List.append_nil, ← hcurrent]; exact hold⟩
  · refine ⟨u, v, huv, ?_⟩
    rw [lastWritten, replay_append hrun₁]
    exact hu

/-- Block 0 is written, and then there is a pass. -/
def writePass : List Op := [.map (.ok 4096) 0 1, .write 0 [(0, [5#8])], .pass]

/-- Block 0 is written once more. -/
def writeAgain : List Op := [.write 0 [(0, [6#8])]]

lemma requests_writePass : Requests (requests (writePass ++ writeAgain)) := by
  constructor <;> simp [requests, writePass, writeAgain, Op.request, FitsInt, kfsBlocksize]

lemma succeeds_writePass : ∀ op ∈ writePass ++ writeAgain, op.Succeeds := by
  simp [writePass, writeAgain, Op.Succeeds, MapEnv.ok_succeeds]

lemma lastWritten_writeAgain : lastWritten (pgcacheAlloc 1 fun _ => [0#8])
    (writePass ++ writeAgain) (fun _ => [0#8]) 0 = [6#8] := by
  decide +kernel

/-- After a crash block 0 holds the first or the second of the two. -/
theorem crash_content_writeAgain :
    ∃ c, run step (pgcacheAlloc 1 fun _ => [0#8]) (writePass ++ writeAgain) = some c ∧
      (c.world 0 = [5#8] ∨ c.world 0 = [6#8]) := by
  refine ⟨_, rfl, ?_⟩
  have hcrash := crash_content (show 1 < 2 ^ 31 by decide) succeeds_writePass
    requests_writePass (show ∀ op ∈ writePass.getLast?, op = .pass by simp [writePass])
    (show run step (pgcacheAlloc 1 fun _ => [0#8]) (writePass ++ writeAgain) = some _ from rfl) 0
  rcases hcrash with ⟨u, v, huv, hu⟩
  -- the second write is behind, or it is not
  cases u with
  | nil => exact .inl (hu.trans rfl)
  | cons op u =>
    rcases List.cons.inj huv with ⟨rfl, hnil⟩
    obtain rfl : u = [] := (List.append_eq_nil_iff.mp hnil.symm).1
    exact .inr (hu.trans lastWritten_writeAgain)

/-- **Nothing is lost.** When the cache is destroyed the device holds all that was written. -/
theorem destroy_durable (hcap : elements_capacity < 2 ^ 31) (hops : ∀ op ∈ t, op.Succeeds)
    (hreq : Requests (requests t))
    (hrun : run step (pgcacheAlloc elements_capacity d) t = some c) :
    pgcacheDestroy true c = some (lastWritten (pgcacheAlloc elements_capacity d) t d) := by
  have h := sim_of_run hreq (regular_of_mem hops) hrun
  exact h.1.destroy hreq h.2 (by omega)

/-- The second of the two is there after the cache was destroyed. -/
theorem destroy_durable_writeAgain :
    ∃ c d', run step (pgcacheAlloc 1 fun _ => [0#8]) (writePass ++ writeAgain) = some c ∧
      pgcacheDestroy true c = some d' ∧ d' 0 = [6#8] :=
  ⟨_, _, rfl, destroy_durable (show 1 < 2 ^ 31 by decide) succeeds_writePass requests_writePass
    rfl, lastWritten_writeAgain⟩

end Runs

end KanekFs.Page
