import KanekFs.Cache.Poll
import KanekFs.Page.Lifetime

/-!
# What a blocking call has seen

`pgcache_element_sync` waits for `CACHE_EL_CLEAN` after it has marked its element dirty. Here the
wait is the polling loop with its clock; `seenRounds` forgets the clock, and the calls of the page
cache, which know only whether the flags are there in a round, are given what it leaves:
`cacheWaitForFlags_seenRounds`, `cacheElementWaitForFlags_seenRounds` and
`pgcacheElementSync_seenRounds`.

`waitsSound_iff` says when a wait that succeeds has seen its flags.
-/

namespace KanekFs.Page

open Cache Cache.Poll

/-- `CACHE_EL_CLEAN`. -/
def cacheElClean : ℕ := 0x0010

/-- `PGCACHE_DEFAULT_TIMEOUT`. -/
def pgcacheDefaultTimeout : ℤ := 10

/-- The code of `pgcache_element_sync`, round by round, for an element that is `active` or not. The
rounds come after the element was marked dirty. -/
def elementSync (active : Bool) (start_time : Reading) (rounds : List Round) : Option ℤ :=
  if active = false then some (-1)
  else Poll.cacheElementWaitForFlags cacheElClean pgcacheDefaultTimeout start_time rounds

section Rounds

variable {flags : ℕ} {timeout_secs rc : ℤ} {start_time : Reading} {rounds : List Round}

/-! ## Without the clock -/

variable (flags timeout_secs start_time) in
/-- For each round that begins before the timeout, whether the flags are there. -/
def seenRounds : List Round → List Bool
  | [] => []
  | r :: rounds =>
    if TimedOut start_time timeout_secs r then []
    else decide (Seen flags r.word) :: seenRounds rounds

lemma cacheWaitForFlags_seenRounds
    (h : Poll.cacheWaitForFlags flags timeout_secs start_time rounds = some rc) :
    cacheWaitForFlags (seenRounds flags timeout_secs start_time rounds) = rc := by
  induction rounds with
  | nil => simp [Poll.cacheWaitForFlags] at h
  | cons r rounds ih =>
    rw [Poll.cacheWaitForFlags] at h
    rw [seenRounds]
    -- the timeout, the flags, or the next round
    split_ifs at h ⊢ with hout hseen
    · exact Option.some.inj h
    · rw [decide_eq_true hseen, cacheWaitForFlags, if_pos rfl]
      exact Option.some.inj h
    · rw [decide_eq_false hseen, cacheWaitForFlags, if_neg Bool.false_ne_true]
      exact ih h

lemma cacheElementWaitForFlags_seenRounds
    (h : Poll.cacheElementWaitForFlags flags timeout_secs start_time rounds = some rc) :
    cacheElementWaitForFlags (seenRounds flags timeout_secs start_time rounds) = rc := by
  cases rounds with
  | nil => simp [Poll.cacheElementWaitForFlags, Poll.elementWaitLoop] at h
  | cons r rounds =>
    rw [cacheElementWaitForFlags_cons] at h
    rw [seenRounds]
    split_ifs at h ⊢ with hout
    · exact Option.some.inj h
    · rw [cacheElementWaitForFlags_eq_zero.mpr (List.cons_ne_nil _ _)]
      exact Option.some.inj h

/-- The code of `pgcache_element_sync` on an element of a page cache is that of its rounds. -/
lemma pgcacheElementSync_seenRounds {c c' : PgCache} {i passes : ℕ} {el : PgElement} {rc' : ℤ}
    (hel : c.slot i = some el)
    (h : elementSync el.ce_flags.active start_time rounds = some rc)
    (hret : pgcacheElementSync
      ⟨seenRounds cacheElClean pgcacheDefaultTimeout start_time rounds, passes⟩ i c =
        some (c', rc')) : rc' = rc := by
  simp only [pgcacheElementSync, hel] at hret
  rw [elementSync] at h
  split_ifs at h hret with hactive
  · rw [Option.some.injEq] at h hret
    exact (Prod.mk.inj hret).2.symm.trans h
  · obtain ⟨c₁, -, heq⟩ := Option.map_eq_some_iff.mp hret
    exact (Prod.mk.inj heq).2.symm.trans (cacheElementWaitForFlags_seenRounds h)

/-! ## What was seen -/

variable (flags timeout_secs start_time rounds) in
/-- The two waits for `flags`, and the one of `pgcache_element_sync` for `CACHE_EL_CLEAN`, return 0
only in a round that sees the flags, and another code only after the timeout. -/
structure WaitsSound (active : Bool) : Prop where
  cache : WaitSound flags timeout_secs start_time
    (Poll.cacheWaitForFlags flags timeout_secs start_time) rounds
  element : WaitSound flags timeout_secs start_time
    (Poll.cacheElementWaitForFlags flags timeout_secs start_time) rounds
  sync : WaitSound cacheElClean pgcacheDefaultTimeout start_time (elementSync active start_time)
    rounds

/-- An element that is not active is not waited for. -/
lemma waitSound_sync_iff {active : Bool} :
    WaitSound cacheElClean pgcacheDefaultTimeout start_time (elementSync active start_time) rounds ↔
      (active = true →
        FirstRoundEnds cacheElClean pgcacheDefaultTimeout start_time rounds) := by
  cases active with
  | false => exact iff_of_true (fun _ _ _ _ _ hpre => by simp [elementSync] at hpre) (by simp)
  | true =>
    rw [← waitSound_element_iff]
    exact ⟨fun h _ => h, fun h => h rfl⟩

end Rounds

/-- **A wait that succeeds has seen its flags** exactly when the first round of a wait for an
element, unless it is beyond the timeout, sees them. -/
theorem waitsSound_iff (flags : ℕ) (timeout_secs : ℤ) (start_time : Reading)
    (rounds : List Round) (active : Bool) :
    WaitsSound flags timeout_secs start_time rounds active ↔
      FirstRoundEnds flags timeout_secs start_time rounds ∧
        (active = true →
          FirstRoundEnds cacheElClean pgcacheDefaultTimeout start_time rounds) := by
  rw [← waitSound_element_iff, ← waitSound_sync_iff]
  exact ⟨fun h => ⟨h.element, h.sync⟩, fun h => ⟨waitSound_cache rounds, h.1, h.2⟩⟩

/-- A tenth of a second after the start `CACHE_EL_CLEAN` is not set: the wait for it succeeds. -/
theorem wait_succeeds_unseen :
    ¬ WaitsSound cacheElClean 10 ⟨⟨0, 0⟩, by decide⟩ [⟨⟨⟨0, 100000000⟩, by decide⟩, 0x0003⟩]
      true := by
  intro h
  have hret : elementSync true ⟨⟨0, 0⟩, by decide⟩
      ([] ++ [⟨⟨⟨0, 100000000⟩, by decide⟩, 0x0003⟩]) = some 0 := by decide
  have hseen := (h.sync [] _ [] 0 rfl rfl hret).1 rfl
  revert hseen
  decide

end KanekFs.Page
