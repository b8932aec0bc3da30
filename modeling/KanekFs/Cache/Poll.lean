import Mathlib.Data.Nat.Bitwise
import Mathlib.Data.List.Basic
import Mathlib.Tactic.Linarith

/-!
# The polling loops

`cache_wait_for_flags` and `cache_element_wait_for_flags` of `cache.c`, round by round. A round
sleeps, reads the clock and gives up when the timeout is over; else it looks at the flags. What the
environment does is the list of rounds: the clock reading, and the flag word that is there then. A
wait has no result as long as the rounds that are given have not ended it.

* `timespecsub_tv_sec` is the arithmetic of both loops: the whole seconds that have passed.
* `waitSound_cache` says that `cache_wait_for_flags` succeeds only with the flags, and
  `waitSound_element_iff` when `cache_element_wait_for_flags` does.
* `length_lt_of_waiting` says that no wait goes on beyond its timeout.
-/

namespace KanekFs.Cache.Poll

/-! ## Time -/

/-- `struct timespec`. -/
structure Timespec where
  tv_sec : ℤ
  tv_nsec : ℤ
deriving DecidableEq

namespace Timespec

/-- The time in nanoseconds. -/
def nanos (t : Timespec) : ℤ := t.tv_sec * 1000000000 + t.tv_nsec

/-- What `clock_gettime` returns: the nanoseconds make less than a second. -/
def Normal (t : Timespec) : Prop := 0 ≤ t.tv_nsec ∧ t.tv_nsec < 1000000000

instance (t : Timespec) : Decidable t.Normal := inferInstanceAs (Decidable (_ ∧ _))

end Timespec

/-- A reading of the clock. -/
structure Reading extends Timespec where
  normal : toTimespec.Normal

/-- `timespecsub`. -/
def timespecsub (t u : Timespec) : Timespec :=
  let diff : Timespec := ⟨t.tv_sec - u.tv_sec, t.tv_nsec - u.tv_nsec⟩
  if diff.tv_nsec < 0 then ⟨diff.tv_sec - 1, diff.tv_nsec + 1000000000⟩ else diff

/-- When a round that begins at `t` wakes up: `NANOSECS_DELAY` later. -/
def sleepTime (t : Timespec) : Timespec :=
  let sleep_time : Timespec := ⟨t.tv_sec, t.tv_nsec + 100000000⟩
  if sleep_time.tv_nsec ≥ 1000000000 then
    ⟨sleep_time.tv_sec + 1, sleep_time.tv_nsec - 1000000000⟩
  else sleep_time

lemma nanos_sleepTime (t : Timespec) : (sleepTime t).nanos = t.nanos + 100000000 := by
  simp only [sleepTime]
  split <;> simp only [Timespec.nanos] <;> omega

/-- The seconds of a difference are the whole seconds between the readings. -/
lemma timespecsub_tv_sec (t u : Reading) (secs : ℤ) :
    (timespecsub t.toTimespec u.toTimespec).tv_sec ≥ secs ↔
      secs * 1000000000 ≤ t.nanos - u.nanos := by
  have ht := t.normal
  have hu := u.normal
  simp only [Timespec.Normal] at ht hu
  simp only [timespecsub, Timespec.nanos]
  split <;> dsimp only <;> omega

/-! ## The loops -/

/-- The flags that are waited for are there: none at all, or those asked for. -/
def Seen (flags word : ℕ) : Prop :=
  (flags = 0 ∧ word = 0) ∨ (flags ≠ 0 ∧ word &&& flags = flags)

instance (flags word : ℕ) : Decidable (Seen flags word) := inferInstanceAs (Decidable (_ ∨ _))

/-- One round: what the clock shows after the sleep, and the flag word. -/
structure Round where
  current_time : Reading
  word : ℕ

/-- `timeout_secs` seconds have passed since `start_time`. -/
def TimedOut (start_time : Reading) (timeout_secs : ℤ) (r : Round) : Prop :=
  (timespecsub r.current_time.toTimespec start_time.toTimespec).tv_sec ≥ timeout_secs

instance (start_time : Reading) (timeout_secs : ℤ) (r : Round) :
    Decidable (TimedOut start_time timeout_secs r) :=
  inferInstanceAs (Decidable (_ ≥ _))

/-- `cache_wait_for_flags`. -/
def cacheWaitForFlags (flags : ℕ) (timeout_secs : ℤ) (start_time : Reading) :
    List Round → Option ℤ
  | [] => none
  | r :: rounds =>
    if TimedOut start_time timeout_secs r then some 1
    else if Seen flags r.word then some 0
    else cacheWaitForFlags flags timeout_secs start_time rounds

/-- The loop of `cache_element_wait_for_flags`. -/
def elementWaitLoop (flags : ℕ) (timeout_secs : ℤ) (start_time : Reading) (rc : ℤ) :
    List Round → Option ℤ
  | [] => none
  | r :: rounds =>
    if TimedOut start_time timeout_secs r then some 1
    else
      -- `rc` keeps its value where the flags are missing
      let rc := if Seen flags r.word then 0 else rc
      if rc = 0 then some rc else elementWaitLoop flags timeout_secs start_time rc rounds

/-- `cache_element_wait_for_flags`. -/
def cacheElementWaitForFlags (flags : ℕ) (timeout_secs : ℤ) (start_time : Reading)
    (rounds : List Round) : Option ℤ :=
  elementWaitLoop flags timeout_secs start_time 0 rounds

section Sound

variable {flags : ℕ} {timeout_secs : ℤ} {start_time : Reading} {pre rounds : List Round}
  {r : Round} {rc : ℤ}

variable (flags timeout_secs start_time) in
/-- Where `wait` ends among the rounds, it returns 0 only at a word with the flags, and another code
only when the timeout has been reached. -/
def WaitSound (wait : List Round → Option ℤ) (rounds : List Round) : Prop :=
  ∀ pre r rest rc, rounds = pre ++ r :: rest → wait pre = none → wait (pre ++ [r]) = some rc →
    (rc = 0 → Seen flags r.word) ∧
      (rc ≠ 0 → timeout_secs * 1000000000 ≤ r.current_time.nanos - start_time.nanos)

/-- A wait that goes on after `pre` is in its next round what it was in its first. -/
lemma cacheWaitForFlags_append
    (h : cacheWaitForFlags flags timeout_secs start_time pre = none) :
    cacheWaitForFlags flags timeout_secs start_time (pre ++ rounds) =
      cacheWaitForFlags flags timeout_secs start_time rounds := by
  induction pre with
  | nil => rfl
  | cons r pre ih =>
    rw [cacheWaitForFlags] at h
    rw [List.cons_append, cacheWaitForFlags]
    split_ifs at h ⊢
    exact ih h

/-- **`cache_wait_for_flags` is sound** whatever the clock shows and the flags are. -/
lemma waitSound_cache (rounds : List Round) :
    WaitSound flags timeout_secs start_time (cacheWaitForFlags flags timeout_secs start_time)
      rounds := by
  intro pre r rest rc _ hpre hret
  rw [cacheWaitForFlags_append hpre, cacheWaitForFlags] at hret
  split_ifs at hret with hout hseen
  · -- the timeout
    obtain rfl : 1 = rc := Option.some.inj hret
    exact ⟨fun h => by simp at h, fun _ => (timespecsub_tv_sec _ _ _).mp hout⟩
  · obtain rfl : 0 = rc := Option.some.inj hret
    exact ⟨fun _ => hseen, fun h => absurd rfl h⟩
  · simp [cacheWaitForFlags] at hret

variable (flags timeout_secs start_time) in
/-- The first round, if there is one, comes after the timeout or sees the flags. -/
def FirstRoundEnds (rounds : List Round) : Prop :=
  ∀ r ∈ rounds.head?, timeout_secs * 1000000000 ≤ r.current_time.nanos - start_time.nanos ∨
    Seen flags r.word

/-- `rc` is 0 before the flags are looked at, so the first round is the last one. -/
lemma cacheElementWaitForFlags_cons :
    cacheElementWaitForFlags flags timeout_secs start_time (r :: rounds) =
      if TimedOut start_time timeout_secs r then some 1 else some 0 := by
  rw [cacheElementWaitForFlags, elementWaitLoop]
  simp

/-- `cache_element_wait_for_flags` is sound exactly when its first round has to be the last. -/
lemma waitSound_element_iff :
    WaitSound flags timeout_secs start_time
        (cacheElementWaitForFlags flags timeout_secs start_time) rounds ↔
      FirstRoundEnds flags timeout_secs start_time rounds := by
  constructor
  · intro h r hr
    rcases List.head?_eq_some_iff.mp hr with ⟨rest, rfl⟩
    by_cases hout : TimedOut start_time timeout_secs r
    · exact .inl ((timespecsub_tv_sec _ _ _).mp hout)
    · have hret : cacheElementWaitForFlags flags timeout_secs start_time ([] ++ [r]) =
          some 0 := by
        rw [List.nil_append, cacheElementWaitForFlags_cons, if_neg hout]
      exact .inr ((h [] r rest 0 rfl rfl hret).1 rfl)
  · intro h pre r rest rc hrounds hpre hret
    cases pre with
    | nil =>
      have hfirst := h r (by rw [hrounds]; rfl)
      rw [List.nil_append, cacheElementWaitForFlags_cons] at hret
      split_ifs at hret with hout
      · obtain rfl : 1 = rc := Option.some.inj hret
        exact ⟨fun h => by simp at h, fun _ => (timespecsub_tv_sec _ _ _).mp hout⟩
      · obtain rfl : 0 = rc := Option.some.inj hret
        refine ⟨fun _ => hfirst.resolve_left ?_, fun h => absurd rfl h⟩
        intro hle
        exact hout ((timespecsub_tv_sec _ _ _).mpr hle)
    | cons r' pre =>
      -- no second round is reached
      rw [cacheElementWaitForFlags_cons] at hpre
      split_ifs at hpre

end Sound

/-! ## The end of a wait -/

/-- `clock_nanosleep` does not return early: each round begins when the sleep is over that began at
the reading before. -/
def Sleeps : Timespec → List Round → Prop
  | _, [] => True
  | current_time, r :: rounds =>
    (sleepTime current_time).nanos ≤ r.current_time.nanos ∧ Sleeps r.current_time.toTimespec rounds

section Ends

variable {flags : ℕ} {timeout_secs : ℤ} {start_time : Reading} {rounds : List Round}

/-- A wait that goes on has used up a tenth of a second for each round. -/
lemma nanos_of_waiting (hne : rounds ≠ [])
    (h : cacheWaitForFlags flags timeout_secs start_time rounds = none) (t : Timespec)
    (hsleeps : Sleeps t rounds) :
    t.nanos + 100000000 * rounds.length < start_time.nanos + timeout_secs * 1000000000 := by
  induction rounds generalizing t with
  | nil => exact absurd rfl hne
  | cons r rounds ih =>
    rw [cacheWaitForFlags] at h
    split_ifs at h with hout hseen
    rw [TimedOut, timespecsub_tv_sec] at hout
    rcases hsleeps with ⟨hsleep, hrest⟩
    rw [nanos_sleepTime] at hsleep
    rw [List.length_cons]
    by_cases hnil : rounds = []
    · subst hnil
      simp only [List.length_nil]
      omega
    · have hlater := ih hnil h r.current_time.toTimespec hrest
      push_cast
      omega

/-- **Every wait ends**: fewer than ten rounds a second go by before the timeout. -/
theorem length_lt_of_waiting (hne : rounds ≠ [])
    (h : cacheWaitForFlags flags timeout_secs start_time rounds = none)
    (hsleeps : Sleeps start_time.toTimespec rounds) : (rounds.length : ℤ) < 10 * timeout_secs := by
  have hbound := nanos_of_waiting hne h start_time.toTimespec hsleeps
  omega

end Ends

end KanekFs.Cache.Poll
