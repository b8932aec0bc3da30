import KanekFs.Map.Complete

/-!
# Where the search reads

The loop of `bm_find` has no bound of its own. It ends with a byte that completes a gap, or with a
byte that ends in a set bit when no gap fits behind it; a byte that ends in clear bits always sends
it to the next one, also behind the map. `gap_size` is any 64-bit value here, and what is missing of
it is passed to `byte_find_gap` as an `int`.

* `Goes` is the step of the scan from one byte to the next, and `Entered s j n` the state in which
  it enters byte `j`: a gap has been open since byte `s` and `n` bits are still missing.
* `findLoop_eq_none_iff` is the run of the loop: it leaves the buffer exactly when the scan enters
  the byte behind it.
* `staysInside_iff` says that the last byte of the map decides. Where the gap size is an `int`, this
  is a condition on the bits alone: `endsByBits_iff`.
-/

namespace KanekFs.Map

open Bytes Word

/-! ## One byte -/

/-- The clear bits that `byte_find_gap` looks for when `n` bits are missing. If the `int` is not
positive it finds none; nine are in no byte. -/
def wanted (n : ℕ) : ℕ := if 0 < toInt32 n then (toInt32 n).toNat else 9

lemma wanted_pos (n : ℕ) : 1 ≤ wanted n := by
  unfold wanted
  split <;> omega

lemma wanted_of_lt {n : ℕ} (hpos : 1 ≤ n) (h : n < 2 ^ 31) : wanted n = n := by
  rw [wanted, toInt32_of_lt h, if_pos (by omega)]
  omega

/-- Sizes that a byte cannot hold are all the same to the loop. -/
lemma findGapLoop_congr {a b : ℤ} (ha : ∀ k : ℕ, 1 ≤ k → k ≤ 8 → (k : ℤ) ≠ a)
    (hb : ∀ k : ℕ, 1 ≤ k → k ≤ 8 → (k : ℤ) ≠ b) (byte : Byte) (n start : ℕ) (found : Bool)
    (count gap_index : ℕ) (hfit : count + n ≤ 8) :
    findGapLoop a byte n start found count gap_index =
      findGapLoop b byte n start found count gap_index := by
  induction n generalizing start found count gap_index with
  | zero => cases found <;> rfl
  | succ n ih =>
    rw [findGapLoop, findGapLoop, if_neg (ha (count + 1) (by omega) (by omega)),
      if_neg (hb (count + 1) (by omega) (by omega)), ih _ _ 0 _ (by omega),
      ih _ _ (count + 1) _ (by omega)]

/-- What `byte_find_gap` reports about byte `j` when `n` bits are missing. -/
lemma byteScan_wanted {bm : List Byte} {bit_address j : ℕ} (n : ℕ) (hj : j < bm.length)
    (hfirst : bit_address / 8 ≤ j) :
    ByteScan bm bit_address j (wanted n)
      (byteFindGap (scanStart bit_address j - 8 * j) (toInt32 n) bm[j]) := by
  have hscan := byteScan hj hfirst (wanted_pos n)
  by_cases hpos : 0 < toInt32 n
  · have hcast : ((wanted n : ℕ) : ℤ) = toInt32 n := by
      rw [wanted, if_pos hpos]
      omega
    rwa [hcast] at hscan
  · rw [wanted, if_neg hpos] at hscan ⊢
    rwa [byteFindGap, findGapLoop_congr (b := ((9 : ℕ) : ℤ)) (by omega) (by omega) _ _ _ _ _ _
      (by omega)]

lemma HasRun.le_eight {bm : List Byte} {bit_address j n : ℕ} (h : HasRun bm bit_address j n) :
    n ≤ 8 := by
  rcases h with ⟨g, hlo, hhi, -⟩
  have := le_scanStart bit_address j
  omega

/-! ## The scan -/

section Scan

variable (bm : List Byte) (bit_address gap_size stop : ℕ)

/-- The scan goes on behind byte `j`, which it entered with a gap open since byte `s` and `n` bits
missing, to the next byte. -/
inductive Goes (s j n : ℕ) : ℕ → ℕ → Prop
  /-- What the `int` asked for was found, and more is missing. -/
  | found (hrun : HasRun bm bit_address j (wanted n)) (hopen : s < j) (hmore : 2 ^ 31 ≤ n) :
      Goes s j n s (n - wanted n)
  | reset (hno : ¬ HasRun bm bit_address j (wanted n)) (htail : tailLen bm bit_address j = 0)
      (hroom : 8 * (j + 1) + gap_size ≤ stop) : Goes s j n (j + 1) gap_size
  | carry (hno : ¬ HasRun bm bit_address j (wanted n)) (htail : 0 < tailLen bm bit_address j) :
      Goes s j n s (n - tailLen bm bit_address j)

/-- The scan enters byte `j` with a gap open since byte `s` (`s = j`: none is open) and `n` bits
still missing. -/
inductive Entered : ℕ → ℕ → ℕ → Prop
  | start : Entered (bit_address / 8) (bit_address / 8) gap_size
  | step {s j n s' n' : ℕ} (h : Entered s j n)
      (hgo : Goes bm bit_address gap_size stop s j n s' n') : Entered s' (j + 1) n'

variable {bm bit_address gap_size stop} {s j n s' n' : ℕ}

lemma Goes.unique {s₁ n₁ : ℕ} (h : Goes bm bit_address gap_size stop s j n s' n')
    (h₁ : Goes bm bit_address gap_size stop s j n s₁ n₁) : s' = s₁ ∧ n' = n₁ := by
  cases h <;> cases h₁ <;> first | exact ⟨rfl, rfl⟩ | contradiction | omega

lemma Entered.le (h : Entered bm bit_address gap_size stop s j n) :
    bit_address / 8 ≤ s ∧ s ≤ j := by
  induction h with
  | start => exact ⟨le_rfl, le_rfl⟩
  | step h hgo ih => cases hgo <;> omega

lemma Entered.missing_pos (hgap : 1 ≤ gap_size)
    (h : Entered bm bit_address gap_size stop s j n) : 1 ≤ n ∧ n ≤ gap_size := by
  induction h with
  | start => exact ⟨hgap, le_rfl⟩
  | @step s j n s' n' h hgo ih =>
    have hle := h.le
    cases hgo with
    | found hrun hopen hmore =>
      have := hrun.le_eight
      omega
    | reset hno htail hroom => exact ⟨hgap, le_rfl⟩
    | carry hno htail =>
      -- the tail is less than what is missing
      have htail := tailLen_lt_of_not_hasRun (by omega) hno
      have hbound := tailLen_le bm bit_address j
      have hstart := le_scanStart bit_address j
      by_cases hsmall : n < 2 ^ 31
      · rw [wanted_of_lt ih.1 hsmall] at htail
        omega
      · omega

lemma Entered.unique {s₁ n₁ : ℕ} (h : Entered bm bit_address gap_size stop s j n)
    (h₁ : Entered bm bit_address gap_size stop s₁ j n₁) : s = s₁ ∧ n = n₁ := by
  induction h generalizing s₁ n₁ with
  | start =>
    generalize hj : bit_address / 8 = j at h₁
    cases h₁ with
    | start => exact ⟨hj, rfl⟩
    | step h hgo =>
      have hle := h.le
      omega
  | @step s j n s' n' h hgo ih =>
    generalize hj : j + 1 = j' at h₁
    cases h₁ with
    | start =>
      have hle := h.le
      omega
    | @step s₀ j₀ n₀ _ _ h₀ hgo₀ =>
      obtain rfl : j = j₀ := by omega
      rcases ih h₀ with ⟨rfl, rfl⟩
      exact hgo.unique hgo₀

/-- A scan that enters a byte has gone on behind every earlier one. -/
lemma Entered.through {i : ℕ} (h : Entered bm bit_address gap_size stop s j n)
    (hlo : bit_address / 8 ≤ i) (hi : i < j) :
    ∃ s₀ n₀ s₁ n₁, Entered bm bit_address gap_size stop s₀ i n₀ ∧
      Goes bm bit_address gap_size stop s₀ i n₀ s₁ n₁ := by
  induction h with
  | start => omega
  | @step s j n s' n' h hgo ih =>
    by_cases hij : i = j
    · exact ⟨s, n, s', n', hij ▸ h, hij ▸ hgo⟩
    · exact ih (by omega)

/-- Where it does not go on, no later byte is entered. -/
lemma not_entered_of_stop {i : ℕ} (h : Entered bm bit_address gap_size stop s j n)
    (hstop : ∀ s' n', ¬ Goes bm bit_address gap_size stop s j n s' n') (hi : j < i) :
    ¬ ∃ s' n', Entered bm bit_address gap_size stop s' i n' := by
  rintro ⟨s', n', h'⟩
  rcases h'.through (h.le.1.trans h.le.2) hi with ⟨s₀, n₀, s₁, n₁, h₀, hgo⟩
  rcases h.unique h₀ with ⟨rfl, rfl⟩
  exact hstop s₁ n₁ hgo

variable (bit_address stop) in
/-- The locals of `bm_find` that decide where the scan goes, when it enters byte `j`. -/
structure FindSt.Entering (st : FindSt) (s j n : ℕ) : Prop where
  aligned : st.aligned_to_byte = scanStart bit_address j - 8 * j
  count : st.count = stop - scanStart bit_address j
  missing : st.updated_gap_size = n
  may : st.may_have_a_large_gap = decide (s < j)

/-- **The run of the loop**: it leaves the buffer exactly when the scan enters the byte behind
it. -/
theorem findLoop_eq_none_iff (hgap : 1 ≤ gap_size) (hgap64 : gap_size < 2 ^ 64)
    (rest : List Byte) (st : FindSt) (s j n : ℕ) (hrest : rest = bm.drop j)
    (hjlen : j ≤ bm.length) (h : Entered bm bit_address gap_size stop s j n)
    (hst : st.Entering bit_address stop s j n) :
    findLoop gap_size rest st = none ↔
      ∃ s' n', Entered bm bit_address gap_size stop s' bm.length n' := by
  induction rest generalizing st s j n with
  | nil =>
    have hlen : bm.length ≤ j := List.drop_eq_nil_iff.mp hrest.symm
    obtain rfl : j = bm.length := by omega
    exact ⟨fun _ => ⟨s, n, h⟩, fun _ => rfl⟩
  | cons byte rest ih =>
    obtain ⟨hj, hbyte, hrest'⟩ := cons_eq_drop hrest
    have hle := h.le
    have hmiss := h.missing_pos hgap
    have hlo := le_scanStart bit_address j
    have hhi := scanStart_lt (show bit_address / 8 ≤ j by omega)
    have hfrom : bit_address / 8 ≤ j := by omega
    have hnext : scanStart bit_address (j + 1) = 8 * (j + 1) :=
      scanStart_of_lt (Nat.lt_succ_of_le hfrom)
    have hscan := byteScan_wanted n hj hfrom
    rw [findLoop, hst.aligned, hst.count, count_next hfrom, hst.missing, hbyte]
    generalize byteFindGap (scanStart bit_address j - 8 * j) (toInt32 n) bm[j] = r at hscan
    cases hscan with
    | hit addr hrun =>
      have hfit := hrun.hasRun.le_eight
      simp only [if_pos (show (0 : ℤ) ≤ ((addr - 8 * j : ℕ) : ℤ) by omega), hst.may]
      by_cases hs : s < j
      · rw [decide_eq_true hs, if_neg (by simp)]
        by_cases hsmall : n < 2 ^ 31
        · -- everything that was missing is found
          have hself : sub64 n (wanted n) = 0 := by
            rw [wanted_of_lt hmiss.1 hsmall, sub64_of_le le_rfl (by omega)]
            omega
          rw [if_pos hself]
          refine iff_of_false (by simp) (not_entered_of_stop h ?_ hj)
          intro s' n' hgo
          cases hgo with
          | found hrun' hopen hmore => omega
          | reset hno htail hroom => exact hno hrun.hasRun
          | carry hno htail => exact hno hrun.hasRun
        · have hsub : sub64 n (wanted n) = n - wanted n := sub64_of_le (by omega) (by omega)
          rw [hsub, if_neg (by omega)]
          refine ih _ s (j + 1) (n - wanted n) hrest' (by omega)
            (Entered.step h (Goes.found hrun.hasRun hs (by omega))) ?_
          exact ⟨by simp [hnext], rfl, rfl, by simp; omega⟩
      · rw [decide_eq_false hs, if_pos rfl]
        refine iff_of_false (by simp) (not_entered_of_stop h ?_ hj)
        intro s' n' hgo
        cases hgo with
        | found hrun' hopen hmore => exact hs hopen
        | reset hno htail hroom => exact hno hrun.hasRun
        | carry hno htail => exact hno hrun.hasRun
    | reset hno htail =>
      simp only [if_neg (show ¬ (0 : ℤ) ≤ -1 by decide), if_true]
      by_cases hroom : 8 * (j + 1) + gap_size ≤ stop
      · rw [if_neg (by omega)]
        refine ih _ (j + 1) (j + 1) gap_size hrest' (by omega)
          (Entered.step h (Goes.reset hno htail hroom)) ?_
        exact ⟨by simp [hnext], rfl, rfl, by simp⟩
      · -- no gap fits behind the byte
        rw [if_pos (by omega)]
        refine iff_of_false (by simp) (not_entered_of_stop h ?_ hj)
        intro s' n' hgo
        cases hgo with
        | found hrun hopen hmore => exact hno hrun
        | reset hno' htail' hroom' => exact hroom hroom'
        | carry hno' htail' => omega
    | carry hno htail =>
      have hgo : Goes bm bit_address gap_size stop s j n s (n - tailLen bm bit_address j) :=
        Goes.carry hno htail
      have hnext' := (Entered.step h hgo).missing_pos hgap
      simp only [if_neg (show ¬ (0 : ℤ) ≤ -2 by decide), if_neg (show ¬ (-2 : ℤ) = -1 by decide)]
      refine ih _ s (j + 1) _ hrest' (by omega) (Entered.step h hgo) ?_
      exact ⟨by simp [hnext], rfl, sub64_of_le (by omega) (by omega), by simp; omega⟩

variable (bm bit_address s j n) in
/-- Byte `j`, entered with `n` bits missing of a gap open since byte `s`, completes the gap, or it
holds too few clear bits and ends in a set one. -/
def EndsScan : Prop :=
  HasRun bm bit_address j (wanted n) ∧ (s = j ∨ n < 2 ^ 31) ∨
    ¬ HasRun bm bit_address j (wanted n) ∧ tailLen bm bit_address j = 0

/-- Where no gap fits behind a byte, it is such a byte that keeps the scan from going on. -/
lemma endsScan_iff (hle : s ≤ j) (hroom : ¬ 8 * (j + 1) + gap_size ≤ stop) :
    EndsScan bm bit_address s j n ↔ ∀ s' n', ¬ Goes bm bit_address gap_size stop s j n s' n' := by
  constructor
  · intro hends s' n' hgo
    rcases hends with ⟨hrun, hdone⟩ | ⟨hno, htail⟩
    · cases hgo with
      | found hrun' hopen hmore => omega
      | reset hno htail hroom' => exact hno hrun
      | carry hno htail => exact hno hrun
    · cases hgo with
      | found hrun' hopen hmore => exact hno hrun'
      | reset hno' htail' hroom' => exact hroom hroom'
      | carry hno' htail' => omega
  · intro hstop
    by_cases hrun : HasRun bm bit_address j (wanted n)
    · refine .inl ⟨hrun, ?_⟩
      by_contra hmore
      exact hstop _ _ (Goes.found hrun (by omega) (by omega))
    · refine .inr ⟨hrun, ?_⟩
      by_contra htail
      exact hstop _ _ (Goes.carry hrun (by omega))

/-- A gap size that is an `int` is passed on as it is: this is the scan of `Carried`. -/
lemma entered_iff_carried (hgap : 1 ≤ gap_size) (h31 : gap_size < 2 ^ 31) :
    Entered bm bit_address gap_size stop s j n ↔ Carried bm bit_address gap_size stop s j n := by
  constructor
  · intro h
    induction h with
    | start => exact Carried.start
    | step h hgo ih =>
      have hmiss := h.missing_pos hgap
      have hwanted := wanted_of_lt hmiss.1 (by omega)
      cases hgo with
      | found hrun hopen hmore => omega
      | reset hno htail hroom => exact ih.reset (hwanted ▸ hno) htail hroom
      | carry hno htail => exact ih.carry (hwanted ▸ hno) htail
  · intro h
    induction h with
    | start => exact Entered.start
    | reset h hno htail hroom ih =>
      have hmiss := h.missing_pos hgap
      refine ih.step (Goes.reset ?_ htail hroom)
      rwa [wanted_of_lt hmiss.1 (by omega)]
    | carry h hno htail ih =>
      have hmiss := h.missing_pos hgap
      refine ih.step (Goes.carry ?_ htail)
      rwa [wanted_of_lt hmiss.1 (by omega)]

variable (bm bit_address gap_size stop) in
/-- The same by the bits: if no byte before `j` holds what is missing there, byte `j` does, or it
ends in a set bit. A gap is open at byte `j` since byte `s` where the bytes `s .. j - 1` end in
clear bits, and missing is what these leave of `gap_size`. -/
def EndsByBits (j : ℕ) : Prop :=
  ∀ s, OpenSince bm bit_address s j → (s = bit_address / 8 ∨ 8 * s + gap_size ≤ stop) →
    (∀ s' j', j' < j → OpenSince bm bit_address s' j' →
      ¬ HasRun bm bit_address j' (missing bm bit_address gap_size s' j')) →
    HasRun bm bit_address j (missing bm bit_address gap_size s j) ∨ tailLen bm bit_address j = 0

lemma endsByBits_iff (hgap : 1 ≤ gap_size) (h31 : gap_size < 2 ^ 31) :
    (∀ s n, Entered bm bit_address gap_size stop s j n → EndsScan bm bit_address s j n) ↔
      EndsByBits bm bit_address gap_size stop j := by
  have hends : ∀ {s n}, Entered bm bit_address gap_size stop s j n →
      (EndsScan bm bit_address s j n ↔
        HasRun bm bit_address j n ∨ tailLen bm bit_address j = 0) := by
    -- with fewer than `2 ^ 31` bits missing, the `int` is the number of them
    intro s n h
    have hmiss := h.missing_pos hgap
    rw [EndsScan, wanted_of_lt hmiss.1 (by omega)]
    by_cases hrun : HasRun bm bit_address j n
    · have hsmall : s = j ∨ n < 2 ^ 31 := .inr (by omega)
      simp only [hrun, hsmall, true_and, true_or]
    · simp [hrun]
  constructor
  · intro h s hopen hroom hearlier
    have hentered := (entered_iff_carried hgap h31).mpr
      (carried_iff.mpr ⟨hopen, rfl, hroom, hearlier⟩)
    exact (hends hentered).mp (h s _ hentered)
  · intro h s n hentered
    rw [hends hentered]
    rcases carried_iff.mp ((entered_iff_carried hgap h31).mp hentered) with
      ⟨hopen, rfl, hroom, hearlier⟩
    exact h s hopen hroom hearlier

end Scan

/-! ## The whole search -/

/-- `bm_find` ends without a read outside `bm`, the bytes of the map. -/
def StaysInside (bm : List Byte) (total_bits bit_address count gap_size found_address : ℕ) :
    Prop :=
  ∃ r, bmFind bm total_bits bit_address count gap_size found_address = some r

/-- The search stays inside the map exactly when its arguments are refused, or the last byte of the
map ends the scan if it is entered. -/
theorem staysInside_iff_last {bm : List Byte} {total_bits bit_address count gap_size : ℕ}
    (found_address : ℕ) (hlen : bm.length = (total_bits + 7) / 8)
    (h64 : bit_address + count < 2 ^ 64) :
    StaysInside bm total_bits bit_address count gap_size found_address ↔
      (bit_address < total_bits → 1 ≤ gap_size → gap_size ≤ count →
        ∀ s n, Entered bm bit_address gap_size (min (bit_address + count) total_bits) s
            (bm.length - 1) n →
          EndsScan bm bit_address s (bm.length - 1) n) := by
  by_cases hargs : bit_address ≥ total_bits ∨ gap_size = 0 ∨ count = 0 ∨ gap_size > count
  · -- the arguments are refused before any byte is read
    have hret : StaysInside bm total_bits bit_address count gap_size found_address :=
      ⟨_, by rw [bmFind, if_pos hargs]⟩
    exact iff_of_true hret fun h₁ h₂ h₃ => by omega
  · have hlast : bm.length - 1 + 1 = bm.length := by omega
    have hstart : scanStart bit_address (bit_address / 8) = bit_address := scanStart_div
    have hloop : StaysInside bm total_bits bit_address count gap_size found_address ↔
        ¬ ∃ s' n', Entered bm bit_address gap_size (min (bit_address + count) total_bits) s'
          bm.length n' := by
      rw [StaysInside, ← Option.isSome_iff_exists, ← Option.ne_none_iff_isSome, bmFind,
        if_neg hargs, ne_eq, not_iff_not]
      refine findLoop_eq_none_iff (by omega) (by omega) _ _ (bit_address / 8) (bit_address / 8)
        gap_size rfl (by omega) Entered.start ?_
      exact
        { aligned := by rw [hstart]; simp only; omega
          count := by
            rw [hstart, u64_of_lt h64]
            simp only
            split <;> omega
          missing := rfl
          may := by simp }
    rw [hloop]
    have hnext : ∀ {s n}, Entered bm bit_address gap_size (min (bit_address + count) total_bits) s
        (bm.length - 1) n → (EndsScan bm bit_address s (bm.length - 1) n ↔ ∀ s' n',
          ¬ Goes bm bit_address gap_size (min (bit_address + count) total_bits) s
            (bm.length - 1) n s' n') :=
      fun h => endsScan_iff h.le.2 (by omega)
    constructor
    · intro hout _ _ _ s n h
      rw [hnext h]
      intro s' n' hgo
      exact hout ⟨s', n', hlast ▸ Entered.step h hgo⟩
    · rintro hends ⟨s', n', h'⟩
      -- the byte behind the map is entered from the last one
      obtain ⟨s, n, s₁, n₁, h, hgo⟩ := h'.through (i := bm.length - 1) (by omega) (by omega)
      have hstop := hends (by omega) (by omega) (by omega) s n h
      rw [hnext h] at hstop
      exact hstop s₁ n₁ hgo

/-- **The search stays inside the map** exactly when its arguments are refused, or the last byte of
the map ends the scan if no byte before it does: it holds the clear bits that are missing there, or
it ends in a set bit. From `2 ^ 31` on a byte in the middle can hold what the `int` asks for and the
scan goes on with the gap, so that what is missing is no sum over the ends of the bytes any more:
it is followed from byte to byte there. -/
theorem staysInside_iff (bm : List Byte)
    (total_bits bit_address count gap_size found_address : ℕ)
    (hlen : bm.length = (total_bits + 7) / 8) (h64 : bit_address + count < 2 ^ 64) :
    StaysInside bm total_bits bit_address count gap_size found_address ↔
      (bit_address < total_bits → 1 ≤ gap_size → gap_size ≤ count →
        (gap_size < 2 ^ 31 → EndsByBits bm bit_address gap_size
          (min (bit_address + count) total_bits) (bm.length - 1)) ∧
        (2 ^ 31 ≤ gap_size → ∀ s n, Entered bm bit_address gap_size
          (min (bit_address + count) total_bits) s (bm.length - 1) n →
            EndsScan bm bit_address s (bm.length - 1) n)) := by
  rw [staysInside_iff_last found_address hlen h64]
  refine forall_congr' fun _ => forall_congr' fun hgap => forall_congr' fun _ => ?_
  by_cases h31 : gap_size < 2 ^ 31
  · rw [endsByBits_iff hgap h31]
    exact ⟨fun h => ⟨fun _ => h, fun hbig => absurd hbig (by omega)⟩, fun h => h.1 h31⟩
  · exact ⟨fun h => ⟨fun hsmall => absurd hsmall h31, fun _ => h⟩, fun h => h.2 (by omega)⟩

/-- A gap of four clear bits that starts with the last two of byte 0 and ends in byte 1, the last
one. -/
theorem staysInside_carried : StaysInside [0x3f#8, 0xf0#8] 16 0 16 4 0 := by
  refine (staysInside_iff [0x3f#8, 0xf0#8] 16 0 16 4 0 (by decide) (by decide)).mpr ?_
  refine fun _ _ _ => ⟨fun _ s hopen _ _ => .inl ?_, fun hbig => absurd hbig (by decide)⟩
  have htail : tailLen [0x3f#8, 0xf0#8] 0 0 = 2 := by decide
  have hle := hopen.le
  rcases hopen.fresh with rfl | hfresh
  · -- two bits are missing at byte 1, and it starts with them
    have hmissing : missing [0x3f#8, 0xf0#8] 0 4 0 1 = 2 := by decide
    change HasRun [0x3f#8, 0xf0#8] 0 1 (missing [0x3f#8, 0xf0#8] 0 4 0 1)
    rw [hmissing]
    exact ⟨8, by decide, by decide, by decide⟩
  · -- byte 0 does not end in a set bit, so no gap starts at byte 1
    have hlast : s ≤ 1 := hle
    have hs : s - 1 = 0 := by omega
    rw [hs, htail] at hfresh
    exact absurd hfresh (by decide)

/-- One set bit and seven clear ones: a search for eight clear bits in these eight bits reads the
byte behind them. -/
theorem search_leaves_map : ¬ StaysInside [0x01#8] 8 0 8 8 0 := by
  rintro ⟨r, hret⟩
  have hnone : bmFind [0x01#8] 8 0 8 8 0 = none := by decide
  rw [hnone] at hret
  simp at hret

end KanekFs.Map
