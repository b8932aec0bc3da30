import Mathlib.Data.List.Lex
import Mathlib.Data.Nat.Digits.Lemmas
import Mathlib.Tactic.Lemma
import Mathlib.Tactic.Linarith

/-!
# Words as numbers

A word over an ordered alphabet is made a number by giving each letter a digit and padding the
word with zeroes to `n` digits, most significant first.

* `ofWord b l` is the number with the digits `l`; on digit lists of one length, digits below
  `b`, it is the lexicographic order (`ofWord_lt_ofWord_iff`).
* `padded f n s` are the `n` digits of the word `s`. Where `f` is strictly monotone and positive
  on the alphabet, the digits have the order of the words (`padded_lt_padded_iff`), words that do
  not fit cut off.
* Where `f` is only monotone, words are out of order only if they first differ in two letters
  with the same digit (`padded_le_padded`).
-/

namespace Digits

variable {b h n : ℕ} {d : ℕ} {l l' : List ℕ}

/-! ## Digits -/

/-- The number with the digits `l` in base `b`, most significant digit first. -/
def ofWord (b : ℕ) (l : List ℕ) : ℕ := Nat.ofDigits b l.reverse

@[simp] theorem ofWord_nil : ofWord b [] = 0 := rfl

theorem ofWord_cons : ofWord b (d :: l) = d * b ^ l.length + ofWord b l := by
  rw [ofWord, List.reverse_cons, Nat.ofDigits_append, Nat.ofDigits_singleton, List.length_reverse,
    ofWord]
  ring

/-- The number, computed digit by digit. -/
theorem foldl_eq_ofWord (b h : ℕ) (l : List ℕ) :
    l.foldl (fun h d => h * b + d) h = h * b ^ l.length + ofWord b l := by
  induction l generalizing h with
  | nil => simp
  | cons d l ih =>
    rw [List.foldl_cons, ih, ofWord_cons, List.length_cons, pow_succ]
    ring

theorem ofWord_lt (hb : 1 < b) (hl : ∀ d ∈ l, d < b) : ofWord b l < b ^ l.length := by
  have hlt := Nat.ofDigits_lt_base_pow_length hb (l := l.reverse) (by simpa using hl)
  simpa [ofWord] using hlt

/-- On digit lists of one length the order of the numbers is the lexicographic order. -/
theorem ofWord_lt_ofWord_iff (hb : 1 < b) (hl : ∀ d ∈ l, d < b) (hl' : ∀ d ∈ l', d < b)
    (hlen : l.length = l'.length) : ofWord b l < ofWord b l' ↔ l < l' := by
  induction l generalizing l' with
  | nil =>
    obtain rfl : l' = [] := List.length_eq_zero_iff.mp hlen.symm
    simp
  | cons d l ih =>
    cases l' with
    | nil => simp at hlen
    | cons d' l' =>
      rw [List.forall_mem_cons] at hl hl'
      have hlen' : l.length = l'.length := by simpa using hlen
      have hrest := ofWord_lt hb hl.2
      have hrest' := ofWord_lt hb hl'.2
      rw [ofWord_cons, ofWord_cons, List.cons_lt_cons_iff, ← ih hl.2 hl'.2 hlen', hlen']
      rw [hlen'] at hrest
      rcases lt_trichotomy d d' with hlt | rfl | hgt
      · -- the first digit decides
        have hstep : (d + 1) * b ^ l'.length ≤ d' * b ^ l'.length := Nat.mul_le_mul_right _ hlt
        have hle : ofWord b l < b ^ l'.length := hrest
        rw [Nat.add_mul] at hstep
        simp only [hlt, true_or, iff_true]
        omega
      · simp
      · have hstep : (d' + 1) * b ^ l'.length ≤ d * b ^ l'.length := Nat.mul_le_mul_right _ hgt
        rw [Nat.add_mul] at hstep
        have hne : d ≠ d' := hgt.ne'
        simp only [hgt.not_gt, hne, false_and, or_self, iff_false]
        omega

/-- The lexicographic order, letter by letter. -/
theorem cons_le_cons_iff {α : Type*} [LinearOrder α] {a b : α} {s t : List α} :
    a :: s ≤ b :: t ↔ a < b ∨ a = b ∧ s ≤ t := by
  rw [← not_lt, List.cons_lt_cons_iff, ← not_lt (a := t)]
  rcases lt_trichotomy a b with h | rfl | h
  · simp [h, h.not_gt, h.ne']
  · simp
  · simp [h, h.not_gt, h.ne']

/-! ## Words -/

section Words

variable {α : Type*} {f : α → ℕ} {s t : List α}

/-- The first `n` letters of a word as digits, zeroes where there is none. -/
def padded (f : α → ℕ) : ℕ → List α → List ℕ
  | 0, _ => []
  | n + 1, [] => 0 :: padded f n []
  | n + 1, a :: s => f a :: padded f n s

@[simp] theorem length_padded : (padded f n s).length = n := by
  induction n generalizing s with
  | zero => rfl
  | succ n ih => cases s <;> simp [padded, ih]

/-- Every digit is the padding or the digit of a letter. -/
theorem mem_padded (h : d ∈ padded f n s) : d = 0 ∨ ∃ a ∈ s, d = f a := by
  induction n generalizing s with
  | zero => simp [padded] at h
  | succ n ih =>
    cases s with
    | nil =>
      rcases List.mem_cons.mp h with rfl | h
      · exact .inl rfl
      · exact ih h
    | cons a s =>
      rcases List.mem_cons.mp h with rfl | h
      · exact .inr ⟨a, by simp, rfl⟩
      · rcases ih h with rfl | ⟨a', ha', rfl⟩
        · exact .inl rfl
        · exact .inr ⟨a', by simp [ha'], rfl⟩

/-- The digits one by one. -/
theorem getElem_padded {i : ℕ} (hi : i < (padded f n s).length) :
    (padded f n s)[i] = ((s[i]?).map f).getD 0 := by
  induction n generalizing s i with
  | zero => simp at hi
  | succ n ih =>
    cases s with
    | nil =>
      cases i with
      | zero => rfl
      | succ i => simpa [padded] using ih (s := []) (by simpa [padded] using hi)
    | cons a s =>
      cases i with
      | zero => rfl
      | succ i => simpa [padded] using ih (s := s) (by simpa [padded] using hi)

/-- The empty word comes first. -/
theorem padded_nil_le : padded f n [] ≤ padded f n s := by
  induction n generalizing s with
  | zero => exact le_rfl
  | succ n ih =>
    cases s with
    | nil => exact le_rfl
    | cons a s =>
      rw [padded, padded, cons_le_cons_iff]
      rcases Nat.eq_zero_or_pos (f a) with h | h
      · exact .inr ⟨h.symm, ih⟩
      · exact .inl h

variable [LinearOrder α] {A : Set α}

/-- On an alphabet where the digits are strictly monotone and positive, words that fit have the
order of their digits. -/
theorem padded_lt_padded_iff (hf : StrictMonoOn f A) (hpos : ∀ a ∈ A, 0 < f a)
    (hs : ∀ a ∈ s, a ∈ A) (ht : ∀ a ∈ t, a ∈ A) (hls : s.length ≤ n) (hlt : t.length ≤ n) :
    padded f n s < padded f n t ↔ s < t := by
  induction n generalizing s t with
  | zero =>
    obtain rfl : s = [] := List.length_eq_zero_iff.mp (Nat.le_zero.mp hls)
    obtain rfl : t = [] := List.length_eq_zero_iff.mp (Nat.le_zero.mp hlt)
    simp [padded]
  | succ n ih =>
    cases s with
    | nil =>
      cases t with
      | nil => simp
      | cons b t =>
        -- the padding is less than every letter
        have hb := hpos b (ht b (by simp))
        simp only [padded, List.cons_lt_cons_iff, hb, true_or, List.nil_lt_cons]
    | cons a s =>
      rw [List.forall_mem_cons] at hs
      cases t with
      | nil =>
        have ha := hpos a hs.1
        have hne : f a ≠ 0 := ha.ne'
        simp [padded, List.cons_lt_cons_iff, hne]
      | cons b t =>
        rw [List.forall_mem_cons] at ht
        simp only [List.length_cons, Nat.add_le_add_iff_right] at hls hlt
        rw [padded, padded, List.cons_lt_cons_iff, List.cons_lt_cons_iff,
          hf.lt_iff_lt hs.1 ht.1, hf.injOn.eq_iff hs.1 ht.1, ih hs.2 ht.2 hls hlt]

/-- The two words first differ, among their first `n` letters, in letters with one digit. -/
def ShareDigit (f : α → ℕ) (n : ℕ) (s t : List α) : Prop :=
  ∃ p a b s' t', s = p ++ a :: s' ∧ t = p ++ b :: t' ∧ a ≠ b ∧ f a = f b ∧ p.length < n

omit [LinearOrder α] in
theorem ShareDigit.cons {a : α} (h : ShareDigit f n s t) :
    ShareDigit f (n + 1) (a :: s) (a :: t) := by
  rcases h with ⟨p, c, d, s', t', rfl, rfl, hne, heq, hp⟩
  exact ⟨a :: p, c, d, s', t', rfl, rfl, hne, heq, by simpa using hp⟩

/-- Where the digits are monotone, the only words out of order are those that first differ in
letters with one digit. -/
theorem padded_le_padded (hf : MonotoneOn f A) (hs : ∀ a ∈ s, a ∈ A) (ht : ∀ a ∈ t, a ∈ A)
    (hst : s ≤ t) (hshare : ¬ ShareDigit f n s t) : padded f n s ≤ padded f n t := by
  induction n generalizing s t with
  | zero => exact le_rfl
  | succ n ih =>
    cases s with
    | nil => exact padded_nil_le
    | cons a s =>
      cases t with
      | nil => exact absurd hst (by simp)
      | cons b t =>
        rw [List.forall_mem_cons] at hs ht
        rw [padded, padded, cons_le_cons_iff]
        rcases cons_le_cons_iff.mp hst with hab | ⟨rfl, hrest⟩
        · -- the words differ here, so the digits do
          have hle := hf hs.1 ht.1 hab.le
          refine .inl (lt_of_le_of_ne hle ?_)
          intro heq
          exact hshare ⟨[], a, b, s, t, rfl, rfl, hab.ne, heq, by simp⟩
        · exact .inr ⟨rfl, ih hs.2 ht.2 hrest fun h => hshare h.cons⟩

end Words

end Digits
