import KanekFs.Lib.CString
import KanekFs.Lib.Word

/-!
# Characters and numbers

The classes of `ctype.h` in the C locale, and the decimal conversions of the C library.

* `decimal` is the number that a list of digits stands for.
* `strtoul` and `strtol` skip white space, take a sign and the digits up to the first character
  that is none, and saturate. `atoi` is `strtol`, converted to an `int`.
* `strtoul_of_digit`: on a string that starts with a digit there is nothing but the digits.
* `atoi_of_int`: the decimal text of an `int` is read as this `int`.
-/

namespace Ctype

open Bytes CString Word

/-! ## Classes -/

def isdigit (c : Byte) : Bool := decide (48 ≤ c.toNat ∧ c.toNat ≤ 57)

def isalpha (c : Byte) : Bool :=
  decide (65 ≤ c.toNat ∧ c.toNat ≤ 90 ∨ 97 ≤ c.toNat ∧ c.toNat ≤ 122)

/-- Space, and the five characters from tab to carriage return. -/
def isspace (c : Byte) : Bool := decide (c.toNat = 32 ∨ 9 ≤ c.toNat ∧ c.toNat ≤ 13)

def toupper (c : Byte) : Byte := if 97 ≤ c.toNat ∧ c.toNat ≤ 122 then c - 32#8 else c

/-! ## Numbers -/

/-- The number with the given digits. -/
def decimal (ds : List Byte) : ℕ := ds.foldl (fun v c => v * 10 + (c.toNat - 48)) 0

/-- A sign in front of the digits: is it a minus, and what follows. -/
def takeSign : List Byte → Bool × List Byte
  | [] => (false, [])
  | c :: cs => if c = 45#8 then (true, cs) else if c = 43#8 then (false, cs) else (false, c :: cs)

/-- `strtoul( s, .., 10)`; a number that does not fit gives `ULONG_MAX`, with either sign. -/
def strtoul (s : CStr) : ℕ :=
  let t := takeSign (s.chars.dropWhile isspace)
  let v := decimal (t.2.takeWhile isdigit)
  if 2 ^ 64 ≤ v then 2 ^ 64 - 1 else if t.1 then sub64 0 v else v

/-- `strtol( s, .., 10)` -/
def strtol (s : CStr) : ℤ :=
  let t := takeSign (s.chars.dropWhile isspace)
  let v := decimal (t.2.takeWhile isdigit)
  if t.1 then max (-v) (-2 ^ 63) else min v (2 ^ 63 - 1)

def atoi (s : CStr) : ℤ := toInt32 (ofInt64 (strtol s))

/-! ## Lemmas -/

section Lemmas

variable {c : Byte} {ds cs : List Byte} {s : CStr}

lemma not_isspace_of_isdigit (h : isdigit c = true) : isspace c = false := by
  simp only [isdigit, isspace, decide_eq_true_eq, decide_eq_false_iff_not] at h ⊢
  omega

lemma takeSign_of_isdigit (h : isdigit c = true) : takeSign (c :: cs) = (false, c :: cs) := by
  simp only [isdigit, decide_eq_true_eq] at h
  have hminus : c ≠ 45#8 := by
    rintro rfl
    simp at h
  have hplus : c ≠ 43#8 := by
    rintro rfl
    simp at h
  rw [takeSign, if_neg hminus, if_neg hplus]

/-- Digits, and then the end or another character. -/
lemma takeWhile_isdigit (hds : ∀ d ∈ ds, isdigit d = true)
    (hcs : ∀ c ∈ cs.head?, isdigit c = false) :
    (ds ++ cs).takeWhile isdigit = ds := by
  rw [List.takeWhile_append_of_pos hds]
  cases cs with
  | nil => simp
  | cons c cs =>
    have hc : isdigit c = false := hcs c rfl
    simp [hc]

/-- A string that starts with a digit: no white space and no sign. -/
theorem strtoul_of_digit (h : ∃ c cs, s.chars = c :: cs ∧ isdigit c = true) :
    strtoul s = min (decimal (s.chars.takeWhile isdigit)) (2 ^ 64 - 1) := by
  rcases h with ⟨c, cs, hs, hc⟩
  have hskip : s.chars.dropWhile isspace = s.chars := by
    rw [hs, List.dropWhile_cons_of_neg (by simp [not_isspace_of_isdigit hc])]
  rw [strtoul, hskip, hs, takeSign_of_isdigit hc]
  simp only [Bool.false_eq_true, if_false]
  split_ifs <;> omega

/-- A string that starts with a letter is no number. -/
theorem strtoul_of_alpha (h : ∃ c cs, s.chars = c :: cs ∧ isalpha c = true) : strtoul s = 0 := by
  rcases h with ⟨c, cs, hs, hc⟩
  simp only [isalpha, decide_eq_true_eq] at hc
  have hspace : isspace c = false := by
    simp only [isspace, decide_eq_false_iff_not]
    omega
  have hdigit : isdigit c = false := by
    simp only [isdigit, decide_eq_false_iff_not]
    omega
  have hminus : c ≠ 45#8 := by
    rintro rfl
    simp at hc
  have hplus : c ≠ 43#8 := by
    rintro rfl
    simp at hc
  rw [strtoul, hs, List.dropWhile_cons_of_neg (by simp [hspace]), takeSign, if_neg hminus,
    if_neg hplus]
  simp [hdigit, decimal]

/-- The decimal text of a number that is not negative, or of a negative one with its sign. -/
def IsDecimal (cs : List Byte) (z : ℤ) : Prop :=
  ∃ ds, ds ≠ [] ∧ (∀ d ∈ ds, isdigit d = true) ∧
    (cs = ds ∧ z = decimal ds ∨ cs = 45#8 :: ds ∧ z = -decimal ds)

lemma strtol_of_isDecimal {z : ℤ} (h : IsDecimal s.chars z) (hlo : -2 ^ 63 ≤ z)
    (hhi : z < 2 ^ 63) : strtol s = z := by
  rcases h with ⟨ds, hne, hds, ⟨hs, hz⟩ | ⟨hs, hz⟩⟩
  · obtain ⟨c, cs, rfl⟩ := List.exists_cons_of_ne_nil hne
    have hc := hds c (by simp)
    rw [strtol, hs, List.dropWhile_cons_of_neg (by simp [not_isspace_of_isdigit hc]),
      takeSign_of_isdigit hc, List.takeWhile_eq_self_iff.mpr hds]
    simp only [Bool.false_eq_true, if_false]
    omega
  · have hall : ds.takeWhile isdigit = ds := List.takeWhile_eq_self_iff.mpr hds
    rw [strtol, hs, List.dropWhile_cons_of_neg (by decide), takeSign, if_pos rfl]
    simp only [hall, if_true]
    omega

/-- The text of an `int` is converted to this `int`. -/
theorem atoi_of_int {z : ℤ} (h : IsDecimal s.chars z) (hlo : -2 ^ 31 ≤ z) (hhi : z < 2 ^ 31) :
    atoi s = z := by
  rw [atoi, strtol_of_isDecimal h (by omega) (by omega), toInt32, ofInt64]
  split <;> omega

end Lemmas

end Ctype
