import KanekFs.Lib.Bytes
import Mathlib.Data.List.Lex
import Mathlib.Data.List.TakeWhile

/-!
# C strings

A string in memory is its characters up to the terminator. `strcmp`, `strncmp`, `strncpy` and
`strtok` are those of the C library, the characters compared as unsigned.

* `strcmp_lt_zero_iff` and `strcmp_le_zero_iff`: `strcmp` is the lexicographic order.
* `strncmp_strncpy_eq_zero_iff`: a string compared with one that was copied into a buffer of `n`
  bytes, `n` bytes compared, is equal to it if and only if both have the same first `n`
  characters.
-/

namespace CString

open Bytes

/-- A NUL-terminated string, without the terminator. -/
structure CStr where
  chars : List Byte
  nul_free : 0#8 ∉ chars

namespace CStr

variable {s t : CStr}

instance : DecidableEq CStr := fun s t =>
  decidable_of_iff (s.chars = t.chars) ⟨fun h => by cases s; cases t; simp_all, congrArg chars⟩

@[ext] theorem ext (h : s.chars = t.chars) : s = t := by
  cases s
  cases t
  simp_all

/-- The characters as unsigned bytes. -/
def codes (s : CStr) : List ℕ := s.chars.map BitVec.toNat

theorem codes_injective : Function.Injective codes := by
  intro s t h
  exact ext (List.map_injective_iff.mpr (fun _ _ => BitVec.eq_of_toNat_eq) h)

/-- No character of a string is the terminator. -/
theorem ne_zero_of_mem {c : Byte} (h : c ∈ s.chars) : c ≠ 0#8 := fun h₀ => s.nul_free (h₀ ▸ h)

/-- The first `n` characters. -/
def take (n : ℕ) (s : CStr) : CStr := ⟨s.chars.take n, fun h => s.nul_free (List.mem_of_mem_take h)⟩

theorem take_of_length_le {n : ℕ} (h : s.chars.length ≤ n) : s.take n = s :=
  ext (List.take_of_length_le h)

end CStr

def strlen (s : CStr) : ℕ := s.chars.length

/-- The string in a buffer: what stands before the first NUL. -/
def ofBuffer (buf : List Byte) : CStr where
  chars := buf.takeWhile (· ≠ 0#8)
  nul_free := fun h => by simpa using List.mem_takeWhile_imp h

/-- A string literal. -/
def ofChars (s : String) : CStr := ofBuffer (s.toList.map fun c => BitVec.ofNat 8 c.toNat)

/-! ## Comparing -/

/-- The comparison loop of `strcmp`; the end of a list is the terminator. -/
def compareChars : List Byte → List Byte → ℤ
  | [], [] => 0
  | [], b :: _ => -b.toNat
  | a :: _, [] => a.toNat
  | a :: s, b :: t => if a = b then compareChars s t else a.toNat - b.toNat

def strcmp (s t : CStr) : ℤ := compareChars s.chars t.chars

/-- `strncmp` on the memory behind two pointers. -/
def strncmp : ℕ → List Byte → List Byte → ℤ
  | 0, _, _ => 0
  | n + 1, s, t =>
    let a := s.headD 0#8
    let b := t.headD 0#8
    if a ≠ b then a.toNat - b.toNat else if a = 0#8 then 0 else strncmp n s.tail t.tail

/-- `strncpy` into a buffer of `n` bytes: padded with NULs, and cut without one. -/
def strncpy (n : ℕ) (s : CStr) : List Byte :=
  s.chars.take n ++ List.replicate (n - s.chars.length) 0#8

/-- Some of the characters of a string. -/
def CStr.part (s : CStr) (cs : List Byte) (h : cs.Sublist s.chars) : CStr :=
  ⟨cs, fun h₀ => s.nul_free (h.subset h₀)⟩

/-- `strtok`: the first token, and what is left for the next call. -/
def strtok (delim s : CStr) : Option (CStr × CStr) :=
  let token := s.chars.dropWhile (· ∈ delim.chars)
  if token = [] then none
  else some (s.part (token.takeWhile (· ∉ delim.chars))
      ((List.takeWhile_sublist _).trans (List.dropWhile_sublist _)),
    s.part (token.dropWhile (· ∉ delim.chars)).tail
      ((List.tail_sublist _).trans ((List.dropWhile_sublist _).trans (List.dropWhile_sublist _))))

lemma length_strncpy (n : ℕ) (s : CStr) : (strncpy n s).length = n := by
  simp only [strncpy, List.length_append, List.length_take, List.length_replicate]
  omega

lemma toNat_pos {c : Byte} (h : c ≠ 0#8) : 0 < c.toNat := by
  rw [Nat.pos_iff_ne_zero]
  intro h₀
  exact h (BitVec.eq_of_toNat_eq h₀)

lemma compareChars_lt_zero_iff {s t : List Byte} (ht : 0#8 ∉ t) :
    compareChars s t < 0 ↔ s.map BitVec.toNat < t.map BitVec.toNat := by
  induction s generalizing t with
  | nil =>
    cases t with
    | nil => simp [compareChars]
    | cons b t =>
      -- the terminator comes before every character
      have hb : b ≠ 0#8 := fun h => ht (by simp [h])
      have hpos := toNat_pos hb
      simp only [compareChars, List.map_nil, List.map_cons, List.nil_lt_cons, iff_true]
      omega
  | cons a s ih =>
    cases t with
    | nil =>
      simp only [compareChars, List.map_nil, List.not_lt_nil, iff_false]
      omega
    | cons b t =>
      have ht' : 0#8 ∉ t := fun h => ht (by simp [h])
      rw [compareChars, List.map_cons, List.map_cons, List.cons_lt_cons_iff]
      by_cases hab : a = b
      · subst hab
        simp [ih ht']
      · have hne : a.toNat ≠ b.toNat := fun h => hab (BitVec.eq_of_toNat_eq h)
        rw [if_neg hab]
        simp only [hne, false_and, or_false]
        omega

lemma compareChars_eq_zero_iff {s t : List Byte} (hs : 0#8 ∉ s) (ht : 0#8 ∉ t) :
    compareChars s t = 0 ↔ s = t := by
  induction s generalizing t with
  | nil =>
    cases t with
    | nil => simp [compareChars]
    | cons b t =>
      have hpos := toNat_pos (c := b) fun h => ht (by simp [h])
      simp only [compareChars, reduceCtorEq, iff_false]
      omega
  | cons a s ih =>
    cases t with
    | nil =>
      have hpos := toNat_pos (c := a) fun h => hs (by simp [h])
      simp only [compareChars, reduceCtorEq, iff_false]
      omega
    | cons b t =>
      have hs' : 0#8 ∉ s := fun h => hs (by simp [h])
      have ht' : 0#8 ∉ t := fun h => ht (by simp [h])
      rw [compareChars]
      by_cases hab : a = b
      · simp [hab, ih hs' ht']
      · have hne : a.toNat ≠ b.toNat := fun h => hab (BitVec.eq_of_toNat_eq h)
        rw [if_neg hab]
        simp only [List.cons.injEq, hab, false_and, iff_false]
        omega

theorem strcmp_lt_zero_iff {s t : CStr} : strcmp s t < 0 ↔ s.codes < t.codes :=
  compareChars_lt_zero_iff t.nul_free

theorem strcmp_eq_zero_iff {s t : CStr} : strcmp s t = 0 ↔ s = t := by
  rw [strcmp, compareChars_eq_zero_iff s.nul_free t.nul_free]
  exact ⟨CStr.ext, congrArg CStr.chars⟩

theorem strcmp_le_zero_iff {s t : CStr} : strcmp s t ≤ 0 ↔ s.codes ≤ t.codes := by
  rw [le_iff_lt_or_eq, le_iff_lt_or_eq, strcmp_lt_zero_iff, strcmp_eq_zero_iff,
    CStr.codes_injective.eq_iff]

/-! ## Keys in buffers -/

/-- Two strings, the second one in a buffer of `n` bytes. -/
lemma strncmp_eq_zero_iff {n : ℕ} {s t : List Byte} (hs : 0#8 ∉ s) (ht : 0#8 ∉ t) :
    strncmp n s (t.take n ++ List.replicate (n - t.length) 0#8) = 0 ↔ s.take n = t.take n := by
  induction n generalizing s t with
  | zero => simp [strncmp]
  | succ n ih =>
    cases t with
    | nil =>
      cases s with
      | nil => simp [strncmp, List.replicate_succ]
      | cons a s =>
        have ha : a ≠ 0#8 := fun h => hs (by simp [h])
        have hpos := toNat_pos ha
        simp only [strncmp, List.take_nil, List.nil_append, List.length_nil, Nat.sub_zero,
          List.replicate_succ, List.headD_cons, ne_eq, ha, not_false_eq_true, if_true,
          List.take_succ_cons, reduceCtorEq, iff_false, BitVec.toNat_zero]
        omega
    | cons b t =>
      have hb : b ≠ 0#8 := fun h => ht (by simp [h])
      have ht' : 0#8 ∉ t := fun h => ht (by simp [h])
      cases s with
      | nil =>
        have hpos := toNat_pos hb
        simp only [strncmp, List.headD_nil, List.take_succ_cons, List.cons_append,
          List.headD_cons, ne_eq, hb.symm, not_false_eq_true, if_true, List.take_nil,
          reduceCtorEq, iff_false, BitVec.toNat_zero]
        omega
      | cons a s =>
        have hs' : 0#8 ∉ s := fun h => hs (by simp [h])
        simp only [strncmp, List.headD_cons, List.take_succ_cons, List.cons_append,
          List.tail_cons, List.length_cons, Nat.add_sub_add_right, ne_eq, List.cons.injEq]
        by_cases hab : a = b
        · simp [hab, hb, ih hs' ht']
        · have hne : a.toNat ≠ b.toNat := fun h => hab (BitVec.eq_of_toNat_eq h)
          simp only [hab, not_false_eq_true, if_true, false_and, iff_false]
          omega

/-- A key matches a buffer of `n` bytes exactly when it has the same first `n` characters as the
string that was copied into it. -/
theorem strncmp_strncpy_eq_zero_iff {n : ℕ} {s t : CStr} :
    strncmp n s.chars (strncpy n t) = 0 ↔ s.take n = t.take n := by
  rw [strncpy, strncmp_eq_zero_iff s.nul_free t.nul_free, CStr.ext_iff, CStr.take, CStr.take]

/-- The string in a buffer that a string was copied into. -/
theorem ofBuffer_strncpy (n : ℕ) (s : CStr) : ofBuffer (strncpy n s) = s.take n := by
  apply CStr.ext
  have hchars : ∀ c ∈ s.chars.take n, c ≠ 0#8 := fun c hc =>
    CStr.ne_zero_of_mem (List.mem_of_mem_take hc)
  simp only [ofBuffer, strncpy, CStr.take]
  rw [List.takeWhile_append_of_pos (by simpa using hchars)]
  cases n - s.chars.length <;> simp [List.replicate_succ]

/-! ## Tokens -/

section Tokens

variable {delim s : CStr} {d₁ t d₂ : List Byte}

lemma strtok_eq_none (h : ∀ c ∈ s.chars, c ∈ delim.chars) : strtok delim s = none := by
  have hnil : s.chars.dropWhile (· ∈ delim.chars) = [] :=
    List.dropWhile_eq_nil_iff.mpr fun c hc => by simpa using h c hc
  exact if_pos hnil

/-- Delimiters, a token, and then the end or another delimiter. -/
theorem strtok_eq_some (hs : s.chars = d₁ ++ (t ++ d₂)) (hd₁ : ∀ c ∈ d₁, c ∈ delim.chars)
    (ht : ∀ c ∈ t, c ∉ delim.chars) (hne : t ≠ []) (hd₂ : ∀ c ∈ d₂.head?, c ∈ delim.chars) :
    ∃ u v, strtok delim s = some (u, v) ∧ u.chars = t ∧ v.chars = d₂.tail := by
  have hskip : s.chars.dropWhile (· ∈ delim.chars) = t ++ d₂ := by
    rw [hs, List.dropWhile_append_of_pos (by simpa using hd₁)]
    obtain ⟨c, cs, rfl⟩ := List.exists_cons_of_ne_nil hne
    have hc := ht c (by simp)
    simp [hc]
  have hnot : ∀ c ∈ t, decide (c ∉ delim.chars) = true := by simpa using ht
  have htoken : (t ++ d₂).takeWhile (· ∉ delim.chars) = t := by
    rw [List.takeWhile_append_of_pos hnot]
    cases d₂ with
    | nil => simp
    | cons c d₂ =>
      have hc := hd₂ c rfl
      simp [hc]
  have hrest : (t ++ d₂).dropWhile (· ∉ delim.chars) = d₂ := by
    rw [List.dropWhile_append_of_pos hnot]
    cases d₂ with
    | nil => simp
    | cons c d₂ =>
      have hc := hd₂ c rfl
      simp [hc]
  have hsome : s.chars.dropWhile (· ∈ delim.chars) ≠ [] := by
    rw [hskip]
    simp [hne]
  refine ⟨_, _, if_neg hsome, ?_, ?_⟩
  · simp only [CStr.part, hskip, htoken]
  · simp only [CStr.part, hskip, hrest]

end Tokens

end CString
