import KanekFs.Lib.Ctype
import Mathlib.Data.List.DropRight

/-!
# Trimming a string in place

`trim` of `utils.c`, on the bytes from `s` on. `front` is the byte in front of `s`, if it may be
read; an access to any other byte that is not there has no result, and neither has a `strcpy`
between strings that overlap.

* `trim_eq`: what `trim` makes of a string, in a buffer of any size. It reads the byte in front of
  the string exactly when there is nothing but white space, and the result does not depend on it.
* `trimsInside_iff`: it stays inside its string and trims it if and only if there is another
  character, and the last `strcpy` does not overlap.
-/

namespace KanekFs.Config

open Bytes CString Ctype

/-! ## Definitions -/

/-- The loop on the right; `s2` points to the last of the first `n` characters. -/
def trimRight (front : Option Byte) (p : List Byte) : ℕ → Option ℕ
  -- `*s2` is read before `s2 >= s1` is tested
  | 0 => front.map fun _ => 0
  | n + 1 => do
    let c ← p[n]?
    if isspace c then trimRight front p n else some (n + 1)

/-- The loop on the left, at `s1`, with the bytes from there on. -/
def trimLeft (s2 : ℤ) : ℕ → List Byte → Option ℕ
  | _, [] => none
  | s1, c :: p => if isspace c ∧ (s1 : ℤ) < s2 then trimLeft s2 (s1 + 1) p else some s1

/-- `*(s + i) = c` -/
def store (p : List Byte) (i : ℕ) (c : Byte) : Option (List Byte) :=
  if i < p.length then some (p.set i c) else none

/-- `strcpy( s, s + src)`. A string is left as it is when it is copied onto itself; when two
different strings overlap, anything may be left. -/
def strcpyFront (src : ℕ) (p : List Byte) : Option (List Byte) :=
  let n := strlen (ofBuffer (p.drop src))
  -- the terminator is missing
  if p.length ≤ src + n then none
  else if src = 0 then some p
  else if src ≤ n then none
  else some ((p.drop src).take (n + 1) ++ p.drop (n + 1))

def trim (front : Option Byte) (p : List Byte) : Option (List Byte) := do
  -- `s2` is one less than `n`
  let n ← trimRight front p (strlen (ofBuffer p))
  let p ← store p n 0#8
  let s1 ← trimLeft ((n : ℤ) - 1) 0 p
  strcpyFront s1 p

/-- The string without leading and trailing white space. -/
def strip (s : CStr) : CStr where
  chars := (s.chars.rdropWhile isspace).dropWhile isspace
  nul_free h := s.nul_free ((List.rdropWhile_prefix isspace _).subset
    ((List.dropWhile_sublist isspace).subset h))

/-- The white space in front. -/
def leading (s : CStr) : ℕ := (s.chars.takeWhile isspace).length

/-- There is white space in front, and no more than the rest of the string has characters: the
`strcpy` that moves the rest to the front copies between overlapping strings. -/
def Overlaps (s : CStr) : Prop := 1 ≤ leading s ∧ leading s ≤ strlen (strip s)

instance (s : CStr) : Decidable (Overlaps s) := inferInstanceAs (Decidable (_ ∧ _))

/-! ## The loops -/

section Loops

variable {front : Option Byte} {cs r : List Byte} {c : Byte}

lemma isspace_nul : isspace 0#8 = false := by decide

lemma ofBuffer_append_nul (hcs : 0#8 ∉ cs) : (ofBuffer (cs ++ 0#8 :: r)).chars = cs := by
  have hall : ∀ c ∈ cs, decide (c ≠ 0#8) = true := by
    intro c hc
    simpa using fun h : c = 0#8 => hcs (h ▸ hc)
  simp only [ofBuffer]
  rw [List.takeWhile_append_of_pos hall]
  simp

/-- On the right the loop stops behind the last character that is no white space, or reads on. -/
lemma trimRight_eq : trimRight front (cs ++ r) cs.length =
    if ∀ c ∈ cs, isspace c = true then front.map fun _ => 0
    else some (cs.rdropWhile isspace).length := by
  induction cs using List.reverseRecOn generalizing r with
  | nil => simp [trimRight]
  | append_singleton cs c ih =>
    have hget : (cs ++ [c] ++ r)[cs.length]? = some c := by simp
    rw [List.length_append, List.length_singleton, trimRight, hget, Option.bind_eq_bind,
      Option.bind_some]
    have hall : (∀ d ∈ cs ++ [c], isspace d = true) ↔
        (∀ d ∈ cs, isspace d = true) ∧ isspace c = true := by
      rw [List.forall_mem_append, List.forall_mem_singleton]
    by_cases hc : isspace c = true
    · rw [if_pos hc, List.append_assoc, ih, List.rdropWhile_concat_pos _ _ _ hc]
      simp only [hall, hc, and_true]
    · rw [if_neg hc, List.rdropWhile_concat_neg _ _ _ hc, if_neg fun h => hc (hall.mp h).2,
        List.length_append, List.length_singleton]

/-- On the left it stops at the first character that is none; there is one, or the terminator. -/
lemma trimLeft_eq {s1 : ℕ} {s2 : ℤ} {ws : List Byte} (hws : ∀ w ∈ ws, isspace w = true)
    (hc : isspace c = false) (hs2 : (s1 : ℤ) + ws.length ≤ s2 ∨ ws = []) :
    trimLeft s2 s1 (ws ++ c :: r) = some (s1 + ws.length) := by
  induction ws generalizing s1 with
  | nil => simp [trimLeft, hc]
  | cons w ws ih =>
    rw [List.forall_mem_cons] at hws
    simp only [List.length_cons, reduceCtorEq, or_false, Nat.cast_add, Nat.cast_one] at hs2 ⊢
    rw [List.cons_append, trimLeft, if_pos ⟨hws.1, by omega⟩,
      ih hws.2 (.inl (by push_cast; omega))]
    congr 1
    omega

/-- A string is moved to the front where it does not reach into itself. -/
lemma strcpyFront_eq (ws r : List Byte) (hcs : 0#8 ∉ cs) :
    ∃ r', strcpyFront ws.length (ws ++ (cs ++ 0#8 :: r)) =
      if ws ≠ [] ∧ ws.length ≤ cs.length then none else some (cs ++ 0#8 :: r') := by
  have hdrop : (ws ++ (cs ++ 0#8 :: r)).drop ws.length = cs ++ 0#8 :: r := List.drop_left
  have hn : strlen (ofBuffer (cs ++ 0#8 :: r)) = cs.length := by
    rw [strlen, ofBuffer_append_nul hcs]
  have hend : ¬ (ws ++ (cs ++ 0#8 :: r)).length ≤ ws.length + cs.length := by
    simp only [List.length_append, List.length_cons]
    omega
  have htake : (cs ++ 0#8 :: r).take (cs.length + 1) = cs ++ [0#8] := by
    rw [List.take_length_add_append]
    rfl
  simp only [strcpyFront, hdrop, hn, if_neg hend, htake]
  cases ws with
  | nil => exact ⟨r, by simp⟩
  | cons w ws =>
    refine ⟨(w :: ws ++ (cs ++ 0#8 :: r)).drop (cs.length + 1), ?_⟩
    simp only [List.length_cons, Nat.succ_ne_zero, if_false, ne_eq, reduceCtorEq,
      not_false_eq_true, true_and, List.append_assoc, List.singleton_append]

end Loops

/-! ## The whole function -/

section Trim

variable {front : Option Byte} {r : List Byte} {s : CStr}

lemma store_append {p : List Byte} {b c : Byte} :
    store (p ++ b :: r) p.length c = some (p ++ c :: r) := by
  simp [store]

/-- White space, and then nothing or another character. -/
lemma takeWhile_cases (cs : List Byte) : (∀ c ∈ cs, isspace c = true) ∨
    ∃ ws c t, cs = ws ++ c :: t ∧ (∀ w ∈ ws, isspace w = true) ∧ isspace c = false ∧
      cs.dropWhile isspace = c :: t := by
  cases hdrop : cs.dropWhile isspace with
  | nil => exact .inl (List.dropWhile_eq_nil_iff.mp hdrop)
  | cons c t =>
    refine .inr ⟨cs.takeWhile isspace, c, t, ?_, ?_, ?_, rfl⟩
    · rw [← hdrop, List.takeWhile_append_dropWhile]
    · intro w hw
      exact List.mem_takeWhile_imp hw
    · have hhead := List.head?_dropWhile_not isspace cs
      rw [hdrop] at hhead
      simpa using hhead

lemma rdropWhile_append_cons {before after : List Byte} {a : Byte}
    (ha : isspace a = false) :
    (before ++ a :: after).rdropWhile isspace = before ++ a :: after.rdropWhile isspace := by
  induction after using List.reverseRecOn with
  | nil => rw [List.rdropWhile_concat_neg _ _ _ (by simp [ha]), List.rdropWhile_nil]
  | append_singleton after c ih =>
    rw [← List.cons_append, ← List.append_assoc]
    by_cases hc : isspace c = true
    · rw [List.rdropWhile_concat_pos _ _ _ hc, List.rdropWhile_concat_pos _ _ _ hc, ih]
    · rw [List.rdropWhile_concat_neg _ _ _ hc, List.rdropWhile_concat_neg _ _ _ hc,
        List.append_assoc, List.cons_append]

/-- What remains to be done when the white space on the right has been cut off. -/
lemma trim_left_eq {u : List Byte} (hu : 0#8 ∉ u)
    (hlast : ∀ h : u ≠ [], isspace (u.getLast h) = false) :
    ∃ r', (trimLeft ((u.length : ℤ) - 1) 0 (u ++ 0#8 :: r)).bind
        (fun s1 => strcpyFront s1 (u ++ 0#8 :: r)) =
      if u.takeWhile isspace ≠ [] ∧
          (u.takeWhile isspace).length ≤ (u.dropWhile isspace).length then none
      else some (u.dropWhile isspace ++ 0#8 :: r') := by
  rcases takeWhile_cases u with hall | ⟨ws, c, t, rfl, hws, hc, hdrop⟩
  · -- the last character would be white space
    obtain rfl : u = [] := by
      by_contra hne
      have hspace := hall _ (List.getLast_mem hne)
      rw [hlast hne] at hspace
      cases hspace
    have hleft : trimLeft (((0 : ℕ) : ℤ) - 1) 0 ([] ++ 0#8 :: r) = some (0 + 0) :=
      trimLeft_eq (by simp) isspace_nul (.inr rfl)
    rcases strcpyFront_eq [] r List.not_mem_nil with ⟨r', hcopy⟩
    refine ⟨r', ?_⟩
    rw [List.length_nil, hleft]
    exact hcopy
  · have hcs : 0#8 ∉ c :: t := fun h => hu (List.mem_append_right ws h)
    rcases strcpyFront_eq ws r hcs with ⟨r', hcopy⟩
    refine ⟨r', ?_⟩
    have htake : (ws ++ c :: t).takeWhile isspace = ws := by
      rw [List.takeWhile_append_of_pos hws, List.takeWhile_cons_of_neg (by simp [hc]),
        List.append_nil]
    have hlen : ((0 : ℕ) : ℤ) + ws.length ≤ ((ws ++ c :: t).length : ℤ) - 1 := by
      rw [List.length_append, List.length_cons]
      omega
    have hleft := trimLeft_eq (r := t ++ 0#8 :: r) hws hc (.inl hlen)
    rw [hdrop, htake, List.append_assoc, List.cons_append, hleft, Option.bind_some, Nat.zero_add]
    exact hcopy

/-- Cutting off the right side leaves the white space in front, where there is another
character. -/
lemma takeWhile_rdropWhile {cs : List Byte} (h : ¬∀ c ∈ cs, isspace c = true) :
    (cs.rdropWhile isspace).takeWhile isspace = cs.takeWhile isspace := by
  rcases takeWhile_cases cs with hall | ⟨ws, c, t, rfl, hws, hc, -⟩
  · exact absurd hall h
  · rw [rdropWhile_append_cons hc, List.takeWhile_append_of_pos hws,
      List.takeWhile_append_of_pos hws, List.takeWhile_cons_of_neg (by simp [hc]),
      List.takeWhile_cons_of_neg (by simp [hc])]

/-- Where the buffer has been cut off on the right, the copy overlaps as `Overlaps` says. -/
lemma overlaps_iff_rdropWhile : Overlaps s ↔ (s.chars.rdropWhile isspace).takeWhile isspace ≠ [] ∧
    ((s.chars.rdropWhile isspace).takeWhile isspace).length ≤ (strip s).chars.length := by
  by_cases hall : ∀ c ∈ s.chars, isspace c = true
  · have hempty : s.chars.rdropWhile isspace = [] := List.rdropWhile_eq_nil_iff.mpr hall
    have hstrip : strlen (strip s) = 0 := by simp [strlen, strip, hempty]
    refine iff_of_false ?_ (by simp [hempty])
    rintro ⟨hpos, hle⟩
    omega
  · rw [takeWhile_rdropWhile hall, Overlaps, leading, strlen, Nat.one_le_iff_ne_zero, ne_eq,
      List.length_eq_zero_iff]

/-- **What `trim` does.** -/
theorem trim_eq (front : Option Byte) (s : CStr) (r : List Byte) :
    ∃ r', trim front (s.chars ++ 0#8 :: r) =
      if Overlaps s then none
      else if ∀ c ∈ s.chars, isspace c = true then
        front.map fun _ => (strip s).chars ++ 0#8 :: r'
      else some ((strip s).chars ++ 0#8 :: r') := by
  have hlen : strlen (ofBuffer (s.chars ++ 0#8 :: r)) = s.chars.length := by
    rw [strlen, ofBuffer_append_nul s.nul_free]
  -- the buffer when the right side has been cut off
  obtain ⟨b, r₁, hr₁⟩ : ∃ b r₁, s.chars ++ 0#8 :: r = s.chars.rdropWhile isspace ++ b :: r₁ := by
    have hcons : s.chars.rtakeWhile isspace ++ 0#8 :: r ≠ [] := by simp
    obtain ⟨b, r₁, hb⟩ := List.exists_cons_of_ne_nil hcons
    refine ⟨b, r₁, ?_⟩
    rw [← hb, ← List.append_assoc, List.rdropWhile_append_rtakeWhile]
  have hnul : 0#8 ∉ s.chars.rdropWhile isspace :=
    fun h => s.nul_free ((List.rdropWhile_prefix isspace _).subset h)
  have hlast : ∀ h : s.chars.rdropWhile isspace ≠ [],
      isspace ((s.chars.rdropWhile isspace).getLast h) = false := by
    intro h
    simpa using List.rdropWhile_last_not isspace s.chars h
  rcases trim_left_eq (r := r₁) hnul hlast with ⟨r', hrest⟩
  have hdone : (store (s.chars ++ 0#8 :: r) (s.chars.rdropWhile isspace).length 0#8).bind
      (fun p => (trimLeft (((s.chars.rdropWhile isspace).length : ℤ) - 1) 0 p).bind
        fun s1 => strcpyFront s1 p) =
      if Overlaps s then none else some ((strip s).chars ++ 0#8 :: r') := by
    rw [hr₁, store_append, Option.bind_some, if_congr overlaps_iff_rdropWhile rfl rfl]
    exact hrest
  refine ⟨r', ?_⟩
  rw [trim, hlen, trimRight_eq]
  by_cases hall : ∀ c ∈ s.chars, isspace c = true
  · have hempty : s.chars.rdropWhile isspace = [] := List.rdropWhile_eq_nil_iff.mpr hall
    have hapart : ¬Overlaps s := by simp [overlaps_iff_rdropWhile, hempty]
    rw [hempty, List.length_nil, if_neg hapart] at hdone
    rw [if_pos hall, if_neg hapart, if_pos hall]
    cases front with
    | none => rfl
    | some b => exact hdone
  · rw [if_neg hall, if_neg hall]
    exact hdone

/-- The byte in front of the string may be read, and does not matter. -/
lemma trim_some (b : Byte) : ∃ r', trim (some b) (s.chars ++ 0#8 :: r) =
    if Overlaps s then none else some ((strip s).chars ++ 0#8 :: r') := by
  rcases trim_eq (some b) s r with ⟨r', htrim⟩
  refine ⟨r', ?_⟩
  rw [htrim]
  split_ifs <;> rfl

end Trim

/-- Given the string and its terminator and no other byte, `trim` leaves the string without leading
and trailing white space. -/
def TrimsInside (s : CStr) : Prop :=
  ∃ p, trim none (s.chars ++ [0#8]) = some p ∧ ofBuffer p = strip s

/-- **When `trim` stays inside its string** and trims it: if and only if there is a character that
is no white space, and the white space in front is none or longer than what is moved over it. -/
theorem trimsInside_iff (s : CStr) :
    TrimsInside s ↔ (∃ c ∈ s.chars, isspace c = false) ∧ ¬Overlaps s := by
  rcases trim_eq none s [] with ⟨r', htrim⟩
  constructor
  · rintro ⟨p, hp, -⟩
    rw [htrim] at hp
    have hapart : ¬Overlaps s := by
      intro hover
      rw [if_pos hover] at hp
      cases hp
    refine ⟨?_, hapart⟩
    by_contra hno
    have hall : ∀ c ∈ s.chars, isspace c = true := by
      intro c hc
      by_contra hspace
      exact hno ⟨c, hc, by simpa using hspace⟩
    rw [if_neg hapart, if_pos hall] at hp
    cases hp
  · rintro ⟨⟨c, hc, hspace⟩, hapart⟩
    have hnot : ¬∀ c ∈ s.chars, isspace c = true := by
      intro hall
      rw [hall c hc] at hspace
      cases hspace
    refine ⟨_, htrim.trans ((if_neg hapart).trans (if_neg hnot)), ?_⟩
    exact CStr.ext (ofBuffer_append_nul (strip s).nul_free)

/-- Of two spaces the loop on the right runs out of the string; of a space and two letters the
letters are copied over themselves. -/
theorem trim_leaves_blank_string :
    (trim none [32#8, 32#8, 0#8] = none ∧ ¬TrimsInside (ofChars "  ")) ∧
      trim none [32#8, 97#8, 98#8, 0#8] = none ∧ ¬TrimsInside (ofChars " ab") := by
  refine ⟨⟨by decide, ?_⟩, by decide, ?_⟩
  · rintro ⟨p, hp, -⟩
    have hnone : trim none ((ofChars "  ").chars ++ [0#8]) = none := by decide
    cases hnone.symm.trans hp
  · rintro ⟨p, hp, -⟩
    have hnone : trim none ((ofChars " ab").chars ++ [0#8]) = none := by decide
    cases hnone.symm.trans hp

end KanekFs.Config
