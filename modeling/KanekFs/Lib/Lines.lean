import KanekFs.Lib.Bytes
import Mathlib.Tactic.Lemma

/-!
# Reading a text in pieces

`fgets` takes a line with its newline from a text, or as much of it as fits into the buffer.
`pieces k cs` are the results of its calls, one after the other, with a buffer for `k + 1`
characters.

* `pieces_append`: what follows a newline is read as if nothing were in front of it.
* `pieces_line`: a line that fits is one piece.
-/

namespace Lines

open Bytes

def newline : Byte := 10#8

/-- At most `k` characters, up to the first newline, and what is left. -/
def takeLine : ℕ → List Byte → List Byte × List Byte
  | 0, cs => ([], cs)
  | _ + 1, [] => ([], [])
  | k + 1, c :: cs =>
    if c = newline then ([c], cs) else (c :: (takeLine k cs).1, (takeLine k cs).2)

/-- `fgets( buff, n, fp)`: what is read, and what is left; none at the end of the file. -/
def fgets (n : ℕ) : List Byte → Option (List Byte × List Byte)
  | [] => none
  | c :: cs => some (takeLine (n - 1) (c :: cs))

/-- The text is empty, or its last line is complete. -/
def Complete (cs : List Byte) : Prop := ∀ c ∈ cs.getLast?, c = newline

section Lines

variable {k : ℕ} {c : Byte} {cs ds t : List Byte}

lemma length_takeLine_le : (takeLine k cs).2.length ≤ cs.length := by
  induction cs generalizing k with
  | nil => cases k <;> simp [takeLine]
  | cons c cs ih =>
    cases k with
    | zero => simp [takeLine]
    | succ k =>
      rw [takeLine]
      split
      · simp
      · exact ih.trans (Nat.le_succ _)

/-- Every piece takes something. -/
lemma length_takeLine_lt : (takeLine (k + 1) (c :: cs)).2.length < (c :: cs).length := by
  rw [takeLine]
  split
  · simp
  · exact Nat.lt_succ_of_le length_takeLine_le

/-- The pieces of at most `k + 1` characters that a text is read in. -/
def pieces (k : ℕ) : List Byte → List (List Byte)
  | [] => []
  | c :: cs => (takeLine (k + 1) (c :: cs)).1 :: pieces k (takeLine (k + 1) (c :: cs)).2
termination_by cs => cs.length
decreasing_by exact length_takeLine_lt

@[simp] lemma pieces_nil : pieces k [] = [] := by rw [pieces]

lemma pieces_cons : pieces k (c :: cs) =
    (takeLine (k + 1) (c :: cs)).1 :: pieces k (takeLine (k + 1) (c :: cs)).2 := by
  rw [pieces]

lemma Complete.tail (h : Complete (c :: cs)) : Complete cs := by
  intro d hd
  refine h d ?_
  cases cs with
  | nil => cases hd
  | cons e cs => rwa [List.getLast?_cons_cons]

/-- Where the first character is not the end of the line, there are more. -/
lemma Complete.ne_nil (h : Complete (c :: cs)) (hc : c ≠ newline) : cs ≠ [] := by
  rintro rfl
  exact hc (h c (by simp))

lemma complete_line : Complete (t ++ [newline]) := by
  intro c hc
  simpa [eq_comm] using hc

lemma complete_takeLine (h : Complete cs) : Complete (takeLine k cs).2 := by
  induction cs generalizing k with
  | nil => cases k <;> exact h
  | cons c cs ih =>
    cases k with
    | zero => exact h
    | succ k =>
      rw [takeLine]
      split
      · exact h.tail
      · exact ih h.tail

/-- A piece of a complete text does not reach into what follows. -/
lemma takeLine_append (ds : List Byte) (h : Complete cs) (hne : cs ≠ [] ∨ k = 0) :
    takeLine k (cs ++ ds) = ((takeLine k cs).1, (takeLine k cs).2 ++ ds) := by
  induction cs generalizing k with
  | nil =>
    obtain rfl : k = 0 := by simpa using hne
    rfl
  | cons c cs ih =>
    cases k with
    | zero => rfl
    | succ k =>
      rw [List.cons_append, takeLine, takeLine]
      by_cases hc : c = newline
      · simp [hc]
      · rw [if_neg hc, if_neg hc, ih h.tail (.inl (h.ne_nil hc))]

/-- **What follows a complete text is read by itself.** -/
theorem pieces_append (h : Complete cs) : pieces k (cs ++ ds) = pieces k cs ++ pieces k ds := by
  induction hn : cs.length using Nat.strong_induction_on generalizing cs with
  | _ n ih =>
    cases cs with
    | nil => simp
    | cons c cs =>
      have happend : takeLine (k + 1) (c :: cs ++ ds) = _ :=
        takeLine_append ds h (.inl (List.cons_ne_nil c cs))
      rw [List.cons_append] at happend ⊢
      rw [pieces_cons, pieces_cons, happend, List.cons_append]
      congr 1
      exact ih _ (hn ▸ length_takeLine_lt) (complete_takeLine h) rfl

lemma takeLine_line (ds : List Byte) (ht : newline ∉ t) (hk : t.length < k) :
    takeLine k (t ++ newline :: ds) = (t ++ [newline], ds) := by
  induction t generalizing k with
  | nil =>
    cases k with
    | zero => exact absurd hk (Nat.not_lt_zero _)
    | succ k => simp [takeLine]
  | cons c t ih =>
    cases k with
    | zero => exact absurd hk (Nat.not_lt_zero _)
    | succ k =>
      rw [List.mem_cons, not_or] at ht
      rw [List.cons_append, takeLine, if_neg (Ne.symm ht.1), ih ht.2 (Nat.lt_of_succ_lt_succ hk)]
      rfl

/-- A line that fits is read at once. -/
theorem pieces_line (ht : newline ∉ t) (hk : t.length ≤ k) :
    pieces k (t ++ [newline]) = [t ++ [newline]] := by
  obtain ⟨c, cs, hcs⟩ := List.exists_cons_of_ne_nil (l := t ++ [newline]) (by simp)
  have hline := takeLine_line [] ht (Nat.lt_succ_of_le hk)
  rw [hcs] at hline ⊢
  rw [pieces_cons, hline, pieces_nil]

end Lines

end Lines
