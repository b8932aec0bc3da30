import KanekFs.Config.Read

/-!
# Comments in a configuration file

A line is read in pieces of 127 characters, and only the first piece of a comment starts with `#`.
The others are read as lines of their own.

* `comment_harmless_iff`: when a comment leaves the result of `kfs_config_read` as it is.
* `short_comment_harmless`: a comment that fits into the buffer does, in a file that is read.
-/

namespace KanekFs.Config

open Bytes CString Lines

/-! ## Definitions -/

/-- A comment from the first column on. -/
def commentLine (text : List Byte) : List Byte := hash :: (text ++ [newline])

/-- The pieces of a comment after the first one. -/
def remainder (text : List Byte) : List (List Byte) := (pieces 126 (commentLine text)).tail

/-- What the pieces leave in an entry that held `x`. -/
def leaves (lines : List (List Byte)) (e : Entry) (x : Value) : Value :=
  (lastSet e (settings lines)).getD x

/-- What an entry holds where the comment comes. -/
def heldAfter (before : List Byte) (e : Entry) : Value :=
  leaves (pieces 126 before) e (KfsConfig.zero.get e)

/-- The remainder of the comment makes no difference between the lines `before` and `after`. No
piece in front of it is garbled, and these end with an unknown pair before it comes; or no piece of
the remainder or behind it is garbled either, and it has no unknown pair and does not change an
entry that is not set later, or it has one where there is one later, and the entries are left the
same. -/
def NoDifference (before text after : List Byte) : Prop :=
  readable (pieces 126 before) = true ∧
  (stops (pieces 126 before) = true ∨
    readable (remainder text) = true ∧ readable (pieces 126 after) = true ∧
    ((stops (remainder text) = false ∧
        ∀ e, (lastSet e (settings (pieces 126 after))).isSome = true ∨
          leaves (remainder text) e (heldAfter before e) = heldAfter before e) ∨
      (stops (remainder text) = true ∧ stops (pieces 126 after) = true ∧
        ∀ e, leaves (remainder text) e (heldAfter before e) =
          leaves (pieces 126 after) e (heldAfter before e))))

/-! ## Reading one text after another -/

section Append

variable {e : Entry} {x : Value} {lines lines' : List (List Byte)}
  {sets sets' : List (Entry × CStr)} {conf : KfsConfig} {line : List Byte}

lemma settings_append : settings (lines ++ lines') =
    if stops lines = true then settings lines else settings lines ++ settings lines' := by
  induction lines with
  | nil => rfl
  | cons line lines ih =>
    cases hpair : pairOf line with
    | none => simp [settings, stops, hpair, ih]
    | some pair =>
      cases hentry : entryOf pair.1 with
      | none => simp [settings, stops, hpair, hentry]
      | some f =>
        by_cases hstop : stops lines = true <;> simp [settings, stops, hpair, hentry, ih, hstop]

lemma stops_append : stops (lines ++ lines') = (stops lines || stops lines') := by
  induction lines with
  | nil => rfl
  | cons line lines ih =>
    cases hpair : pairOf line with
    | none => simp [stops, hpair, ih]
    | some pair => simp [stops, hpair, ih, Bool.or_assoc]

/-- What comes behind an unknown pair is not read. -/
lemma readable_append :
    readable (lines ++ lines') = (readable lines && (stops lines || readable lines')) := by
  induction lines with
  | nil => rfl
  | cons line lines ih =>
    cases hpair : pairOf line with
    | none => simp [readable, stops, hpair, ih, Bool.and_assoc]
    | some pair =>
      cases hentry : entryOf pair.1 with
      | none => simp [readable, stops, hpair, hentry]
      | some f => simp [readable, stops, hpair, hentry, ih, Bool.and_assoc]

lemma lastSet_append : lastSet e (sets ++ sets') = (lastSet e sets').or (lastSet e sets) := by
  rw [lastSet, List.filterMap_append, List.getLast?_append]
  rfl

lemma leaves_append : leaves (lines ++ lines') e x =
    if stops lines = true then leaves lines e x else leaves lines' e (leaves lines e x) := by
  unfold leaves
  rw [settings_append]
  split_ifs
  · rfl
  · rw [lastSet_append]
    cases lastSet e (settings lines') <;> rfl

/-- A piece without a pair that is not garbled changes nothing. -/
lemma readLines_cons_none (h : pairOf line = none) (hread : ¬Garbled line) :
    readLines (line :: lines) conf = readLines lines conf := by
  simp only [readLines, h, if_neg hread]

/-- Two lists of pieces have the same result when they are both read, both end with an unknown pair
or neither does, and they leave the same in all entries. -/
lemma readLines_same_iff : (∃ r, readLines lines conf = some r ∧ readLines lines' conf = some r) ↔
    readable lines = true ∧ readable lines' = true ∧ stops lines = stops lines' ∧
      ∀ e, leaves lines e (conf.get e) = leaves lines' e (conf.get e) := by
  rw [readLines_eq, readLines_eq]
  by_cases hread : readable lines = true
  swap
  · simp [hread]
  by_cases hread' : readable lines' = true
  swap
  · simp [hread']
  have hget : ∀ lines e, ((settings lines).foldl (fun c s => c.set s.1 s.2) conf).get e =
      leaves lines e (conf.get e) := fun lines e => get_foldl_set
  simp only [hread, hread', if_true, Option.some.injEq, true_and]
  constructor
  · rintro ⟨r, h, h'⟩
    have hsame := h.trans h'.symm
    rw [Prod.mk.injEq] at hsame
    refine ⟨?_, fun e => ?_⟩
    · have hrc := hsame.1
      cases hs : stops lines <;> cases hs' : stops lines' <;> simp [hs, hs'] at hrc ⊢
    · rw [← hget, ← hget, hsame.2]
  · rintro ⟨hstop, hleaves⟩
    refine ⟨_, rfl, Prod.ext ?_ (ext_get fun e => ?_)⟩
    · rw [hstop]
    · rw [hget, hget, hleaves e]

end Append

/-! ## Comments -/

section Comment

variable {before text after : List Byte} {front front' : Byte} {buff buff' : List Byte}

/-- The first piece of a comment is skipped. -/
lemma pieces_comment (text : List Byte) : ∃ first,
    pieces 126 (commentLine text) = first :: remainder text ∧ pairOf first = none ∧
      ¬Garbled first := by
  have htake : (takeLine 127 (commentLine text)).1 =
      [] ++ hash :: (takeLine 126 (text ++ [newline])).1 := by
    rw [commentLine, takeLine, if_neg (by decide)]
    rfl
  refine ⟨(takeLine 127 (commentLine text)).1, ?_, ?_, ?_⟩
  · rw [remainder, commentLine, pieces_cons, List.tail_cons]
  · rw [htake]
    exact pairOf_comment (by simp)
  · -- it starts with `#`, so nothing is moved to the front
    rw [htake]
    rintro ⟨-, hpos, -⟩
    rw [leading_eq (chars_comment _ (by simp)) (by simp) isspace_hash] at hpos
    exact absurd hpos (by decide)

/-- Of a comment it is the remainder that is read. -/
lemma readLines_comment (hbefore : Complete before) {conf : KfsConfig} :
    readLines (pieces 126 (before ++ (commentLine text ++ after))) conf =
      readLines (pieces 126 before ++ (remainder text ++ pieces 126 after)) conf := by
  have hcomplete : Complete (commentLine text) := complete_line (t := hash :: text)
  rcases pieces_comment text with ⟨first, hpieces, hskip, hread⟩
  have hpass : ∀ lines conf, readLines (first :: lines) conf = readLines lines conf :=
    fun lines conf => readLines_cons_none hskip hread
  rw [pieces_append hbefore, pieces_append hcomplete, hpieces, List.cons_append]
  generalize pieces 126 before = lines
  induction lines generalizing conf with
  | nil => exact hpass _ conf
  | cons line lines ih => simp only [List.cons_append, readLines, ih]

/-- **When a comment does not change the configuration**, between two lines: with and without it,
`kfs_config_read` returns the same, and the same configuration. -/
theorem comment_harmless_iff (hbefore : Complete before) :
    (∃ r, kfsConfigRead front buff (some (before ++ (commentLine text ++ after))) = some r ∧
      kfsConfigRead front' buff' (some (before ++ after)) = some r) ↔
      NoDifference before text after := by
  have hheld : ∀ e, leaves (pieces 126 before) e (KfsConfig.zero.get e) = heldAfter before e :=
    fun e => rfl
  simp only [kfsConfigRead_eq]
  rw [readLines_comment hbefore, pieces_append hbefore, readLines_same_iff, NoDifference]
  simp only [readable_append, stops_append, leaves_append, hheld]
  by_cases hread : readable (pieces 126 before) = true
  swap
  · simp [hread]
  by_cases hbreak : stops (pieces 126 before) = true
  · simp [hread, hbreak]
  simp only [hread, hbreak, Bool.false_or, Bool.false_eq_true, if_false, Bool.true_and, true_and,
    false_or]
  by_cases hrest : readable (remainder text) = true
  swap
  · simp [hrest]
  by_cases hlater : readable (pieces 126 after) = true
  swap
  · simp [hlater]
  by_cases hstop : stops (remainder text) = true
  · -- nothing is read behind the unknown pair
    simp only [hrest, hlater, hstop, if_true, Bool.true_or, Bool.and_self, Bool.true_eq,
      Bool.false_eq_true, false_and, false_or, true_and]
  · -- what is set later hides what the remainder sets
    have hhidden : ∀ e,
        leaves (pieces 126 after) e (leaves (remainder text) e (heldAfter before e)) =
          leaves (pieces 126 after) e (heldAfter before e) ↔
        (lastSet e (settings (pieces 126 after))).isSome = true ∨
          leaves (remainder text) e (heldAfter before e) = heldAfter before e := by
      intro e
      rw [leaves, leaves.eq_def (pieces 126 after)]
      cases lastSet e (settings (pieces 126 after)) with
      | some x => simp
      | none => simp
    simp only [hrest, hlater, hstop, Bool.false_or, Bool.and_self, true_and, hhidden,
      Bool.false_eq_true, if_false, false_and, or_false]

/-- A comment that fits into the buffer, newline included, is one piece; it does no harm to a file
that is read. -/
theorem short_comment_harmless (htext : newline ∉ text) (hshort : text.length + 2 < 128) :
    NoDifference before text after ↔ readable (pieces 126 before) = true ∧
      (stops (pieces 126 before) = true ∨ readable (pieces 126 after) = true) := by
  have hline : newline ∉ hash :: text := by
    rw [List.mem_cons, not_or]
    exact ⟨by decide, htext⟩
  have hpieces : pieces 126 (commentLine text) = [commentLine text] :=
    pieces_line hline (by simp; omega)
  have hnone : remainder text = [] := by rw [remainder, hpieces, List.tail_cons]
  simp [NoDifference, hnone, readable, stops, leaves, settings, lastSet]

end Comment

/-- A line in front of a comment, and one behind it. -/
def lineBefore : List Byte := (ofChars "max_clients = 3\n").chars

def lineAfter : List Byte := (ofChars "threads_pool = 8\n").chars

/-- A comment between two pairs. -/
theorem comment_harmless_iff_pairs :
    (∃ r, kfsConfigRead 0#8 []
        (some (lineBefore ++ (commentLine (ofChars " threads").chars ++ lineAfter))) = some r ∧
      kfsConfigRead 0#8 [] (some (lineBefore ++ lineAfter)) = some r) ↔
      NoDifference lineBefore (ofChars " threads").chars lineAfter :=
  comment_harmless_iff (by unfold Complete; decide)

/-- A comment with a pair behind its first 127 characters. -/
def longComment : List Byte := List.replicate 126 45#8 ++ (ofChars "max_clients = 5").chars

/-- The pair in the comment sets its entry. -/
theorem comment_sets_entry : newline ∉ longComment ∧
    (kfsConfigRead 0#8 [] (some (lineBefore ++ (commentLine longComment ++ lineAfter)))).map
        (fun r => (r.1, r.2.max_clients)) = some (0, 5) ∧
      (kfsConfigRead 0#8 [] (some (lineBefore ++ lineAfter))).map
        (fun r => (r.1, r.2.max_clients)) = some (0, 3) ∧
      ¬∃ r, kfsConfigRead 0#8 []
          (some (lineBefore ++ (commentLine longComment ++ lineAfter))) = some r ∧
        kfsConfigRead 0#8 [] (some (lineBefore ++ lineAfter)) = some r := by
  have hwith : (kfsConfigRead 0#8 []
      (some (lineBefore ++ (commentLine longComment ++ lineAfter)))).map
        (fun r => (r.1, r.2.max_clients)) = some (0, 5) := by
    rw [kfsConfigRead_eq]
    decide +kernel
  have hwithout : (kfsConfigRead 0#8 [] (some (lineBefore ++ lineAfter))).map
      (fun r => (r.1, r.2.max_clients)) = some (0, 3) := by
    rw [kfsConfigRead_eq]
    decide +kernel
  refine ⟨by decide +kernel, hwith, hwithout, ?_⟩
  rintro ⟨r, heq, heq'⟩
  rw [heq, ← heq', hwithout] at hwith
  cases hwith

end KanekFs.Config
