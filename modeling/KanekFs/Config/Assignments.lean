import KanekFs.Config.Read

/-!
# A configuration file as a list of assignments

`Line` is a line as one writes it: blank, a comment, or a pair with a known key. `fileOf` is the
text of a list of lines.

* `pairOf_line` and `pieces_fileOf`: each line is read at once, and says what it should, unless it
  is garbled by `trim`: `garbled_line`.
* `assignments_read_iff`: where no line is, every entry then holds the value of the last line for
  it, or zero, and only the order of the lines with one key matters.
-/

namespace KanekFs.Config

open Bytes CString Ctype Lines

/-! ## Lines -/

/-- The white space around a pair, and the spaces on both sides of its `=`. -/
structure Layout where
  before : List Byte
  left : ℕ
  right : ℕ
  after : List Byte

inductive Line
  | blank (ws : List Byte)
  | comment (ws text : List Byte)
  | assignment (e : Entry) (value : CStr) (lay : Layout)

/-- `=`, with the spaces around it. -/
def Layout.equals (lay : Layout) : List Byte :=
  List.replicate lay.left 32#8 ++ 61#8 :: List.replicate lay.right 32#8

/-- The line without its newline. -/
def Line.text : Line → List Byte
  | .blank ws => ws
  | .comment ws text => ws ++ hash :: text
  | .assignment e value lay =>
    lay.before ++ ((e.key.chars ++ (lay.equals ++ value.chars)) ++ lay.after)

def Entry.isInt : Entry → Bool
  | .kfs_file | .pid_file | .sock_file => false
  | _ => true

/-- White space within a line. -/
def Blank (ws : List Byte) : Prop := ∀ c ∈ ws, isspace c = true ∧ c ≠ newline

instance (ws : List Byte) : Decidable (Blank ws) := inferInstanceAs (Decidable (∀ c ∈ ws, _))

/-- The text is a value for the entry. -/
structure Entry.Accepts (e : Entry) (value : CStr) : Prop where
  nonempty : value.chars ≠ []
  plain : ∀ c ∈ value.chars, isspace c = false ∧ c ≠ 61#8
  decimal : e.isInt = true → ∃ z, IsDecimal value.chars z ∧ -2 ^ 31 ≤ z ∧ z < 2 ^ 31

/-- The parts of the line are what they are called. -/
def Line.Ok : Line → Prop
  | .blank ws => Blank ws
  | .comment ws text => Blank ws ∧ newline ∉ text
  | .assignment e value lay => e.Accepts value ∧ Blank lay.before ∧ Blank lay.after

/-- With its newline the line is shorter than 127 characters. -/
structure Line.Valid (l : Line) : Prop where
  ok : l.Ok
  short : l.text.length + 1 < 127

/-- There is no white space in front of the text of the line, or more of it than the text has
characters. -/
def Line.Apart : Line → Prop
  | .blank _ => True
  | .comment ws text =>
    ws = [] ∨ (hash :: (ofBuffer text).chars.rdropWhile isspace).length < ws.length
  | .assignment e value lay =>
    lay.before = [] ∨ (e.key.chars ++ (lay.equals ++ value.chars)).length < lay.before.length

instance : DecidablePred Line.Apart
  | .blank _ => inferInstanceAs (Decidable True)
  | .comment _ _ => inferInstanceAs (Decidable (_ ∨ _))
  | .assignment _ _ _ => inferInstanceAs (Decidable (_ ∨ _))

def fileOf (ls : List Line) : List Byte := ls.flatMap fun l => l.text ++ [newline]

/-- The value the line gives to the entry, if any. -/
def Line.valueFor (e : Entry) : Line → Option CStr
  | .assignment e' value _ => if e' = e then some value else none
  | _ => none

/-! ## What an entry should hold -/

/-- What is held is the text, or the number it stands for. -/
def Value.Denotes : Value → CStr → Prop
  | .str buf, value => ofBuffer buf = value
  | .int z, value => IsDecimal value.chars z

/-- The entry holds the value of the last line for it, or zero. -/
structure HoldsLast (ls : List Line) (conf : KfsConfig) (e : Entry) : Prop where
  last : ∀ value ∈ (ls.filterMap (Line.valueFor e)).getLast?, (conf.get e).Denotes value
  zero : ls.filterMap (Line.valueFor e) = [] → conf.get e = KfsConfig.zero.get e

/-- `kfs_config_read` returns 0, with the last value or zero in every entry, and with the same
entries when the lines come in another order that keeps the values for each key in theirs. -/
def ReadsAsAssignments (front : Byte) (buff : List Byte) (ls : List Line) : Prop :=
  ∃ conf, kfsConfigRead front buff (some (fileOf ls)) = some (0, conf) ∧
    (∀ e, HoldsLast ls conf e) ∧
    ∀ ls' : List Line, ls'.Perm ls →
      (∀ e, ls'.filterMap (Line.valueFor e) = ls.filterMap (Line.valueFor e)) →
        kfsConfigRead front buff (some (fileOf ls')) = some (0, conf)

/-! ## Reading a line -/

section Reading

variable {l : Line} {ls ls' : List Line} {e : Entry} {value : CStr} {lay : Layout}
  {conf : KfsConfig}

lemma Blank.newline_notMem {ws : List Byte} (h : Blank ws) : newline ∉ ws :=
  fun hmem => (h _ hmem).2 rfl

lemma mem_delim {c : Byte} : c ∈ delim.chars ↔ c = 32#8 ∨ c = 61#8 := by
  have hchars : delim.chars = [32#8, 61#8] := by decide
  simp [hchars]

/-- Keys are made of small letters and underscores. -/
lemma key_letters (e : Entry) : e.key.chars ≠ [] ∧ e.key.chars.length ≤ KVLEN ∧
    ∀ c ∈ e.key.chars, 95 ≤ c.toNat := by
  cases e <;> simp [Entry.key, ofChars, ofBuffer, KVLEN, KFS_FILENAME_LEN]

lemma key_plain (e : Entry) : ∀ c ∈ e.key.chars,
    isspace c = false ∧ c ∉ delim.chars ∧ c ≠ hash := by
  intro c hc
  have hle := (key_letters e).2.2 c hc
  refine ⟨?_, ?_, ?_⟩
  · simp only [isspace, decide_eq_false_iff_not]
    omega
  · rw [mem_delim]
    rintro (rfl | rfl) <;> simp at hle
  · rintro rfl
    simp [hash] at hle

lemma mem_equals {c : Byte} (h : c ∈ lay.equals) : c = 32#8 ∨ c = 61#8 := by
  rcases List.mem_append.mp h with hleft | hrest
  · exact .inl (List.eq_of_mem_replicate hleft)
  · rcases List.mem_cons.mp hrest with rfl | hright
    · exact .inr rfl
    · exact .inl (List.eq_of_mem_replicate hright)

/-- No value has a space or a `=` in it. -/
lemma Entry.Accepts.notMem_delim (h : e.Accepts value) {c : Byte} (hc : c ∈ value.chars) :
    c ∉ delim.chars := by
  rw [mem_delim]
  rintro (rfl | rfl)
  · cases (h.plain _ hc).1
  · exact (h.plain _ hc).2 rfl

lemma newline_notMem_text (h : l.Ok) : newline ∉ l.text := by
  have hnl : isspace newline = true := by decide
  cases l with
  | blank ws => exact Blank.newline_notMem h
  | comment ws text =>
    rw [Line.text, List.mem_append, List.mem_cons, not_or, not_or]
    exact ⟨Blank.newline_notMem h.1, by decide, h.2⟩
  | assignment e value lay =>
    simp only [Line.text, List.mem_append, not_or]
    refine ⟨Blank.newline_notMem h.2.1, ⟨fun hmem => ?_, fun hmem => ?_, fun hmem => ?_⟩,
      Blank.newline_notMem h.2.2⟩
    · cases hnl.symm.trans (key_plain e _ hmem).1
    · rcases mem_equals hmem with heq | heq <;> cases heq
    · cases hnl.symm.trans (h.1.plain _ hmem).1

/-- The pair on a line. -/
def Line.pair : Line → Option (Entry × CStr)
  | .assignment e value _ => some (e, value)
  | _ => none

theorem pairOf_line (h : l.Valid) :
    pairOf (l.text ++ [newline]) = l.pair.map fun p => (p.1.key, p.2) := by
  have hnl : isspace newline = true := by decide
  have hok := h.ok
  cases l with
  | blank ws =>
    refine pairOf_blank ?_
    rw [List.forall_mem_append, List.forall_mem_singleton]
    exact ⟨fun c hc => (hok c hc).1, hnl⟩
  | comment ws text =>
    rw [Line.text, List.append_assoc, List.cons_append]
    exact pairOf_comment fun c hc => (hok.1 c hc).1
  | assignment e value lay =>
    have hshort := h.short
    have hlen : value.chars.length ≤ KVLEN := by
      simp only [Line.text, List.length_append] at hshort
      unfold KVLEN KFS_FILENAME_LEN
      omega
    rw [Line.text, List.append_assoc, List.append_assoc]
    refine pairOf_pair hok.2.1 ?_ ⟨(key_letters e).1, key_plain e⟩
      ⟨hok.1.nonempty, fun c hc => ⟨(hok.1.plain c hc).1, hok.1.notMem_delim hc⟩⟩
      ⟨by simp [Layout.equals], fun c hc => mem_delim.mpr (mem_equals hc)⟩
      ⟨(key_letters e).2.1, hlen⟩
    rw [List.forall_mem_append, List.forall_mem_singleton]
    exact ⟨fun c hc => (hok.2.2 c hc).1, hnl⟩

/-- A line with a newline only at its end is garbled when it overlaps. -/
lemma garbled_iff {text : List Byte} (h : newline ∉ text) :
    Garbled (text ++ [newline]) ↔ Overlaps (ofBuffer (text ++ [newline])) := by
  refine ⟨And.right, fun hover => ⟨?_, hover⟩⟩
  cases text with
  | nil => exact absurd hover (by decide)
  | cons c cs => simpa using fun hc : c = newline => h (by simp [hc])

/-- The newline behind a comment is trimmed with the rest. -/
lemma rdropWhile_comment (text : List Byte) :
    (ofBuffer (text ++ [newline])).chars.rdropWhile isspace =
      (ofBuffer text).chars.rdropWhile isspace := by
  have hnl : isspace newline = true := by decide
  simp only [ofBuffer, List.takeWhile_append]
  split_ifs with hall
  · -- there is no NUL in the comment
    rw [List.takeWhile_cons_of_pos (by decide), List.takeWhile_nil,
      List.rdropWhile_concat_pos _ _ _ hnl, (List.takeWhile_sublist _).eq_of_length hall]
  · rfl

theorem garbled_line (h : l.Valid) : Garbled (l.text ++ [newline]) ↔ ¬l.Apart := by
  have hnl : isspace newline = true := by decide
  have hok := h.ok
  rw [garbled_iff (newline_notMem_text hok)]
  cases l with
  | blank ws =>
    refine iff_of_false (not_overlaps_blank fun c hc => ?_) (not_not_intro trivial)
    rcases List.mem_append.mp ((List.takeWhile_sublist _).subset hc) with hmem | hmem
    · exact (hok c hmem).1
    · rwa [List.mem_singleton.mp hmem]
  | comment ws text =>
    have hws : ∀ c ∈ ws, isspace c = true := fun c hc => (hok.1 c hc).1
    have hstrip := strip_comment (text ++ [newline]) hws
    rw [rdropWhile_comment] at hstrip
    rw [Line.text, List.append_assoc, List.cons_append]
    exact overlaps_iff (chars_comment _ hws) hws isspace_hash hstrip
  | assignment e value lay =>
    rw [Line.text, List.append_assoc, List.append_assoc]
    refine overlaps_pair (fun c hc => (hok.2.1 c hc).1) ?_
      ⟨(key_letters e).1, fun c hc => (key_plain e c hc).1⟩
      ⟨hok.1.nonempty, fun c hc => (hok.1.plain c hc).1⟩
      fun c hc => mem_delim.mpr (mem_equals hc)
    rw [List.forall_mem_append, List.forall_mem_singleton]
    exact ⟨fun c hc => (hok.2.2 c hc).1, hnl⟩

/-- Every line is a piece. -/
theorem pieces_fileOf (h : ∀ l ∈ ls, l.Valid) :
    pieces 126 (fileOf ls) = ls.map fun l => l.text ++ [newline] := by
  induction ls with
  | nil => exact pieces_nil
  | cons l ls ih =>
    rw [List.forall_mem_cons] at h
    have hline := pieces_line (k := 126) (newline_notMem_text h.1.ok) (by have := h.1.short; omega)
    rw [fileOf, List.flatMap_cons, pieces_append complete_line, hline]
    exact congrArg _ (ih h.2)

lemma settings_lines (h : ∀ l ∈ ls, l.Valid) :
    settings (ls.map fun l => l.text ++ [newline]) = ls.filterMap Line.pair ∧
      stops (ls.map fun l => l.text ++ [newline]) = false := by
  induction ls with
  | nil => exact ⟨rfl, rfl⟩
  | cons l ls ih =>
    rw [List.forall_mem_cons] at h
    rcases ih h.2 with ⟨hsettings, hstops⟩
    have hpair := pairOf_line h.1
    cases hl : l.pair with
    | none =>
      rw [hl, Option.map_none] at hpair
      simp [settings, stops, hpair, hsettings, hstops, hl]
    | some p =>
      rw [hl, Option.map_some] at hpair
      simp [settings, stops, hpair, hsettings, hstops, hl, entryOf_key]

lemma readable_lines (h : ∀ l ∈ ls, l.Valid) :
    readable (ls.map fun l => l.text ++ [newline]) = true ↔ ∀ l ∈ ls, l.Apart := by
  induction ls with
  | nil => simp [readable]
  | cons l ls ih =>
    rw [List.forall_mem_cons] at h
    have hgarbled := garbled_line h.1
    have hpair := pairOf_line h.1
    have hread : readable ((l :: ls).map fun l => l.text ++ [newline]) = true ↔
        l.Apart ∧ readable (ls.map fun l => l.text ++ [newline]) = true := by
      cases hl : l.pair with
      | none =>
        rw [hl, Option.map_none] at hpair
        simp [readable, hpair, hgarbled]
      | some p =>
        rw [hl, Option.map_some] at hpair
        simp [readable, hpair, hgarbled, entryOf_key]
    rw [hread, ih h.2, List.forall_mem_cons]

/-- The values for an entry, in order. -/
lemma lastSet_pairs : lastSet e (ls.filterMap Line.pair) =
    ((ls.filterMap (Line.valueFor e)).getLast?).map e.read := by
  rw [← List.getLast?_map, List.map_filterMap, lastSet, List.filterMap_filterMap]
  congr 2
  funext l
  cases l with
  | assignment e' value lay =>
    by_cases he : e' = e
    · subst he
      simp [Line.pair, Line.valueFor]
    · simp [Line.pair, Line.valueFor, he]
  | _ => rfl

lemma denotes_read (h : e.Accepts value) (hlen : value.chars.length ≤ KVLEN) :
    (e.read value).Denotes value := by
  have hstr : ofBuffer (strncpy KVLEN value) = value :=
    (ofBuffer_strncpy KVLEN value).trans (CStr.take_of_length_le hlen)
  have hint : e.isInt = true → IsDecimal value.chars (atoi value) := by
    intro he
    rcases h.decimal he with ⟨z, hz, hlo, hhi⟩
    exact (atoi_of_int hz hlo hhi).symm ▸ hz
  cases e with
  | kfs_file | pid_file | sock_file => exact hstr
  | _ => exact hint rfl

lemma denotes_of_valid (h : l.Valid) (hfor : l.valueFor e = some value) :
    (e.read value).Denotes value := by
  have hok := h.ok
  have hshort := h.short
  cases l with
  | blank ws => cases hfor
  | comment ws text => cases hfor
  | assignment e' value' lay =>
    rw [Line.valueFor] at hfor
    split_ifs at hfor with he
    cases hfor
    subst he
    refine denotes_read hok.1 ?_
    simp only [Line.text, List.length_append] at hshort
    unfold KVLEN KFS_FILENAME_LEN
    omega

/-- What is made of a file of valid lines. -/
lemma read_fileOf {front : Byte} {buff : List Byte} (h : ∀ l ∈ ls, l.Valid)
    (hapart : ∀ l ∈ ls, l.Apart) :
    kfsConfigRead front buff (some (fileOf ls)) =
      some (0, (ls.filterMap Line.pair).foldl (fun c s => c.set s.1 s.2) .zero) := by
  rcases settings_lines h with ⟨hsettings, hstops⟩
  rw [kfsConfigRead_eq, pieces_fileOf h, readLines_eq, if_pos ((readable_lines h).mpr hapart),
    hsettings, hstops]
  rfl

/-- A file with a result has no line that is garbled. -/
lemma apart_of_read {front : Byte} {buff : List Byte} {r : ℤ × KfsConfig}
    (h : ∀ l ∈ ls, l.Valid) (hread : kfsConfigRead front buff (some (fileOf ls)) = some r) :
    ∀ l ∈ ls, l.Apart := by
  rw [kfsConfigRead_eq, pieces_fileOf h, readLines_eq] at hread
  by_contra hnot
  rw [if_neg fun hr => hnot ((readable_lines h).mp hr)] at hread
  cases hread

end Reading

/-- **A configuration file is read as a list of assignments**, exactly when no line has white space
in front of a text that is as long as the white space or longer: `trim` moves such a text over
itself. -/
theorem assignments_read_iff {ls : List Line} (h : ∀ l ∈ ls, l.Valid) (front : Byte)
    (buff : List Byte) : ReadsAsAssignments front buff ls ↔ ∀ l ∈ ls, l.Apart := by
  constructor
  · rintro ⟨conf, hread, -⟩
    exact apart_of_read h hread
  · intro hapart
    refine ⟨(ls.filterMap Line.pair).foldl (fun c s => c.set s.1 s.2) .zero,
      read_fileOf h hapart, ?_, ?_⟩
    · intro e
      constructor
      · intro value hvalue
        rw [get_foldl_set, lastSet_pairs, hvalue]
        rcases List.mem_filterMap.mp (List.mem_of_getLast? hvalue) with ⟨l, hl, hfor⟩
        exact denotes_of_valid (h l hl) hfor
      · intro hnone
        rw [get_foldl_set, lastSet_pairs, hnone]
        rfl
    · intro ls' hperm hsame
      rw [read_fileOf (fun l hl => h l (hperm.subset hl)) fun l hl => hapart l (hperm.subset hl)]
      refine congrArg (fun conf => some (0, conf)) (ext_get ?_)
      intro e
      rw [get_foldl_set, get_foldl_set, lastSet_pairs, lastSet_pairs, hsame e]

/-- A comment, an empty line, and two pairs, the second one far to the right. -/
def sample : List Line :=
  [.comment [] (ofChars " max clients").chars, .blank [],
    .assignment .kfs_file (ofChars "./myfs") ⟨[], 1, 1, []⟩,
    .assignment .max_clients (ofChars "16") ⟨List.replicate 20 32#8, 0, 0, [9#8]⟩]

lemma sample_valid : ∀ l ∈ sample, l.Valid := by
  have hpath : Entry.Accepts .kfs_file (ofChars "./myfs") :=
    ⟨by decide +kernel, by decide +kernel, by simp [Entry.isInt]⟩
  have hnumber : Entry.Accepts .max_clients (ofChars "16") :=
    ⟨by decide +kernel, by decide +kernel,
      fun _ => ⟨16, ⟨[49#8, 54#8], by decide, by decide, by decide⟩, by decide⟩⟩
  have hempty : Blank [] := by decide
  have hspaces : Blank (List.replicate 20 32#8) ∧ Blank [9#8] := by decide +kernel
  have hok : ∀ l ∈ sample, l.Ok := by
    simp only [sample, List.forall_mem_cons, List.not_mem_nil, IsEmpty.forall_iff, implies_true,
      and_true]
    exact ⟨⟨hempty, by decide +kernel⟩, hempty, ⟨hpath, hempty, hempty⟩,
      hnumber, hspaces.1, hspaces.2⟩
  have hshort : ∀ l ∈ sample, l.text.length + 1 < 127 := by decide +kernel
  exact fun l hl => ⟨hok l hl, hshort l hl⟩

/-- The sample. -/
theorem assignments_read_sample : ReadsAsAssignments 0#8 [] sample :=
  (assignments_read_iff sample_valid 0#8 []).mpr (by decide +kernel)

/-- One line, with a space in front: ` kfs_file=/abcdefghijklmnopqrstuvwxyz`. -/
def indented : List Line :=
  [.assignment .kfs_file (ofChars "/abcdefghijklmnopqrstuvwxyz") ⟨[32#8], 0, 0, []⟩]

/-- `trim` copies it over itself, and what is then in the buffer is anything. -/
theorem indented_line_garbled : (∀ l ∈ indented, l.Valid) ∧
    kfsConfigRead 0#8 [] (some (fileOf indented)) = none ∧
      ¬ReadsAsAssignments 0#8 [] indented := by
  have hnone : kfsConfigRead 0#8 [] (some (fileOf indented)) = none := by
    rw [kfsConfigRead_eq]
    decide +kernel
  refine ⟨?_, hnone, ?_⟩
  · have hpath : Entry.Accepts .kfs_file (ofChars "/abcdefghijklmnopqrstuvwxyz") :=
      ⟨by decide +kernel, by decide +kernel, by simp [Entry.isInt]⟩
    have hshort : ∀ l ∈ indented, l.text.length + 1 < 127 := by decide +kernel
    intro l hl
    refine ⟨?_, hshort l hl⟩
    rw [List.mem_singleton.mp hl]
    exact ⟨hpath, by decide, by decide⟩
  · rintro ⟨conf, hread, -⟩
    rw [hnone] at hread
    cases hread

end KanekFs.Config
