import KanekFs.Config.Trim
import KanekFs.Lib.Lines

/-!
# The configuration file

`kfs_config_read` of `kfs_config.c`. The file is its text, or nothing where it cannot be opened;
`front` is the byte on the stack in front of `buff`, which `trim` may read.

* `pairOf` is what one piece of the file says, and `readLines` reads a list of pieces; a piece that
  `trim` copies over itself has no result. `kfsConfigRead_eq`: `kfs_config_read` does this with the
  pieces `fgets` returns, whatever was in `buff` and in front of it.
* `readLines_eq`: where no such piece is met, the entries are set in order up to the first pair with
  an unknown key, and `get_foldl_set`: an entry has the last value it was set to.
-/

namespace KanekFs.Config

open Bytes CString Ctype Lines

/-! ## Definitions -/

def KFS_FILENAME_LEN : ℕ := 128

def KVLEN : ℕ := KFS_FILENAME_LEN

/-- `kfs_config_t` -/
structure KfsConfig where
  kfs_file : List Byte
  pid_file : List Byte
  sock_file : List Byte
  cache_page_len : ℤ
  cache_ino_len : ℤ
  cache_path_len : ℤ
  cache_graph_len : ℤ
  threads_pool : ℤ
  max_clients : ℤ
  root_super_inode : ℤ
  sock_buffer_size : ℤ
deriving DecidableEq

/-- `memset( conf, 0, sizeof( kfs_config_t))` -/
def KfsConfig.zero : KfsConfig where
  kfs_file := List.replicate KFS_FILENAME_LEN 0#8
  pid_file := List.replicate KFS_FILENAME_LEN 0#8
  sock_file := List.replicate KFS_FILENAME_LEN 0#8
  cache_page_len := 0
  cache_ino_len := 0
  cache_path_len := 0
  cache_graph_len := 0
  threads_pool := 0
  max_clients := 0
  root_super_inode := 0
  sock_buffer_size := 0

/-- The entry of the pair in the configuration; none where the pair is unknown. -/
def assign (key value : CStr) (conf : KfsConfig) : Option KfsConfig :=
  if strcmp key (ofChars "kfs_file") = 0 then
    some { conf with kfs_file := strncpy KVLEN value }
  else if strcmp key (ofChars "pid_file") = 0 then
    some { conf with pid_file := strncpy KVLEN value }
  else if strcmp key (ofChars "sock_file") = 0 then
    some { conf with sock_file := strncpy KVLEN value }
  else if strcmp key (ofChars "cache_page_len") = 0 then
    some { conf with cache_page_len := atoi value }
  else if strcmp key (ofChars "cache_ino_len") = 0 then
    some { conf with cache_ino_len := atoi value }
  else if strcmp key (ofChars "cache_path_len") = 0 then
    some { conf with cache_path_len := atoi value }
  else if strcmp key (ofChars "cache_graph_len") = 0 then
    some { conf with cache_graph_len := atoi value }
  else if strcmp key (ofChars "threads_pool") = 0 then
    some { conf with threads_pool := atoi value }
  else if strcmp key (ofChars "sock_buffer_size") = 0 then
    some { conf with sock_buffer_size := atoi value }
  else if strcmp key (ofChars "root_super_inode") = 0 then
    some { conf with root_super_inode := atoi value }
  else if strcmp key (ofChars "max_clients") = 0 then
    some { conf with max_clients := atoi value }
  else none

/-- `delim` -/
def delim : CStr := ofChars " ="

def hash : Byte := 35#8

/-- The loop over the lines of the file; at most `fuel` of them are read. The NULs that `strtok`
writes into `buff` are left out: `fgets` puts the next line over them. -/
def readLoop (front : Byte) : ℕ → List Byte → List Byte → KfsConfig → Option (ℤ × KfsConfig)
  | 0, _, _, _ => none
  | fuel + 1, fp, buff, conf =>
    match fgets KFS_FILENAME_LEN fp with
    | none => some (0, conf)
    | some (line, fp) => do
      let buff := line ++ 0#8 :: buff.drop (line.length + 1)
      if buff.head? = some newline then readLoop front fuel fp buff conf
      else
        let buff ← trim (some front) buff
        if buff.head? = some hash then readLoop front fuel fp buff conf
        else
          match strtok delim (ofBuffer buff) with
          | none => readLoop front fuel fp buff conf
          | some (s, next) =>
            let key := strncpy KVLEN s
            match strtok delim next with
            | none => readLoop front fuel fp buff conf
            | some (s, _) =>
              let value := strncpy KVLEN s
              match assign (ofBuffer key) (ofBuffer value) conf with
              | none => some (-1, conf)
              | some conf => readLoop front fuel fp buff conf

/-- `kfs_config_read`; a file that cannot be opened is `none`. -/
def kfsConfigRead (front : Byte) (buff : List Byte) (file : Option (List Byte)) :
    Option (ℤ × KfsConfig) :=
  match file with
  | none => some (-1, .zero)
  | some fp => readLoop front (fp.length + 1) fp buff .zero

/-! ## Piece by piece -/

/-- The pair that a piece of the file stands for, if any. -/
def pairOf (line : List Byte) : Option (CStr × CStr) :=
  if line.head? = some newline then none
  else
    let s := strip (ofBuffer line)
    if s.chars.head? = some hash then none
    else
      (strtok delim s).bind fun key =>
        (strtok delim key.2).map fun value => (key.1.take KVLEN, value.1.take KVLEN)

/-- `trim` copies the piece over itself. -/
def Garbled (line : List Byte) : Prop := line.head? ≠ some newline ∧ Overlaps (ofBuffer line)

instance (line : List Byte) : Decidable (Garbled line) := inferInstanceAs (Decidable (_ ∧ _))

/-- What the pieces make of a configuration, up to the first unknown pair. -/
def readLines : List (List Byte) → KfsConfig → Option (ℤ × KfsConfig)
  | [], conf => some (0, conf)
  | line :: lines, conf =>
    if Garbled line then none
    else
      match pairOf line with
      | none => readLines lines conf
      | some (key, value) =>
        match assign key value conf with
        | none => some (-1, conf)
        | some conf => readLines lines conf

section Pieces

variable {front : Byte} {buff fp rest line stale : List Byte} {conf : KfsConfig} {fuel : ℕ}

/-- What `fgets` leaves in the buffer is the string on the line, its terminator, and something. -/
lemma exists_ofBuffer (line stale : List Byte) :
    ∃ r, line ++ 0#8 :: stale = (ofBuffer line).chars ++ 0#8 :: r := by
  induction line with
  | nil => exact ⟨stale, rfl⟩
  | cons c line ih =>
    by_cases hc : c = 0#8
    · exact ⟨line ++ 0#8 :: stale, by simp [ofBuffer, hc]⟩
    · rcases ih with ⟨r, hr⟩
      refine ⟨r, ?_⟩
      have htake : (ofBuffer (c :: line)).chars = c :: (ofBuffer line).chars := by
        simp [ofBuffer, hc]
      rw [htake, List.cons_append, hr, List.cons_append]

/-- One line: the loop goes on with what the line says. -/
lemma readLoop_line {c : Byte} {cs : List Byte} (front : Byte) (fuel : ℕ) (buff : List Byte)
    (conf : KfsConfig) (hget : fgets KFS_FILENAME_LEN fp = some (c :: cs, rest)) :
    ∃ buff', readLoop front (fuel + 1) fp buff conf =
      if Garbled (c :: cs) then none
      else
        match pairOf (c :: cs) with
        | none => readLoop front fuel rest buff' conf
        | some (key, value) =>
          match assign key value conf with
          | none => some (-1, conf)
          | some conf => readLoop front fuel rest buff' conf := by
  rcases exists_ofBuffer (c :: cs) (buff.drop ((c :: cs).length + 1)) with ⟨r, hr⟩
  rcases trim_some (s := ofBuffer (c :: cs)) (r := r) front with ⟨r', htrim⟩
  rw [← hr] at htrim
  by_cases hblank : c = newline
  · refine ⟨c :: cs ++ 0#8 :: buff.drop ((c :: cs).length + 1), ?_⟩
    simp [readLoop, hget, pairOf, Garbled, hblank]
  · refine ⟨(strip (ofBuffer (c :: cs))).chars ++ 0#8 :: r', ?_⟩
    have hfirst : (c :: cs ++ 0#8 :: buff.drop ((c :: cs).length + 1)).head? ≠ some newline := by
      simpa using hblank
    have hstr : ofBuffer ((strip (ofBuffer (c :: cs))).chars ++ 0#8 :: r') =
        strip (ofBuffer (c :: cs)) := CStr.ext (ofBuffer_append_nul (strip _).nul_free)
    have hhash : ((strip (ofBuffer (c :: cs))).chars ++ 0#8 :: r').head? = some hash ↔
        (strip (ofBuffer (c :: cs))).chars.head? = some hash := by
      cases (strip (ofBuffer (c :: cs))).chars with
      | nil => simp [hash]
      | cons d ds => simp
    have hpair : (c :: cs).head? ≠ some newline := by simpa using hblank
    rw [readLoop, hget]
    simp only [if_neg hfirst, htrim]
    by_cases hover : Overlaps (ofBuffer (c :: cs))
    · rw [if_pos hover, if_pos ⟨hpair, hover⟩]
      rfl
    rw [if_neg hover, if_neg fun h : Garbled (c :: cs) => hover h.2]
    simp only [Option.bind_eq_bind, Option.bind_some, hhash, hstr, pairOf, if_neg hpair]
    by_cases hcomment : (strip (ofBuffer (c :: cs))).chars.head? = some hash
    · simp only [if_pos hcomment]
    · simp only [if_neg hcomment]
      cases hkey : strtok delim (strip (ofBuffer (c :: cs))) with
      | none => rfl
      | some key =>
        cases hvalue : strtok delim key.2 with
        | none => simp only [Option.bind_some, hvalue, Option.map_none]
        | some value =>
          simp only [Option.bind_some, hvalue, Option.map_some, ofBuffer_strncpy]

theorem readLoop_eq (hfuel : fp.length < fuel) :
    readLoop front fuel fp buff conf = readLines (pieces 126 fp) conf := by
  induction fuel generalizing fp buff conf with
  | zero => exact absurd hfuel (Nat.not_lt_zero _)
  | succ fuel ih =>
    cases fp with
    | nil => simp [readLoop, fgets, readLines]
    | cons d ds =>
      have hlt : (takeLine 127 (d :: ds)).2.length < fuel :=
        lt_of_lt_of_le length_takeLine_lt (Nat.le_of_lt_succ hfuel)
      obtain ⟨c, cs, hline⟩ : ∃ c cs, (takeLine 127 (d :: ds)).1 = c :: cs := by
        rw [takeLine]
        split <;> exact ⟨_, _, rfl⟩
      have hget : fgets KFS_FILENAME_LEN (d :: ds) =
          some (c :: cs, (takeLine 127 (d :: ds)).2) := by
        rw [← hline]
        rfl
      rcases readLoop_line front fuel buff conf hget with ⟨buff', hstep⟩
      rw [hstep, pieces_cons, hline, readLines]
      refine if_congr Iff.rfl rfl ?_
      cases pairOf (c :: cs) with
      | none => exact ih hlt
      | some pair =>
        cases hassign : assign pair.1 pair.2 conf with
        | none => simp only [hassign]
        | some conf' =>
          simp only [hassign]
          exact ih hlt

/-- **A file is read piece by piece.** -/
theorem kfsConfigRead_eq : kfsConfigRead front buff (some fp) =
    readLines (pieces 126 fp) .zero :=
  readLoop_eq (Nat.lt_succ_self _)

end Pieces

/-! ## What a piece says -/

section Pairs

variable {s key value : CStr} {line before core after text ws d : List Byte} {a b : Byte}

lemma chars_ofBuffer (h : 0#8 ∉ line) : (ofBuffer line).chars = line := by
  simp only [ofBuffer, List.takeWhile_eq_self_iff]
  intro c hc
  simpa using fun h₀ : c = 0#8 => h (h₀ ▸ hc)

lemma ne_nul_of_isspace (h : isspace a = true) : a ≠ 0#8 := by
  rintro rfl
  cases isspace_nul.symm.trans h

/-- White space on both sides of a text that neither starts nor ends with it. -/
lemma strip_eq (hs : s.chars = before ++ (core ++ after))
    (hbefore : ∀ c ∈ before, isspace c = true) (hafter : ∀ c ∈ after, isspace c = true)
    (hfirst : core.head? = some a) (ha : isspace a = false) (hlast : core.getLast? = some b)
    (hb : isspace b = false) : (strip s).chars = core := by
  obtain ⟨t, rfl⟩ := List.getLast?_eq_some_iff.mp hlast
  have hright : s.chars.rdropWhile isspace = before ++ (t ++ [b]) := by
    rw [hs, List.append_assoc t, ← List.append_assoc before, List.singleton_append,
      rdropWhile_append_cons hb, List.rdropWhile_eq_nil_iff.mpr hafter, List.append_assoc]
  obtain ⟨u, hu⟩ := List.head?_eq_some_iff.mp hfirst
  simp only [strip, hright]
  rw [List.dropWhile_append_of_pos hbefore, hu, List.dropWhile_cons_of_neg (by simp [ha])]

/-- The white space in front of a text. -/
lemma leading_eq (hs : s.chars = before ++ a :: after) (hbefore : ∀ c ∈ before, isspace c = true)
    (ha : isspace a = false) : leading s = before.length := by
  rw [leading, hs, List.takeWhile_append_of_pos hbefore,
    List.takeWhile_cons_of_neg (by simp [ha]), List.append_nil]

/-- A text of which `core` is left is moved over itself when there is white space in front, and not
more than `core` is long. -/
lemma overlaps_iff (hs : s.chars = before ++ a :: after) (hbefore : ∀ c ∈ before, isspace c = true)
    (ha : isspace a = false) (hcore : (strip s).chars = core) :
    Overlaps s ↔ ¬(before = [] ∨ core.length < before.length) := by
  rw [Overlaps, leading_eq hs hbefore ha, strlen, hcore, not_or, Nat.not_lt,
    ← List.length_eq_zero_iff, Nat.one_le_iff_ne_zero]

/-- Of white space nothing is moved. -/
lemma not_overlaps_blank (h : ∀ c ∈ s.chars, isspace c = true) : ¬Overlaps s := by
  have hempty : strlen (strip s) = 0 := by
    simp only [strlen, strip, List.rdropWhile_eq_nil_iff.mpr h]
    rfl
  rintro ⟨hpos, hle⟩
  omega

/-- Nothing but white space. -/
lemma pairOf_blank (h : ∀ c ∈ line, isspace c = true) : pairOf line = none := by
  have hchars : (ofBuffer line).chars = line := by
    refine chars_ofBuffer fun hnul => ?_
    cases isspace_nul.symm.trans (h _ hnul)
  have hempty : (strip (ofBuffer line)).chars = [] := by
    simp only [strip, hchars]
    rw [List.rdropWhile_eq_nil_iff.mpr h, List.dropWhile_nil]
  have htoken : strtok delim (strip (ofBuffer line)) = none :=
    strtok_eq_none (by simp [hempty])
  unfold pairOf
  split_ifs
  · rfl
  · simp [hempty, htoken]

lemma isspace_hash : isspace hash = false := by decide

lemma chars_comment (text : List Byte) (hws : ∀ c ∈ ws, isspace c = true) :
    (ofBuffer (ws ++ hash :: text)).chars = ws ++ hash :: (ofBuffer text).chars := by
  have hall : ∀ c ∈ ws, decide (c ≠ 0#8) = true := by
    intro c hc
    simpa using ne_nul_of_isspace (hws c hc)
  simp only [ofBuffer]
  rw [List.takeWhile_append_of_pos hall, List.takeWhile_cons_of_pos (by decide)]

lemma strip_comment (text : List Byte) (hws : ∀ c ∈ ws, isspace c = true) :
    (strip (ofBuffer (ws ++ hash :: text))).chars =
      hash :: (ofBuffer text).chars.rdropWhile isspace := by
  simp only [strip, chars_comment text hws, rdropWhile_append_cons isspace_hash]
  rw [List.dropWhile_append_of_pos hws, List.dropWhile_cons_of_neg (by simp [isspace_hash])]

/-- A comment, as far as it reaches. -/
lemma pairOf_comment (hws : ∀ c ∈ ws, isspace c = true) : pairOf (ws ++ hash :: text) = none := by
  have hfirst : (strip (ofBuffer (ws ++ hash :: text))).chars.head? = some hash := by
    rw [strip_comment text hws]
    rfl
  unfold pairOf
  rw [if_pos hfirst]
  split_ifs <;> rfl

/-- The two tokens of a key, delimiters and a value. -/
lemma strtok_pair (hs : s.chars = key.chars ++ (d ++ value.chars))
    (hkey : key.chars ≠ [] ∧ ∀ c ∈ key.chars, c ∉ delim.chars)
    (hvalue : value.chars ≠ [] ∧ ∀ c ∈ value.chars, c ∉ delim.chars)
    (hd : d ≠ [] ∧ ∀ c ∈ d, c ∈ delim.chars) :
    ∃ v x, strtok delim s = some (key, v) ∧ strtok delim v = some (value, x) := by
  have hdelim : ∀ c ∈ (d ++ value.chars).head?, c ∈ delim.chars := by
    obtain ⟨x, xs, rfl⟩ := List.exists_cons_of_ne_nil hd.1
    intro c hc
    obtain rfl : x = c := by simpa using hc
    exact hd.2 x List.mem_cons_self
  rcases strtok_eq_some (hs.trans (List.nil_append _).symm) (by simp) hkey.2 hkey.1 hdelim with
    ⟨u, v, huv, hu, hv⟩
  have hrest : v.chars = d.tail ++ (value.chars ++ []) := by
    rw [hv, List.tail_append_of_ne_nil hd.1, List.append_nil]
  rcases strtok_eq_some hrest (fun c hc => hd.2 c (List.mem_of_mem_tail hc)) hvalue.2 hvalue.1
    (by simp) with ⟨w, x, hwx, hw, -⟩
  obtain rfl : u = key := CStr.ext hu
  obtain rfl : w = value := CStr.ext hw
  exact ⟨v, x, huv, hwx⟩

/-- There is no NUL in a key, delimiters and a value with white space around them. -/
lemma chars_pair (hbefore : ∀ c ∈ before, isspace c = true) (hafter : ∀ c ∈ after, isspace c = true)
    (hd : ∀ c ∈ d, c ∈ delim.chars) :
    (ofBuffer (before ++ ((key.chars ++ (d ++ value.chars)) ++ after))).chars =
      before ++ ((key.chars ++ (d ++ value.chars)) ++ after) := by
  refine chars_ofBuffer ?_
  have hdelim : 0#8 ∉ delim.chars := delim.nul_free
  simp only [List.mem_append, not_or]
  exact ⟨fun h => ne_nul_of_isspace (hbefore _ h) rfl,
    ⟨key.nul_free, fun h => hdelim (hd _ h), value.nul_free⟩,
    fun h => ne_nul_of_isspace (hafter _ h) rfl⟩

/-- The key, the delimiters and the value are what is left of it. -/
lemma strip_pair (hbefore : ∀ c ∈ before, isspace c = true) (hafter : ∀ c ∈ after, isspace c = true)
    (hkey : key.chars ≠ [] ∧ ∀ c ∈ key.chars, isspace c = false)
    (hvalue : value.chars ≠ [] ∧ ∀ c ∈ value.chars, isspace c = false)
    (hd : ∀ c ∈ d, c ∈ delim.chars) :
    (strip (ofBuffer (before ++ ((key.chars ++ (d ++ value.chars)) ++ after)))).chars =
      key.chars ++ (d ++ value.chars) := by
  obtain ⟨k, ks, hk⟩ := List.exists_cons_of_ne_nil hkey.1
  refine strip_eq (chars_pair hbefore hafter hd) hbefore hafter
    (a := k) (by simp [hk]) (hkey.2 k (by simp [hk]))
    (b := value.chars.getLast hvalue.1) ?_ (hvalue.2 _ (List.getLast_mem hvalue.1))
  rw [← List.append_assoc, List.getLast?_append, List.getLast?_eq_some_getLast hvalue.1]
  rfl

/-- It overlaps when there is white space in front, and not more than it is long. -/
lemma overlaps_pair (hbefore : ∀ c ∈ before, isspace c = true)
    (hafter : ∀ c ∈ after, isspace c = true)
    (hkey : key.chars ≠ [] ∧ ∀ c ∈ key.chars, isspace c = false)
    (hvalue : value.chars ≠ [] ∧ ∀ c ∈ value.chars, isspace c = false)
    (hd : ∀ c ∈ d, c ∈ delim.chars) :
    Overlaps (ofBuffer (before ++ ((key.chars ++ (d ++ value.chars)) ++ after))) ↔
      ¬(before = [] ∨ (key.chars ++ (d ++ value.chars)).length < before.length) := by
  obtain ⟨k, ks, hk⟩ := List.exists_cons_of_ne_nil hkey.1
  have hchars : (ofBuffer (before ++ ((key.chars ++ (d ++ value.chars)) ++ after))).chars =
      before ++ k :: (ks ++ (d ++ value.chars) ++ after) := by
    rw [chars_pair hbefore hafter hd, hk]
    simp
  exact overlaps_iff hchars hbefore (hkey.2 k (by simp [hk]))
    (strip_pair hbefore hafter hkey hvalue hd)

/-- A key, delimiters and a value, with white space around them. -/
theorem pairOf_pair (hbefore : ∀ c ∈ before, isspace c = true ∧ c ≠ newline)
    (hafter : ∀ c ∈ after, isspace c = true)
    (hkey : key.chars ≠ [] ∧ ∀ c ∈ key.chars, isspace c = false ∧ c ∉ delim.chars ∧ c ≠ hash)
    (hvalue : value.chars ≠ [] ∧ ∀ c ∈ value.chars, isspace c = false ∧ c ∉ delim.chars)
    (hd : d ≠ [] ∧ ∀ c ∈ d, c ∈ delim.chars)
    (hlen : key.chars.length ≤ KVLEN ∧ value.chars.length ≤ KVLEN) :
    pairOf (before ++ ((key.chars ++ (d ++ value.chars)) ++ after)) = some (key, value) := by
  obtain ⟨k, ks, hk⟩ := List.exists_cons_of_ne_nil hkey.1
  have hkmem := hkey.2 k (by simp [hk])
  have hnl : isspace newline = true := by decide
  have hfirst : (before ++ ((key.chars ++ (d ++ value.chars)) ++ after)).head? ≠ some newline := by
    cases before with
    | nil =>
      rw [hk]
      simp only [List.nil_append, List.cons_append, List.head?_cons, ne_eq, Option.some.injEq]
      rintro rfl
      cases hnl.symm.trans hkmem.1
    | cons c before => simpa using (hbefore c (by simp)).2
  have hstrip := strip_pair (fun c hc => (hbefore c hc).1) hafter
    ⟨hkey.1, fun c hc => (hkey.2 c hc).1⟩ ⟨hvalue.1, fun c hc => (hvalue.2 c hc).1⟩ hd.2
  rcases strtok_pair hstrip ⟨hkey.1, fun c hc => (hkey.2 c hc).2.1⟩
    ⟨hvalue.1, fun c hc => (hvalue.2 c hc).2⟩ hd with ⟨v, x, hfirstToken, hsecondToken⟩
  have hnot : (strip (ofBuffer (before ++
      ((key.chars ++ (d ++ value.chars)) ++ after)))).chars.head? ≠ some hash := by
    rw [hstrip, hk]
    simpa using hkmem.2.2
  rw [pairOf, if_neg hfirst]
  simp only [if_neg hnot, hfirstToken, Option.bind_some, hsecondToken, Option.map_some,
    CStr.take_of_length_le hlen.1, CStr.take_of_length_le hlen.2]

end Pairs

/-! ## Entries -/

/-- The entries, in the order of the dispatch. -/
inductive Entry
  | kfs_file | pid_file | sock_file | cache_page_len | cache_ino_len | cache_path_len
  | cache_graph_len | threads_pool | sock_buffer_size | root_super_inode | max_clients
deriving DecidableEq

/-- The key of an entry. -/
def Entry.key : Entry → CStr
  | .kfs_file => ofChars "kfs_file"
  | .pid_file => ofChars "pid_file"
  | .sock_file => ofChars "sock_file"
  | .cache_page_len => ofChars "cache_page_len"
  | .cache_ino_len => ofChars "cache_ino_len"
  | .cache_path_len => ofChars "cache_path_len"
  | .cache_graph_len => ofChars "cache_graph_len"
  | .threads_pool => ofChars "threads_pool"
  | .sock_buffer_size => ofChars "sock_buffer_size"
  | .root_super_inode => ofChars "root_super_inode"
  | .max_clients => ofChars "max_clients"

/-- What an entry holds. -/
inductive Value
  | str (buf : List Byte)
  | int (z : ℤ)
deriving DecidableEq

def KfsConfig.get (conf : KfsConfig) : Entry → Value
  | .kfs_file => .str conf.kfs_file
  | .pid_file => .str conf.pid_file
  | .sock_file => .str conf.sock_file
  | .cache_page_len => .int conf.cache_page_len
  | .cache_ino_len => .int conf.cache_ino_len
  | .cache_path_len => .int conf.cache_path_len
  | .cache_graph_len => .int conf.cache_graph_len
  | .threads_pool => .int conf.threads_pool
  | .sock_buffer_size => .int conf.sock_buffer_size
  | .root_super_inode => .int conf.root_super_inode
  | .max_clients => .int conf.max_clients

/-- What an entry makes of the text of a value. -/
def Entry.read : Entry → CStr → Value
  | .kfs_file, s | .pid_file, s | .sock_file, s => .str (strncpy KVLEN s)
  | _, s => .int (atoi s)

def KfsConfig.set (conf : KfsConfig) (f : Entry) (s : CStr) : KfsConfig :=
  match f with
  | .kfs_file => { conf with kfs_file := strncpy KVLEN s }
  | .pid_file => { conf with pid_file := strncpy KVLEN s }
  | .sock_file => { conf with sock_file := strncpy KVLEN s }
  | .cache_page_len => { conf with cache_page_len := atoi s }
  | .cache_ino_len => { conf with cache_ino_len := atoi s }
  | .cache_path_len => { conf with cache_path_len := atoi s }
  | .cache_graph_len => { conf with cache_graph_len := atoi s }
  | .threads_pool => { conf with threads_pool := atoi s }
  | .sock_buffer_size => { conf with sock_buffer_size := atoi s }
  | .root_super_inode => { conf with root_super_inode := atoi s }
  | .max_clients => { conf with max_clients := atoi s }

/-- The entry with a key. -/
def entryOf (key : CStr) : Option Entry :=
  [.kfs_file, .pid_file, .sock_file, .cache_page_len, .cache_ino_len, .cache_path_len,
    .cache_graph_len, .threads_pool, .sock_buffer_size, .root_super_inode, .max_clients].find?
      fun f : Entry => strcmp key f.key = 0

section Entries

variable {conf conf' : KfsConfig} {f g : Entry} {key value : CStr}

lemma get_set : (conf.set f value).get g = if g = f then f.read value else conf.get g := by
  cases f <;> cases g <;> rfl

lemma ext_get (h : ∀ f, conf.get f = conf'.get f) : conf = conf' := by
  have hstr : ∀ {a b : List Byte}, Value.str a = Value.str b → a = b := Value.str.inj
  have hint : ∀ {a b : ℤ}, Value.int a = Value.int b → a = b := Value.int.inj
  cases conf
  cases conf'
  simp only [KfsConfig.mk.injEq]
  exact ⟨hstr (h .kfs_file), hstr (h .pid_file), hstr (h .sock_file), hint (h .cache_page_len),
    hint (h .cache_ino_len), hint (h .cache_path_len), hint (h .cache_graph_len),
    hint (h .threads_pool), hint (h .max_clients), hint (h .root_super_inode),
    hint (h .sock_buffer_size)⟩

lemma entryOf_key (f : Entry) : entryOf f.key = some f := by
  cases f <;> decide +kernel

lemma find?_cons_ite {α : Type} {P : α → Prop} [DecidablePred P] {a : α} {l : List α} :
    (a :: l).find? (fun x => P x) = if P a then some a else l.find? fun x => P x := by
  by_cases ha : P a <;> simp [ha]

/-- The dispatch sets the entry with the key. -/
lemma assign_eq : assign key value conf = (entryOf key).map fun f => conf.set f value := by
  simp only [entryOf, find?_cons_ite, List.find?_nil, apply_ite (Option.map _), Option.map_some,
    Option.map_none]
  rfl

end Entries

/-! ## Settings -/

/-- The entries that the pieces set, up to the first unknown pair. -/
def settings : List (List Byte) → List (Entry × CStr)
  | [] => []
  | line :: lines =>
    match pairOf line with
    | none => settings lines
    | some (key, value) =>
      match entryOf key with
      | none => []
      | some f => (f, value) :: settings lines

/-- No piece is garbled, up to the first unknown pair. -/
def readable : List (List Byte) → Bool
  | [] => true
  | line :: lines =>
    !decide (Garbled line) &&
      match pairOf line with
      | none => readable lines
      | some (key, _) => (entryOf key).isNone || readable lines

/-- There is an unknown pair. -/
def stops : List (List Byte) → Bool
  | [] => false
  | line :: lines =>
    match pairOf line with
    | none => stops lines
    | some (key, _) => (entryOf key).isNone || stops lines

/-- The last value that is set for an entry. -/
def lastSet (f : Entry) (sets : List (Entry × CStr)) : Option Value :=
  (sets.filterMap fun s => if s.1 = f then some (f.read s.2) else none).getLast?

section Settings

variable {conf : KfsConfig} {f : Entry} {lines lines' : List (List Byte)}
  {sets : List (Entry × CStr)}

theorem readLines_eq : readLines lines conf =
    if readable lines then
      some (if stops lines then -1 else 0,
        (settings lines).foldl (fun c s => c.set s.1 s.2) conf)
    else none := by
  induction lines generalizing conf with
  | nil => rfl
  | cons line lines ih =>
    by_cases hgarbled : Garbled line
    · simp [readLines, readable, hgarbled]
    · cases hpair : pairOf line with
      | none => simp [readLines, readable, settings, stops, hgarbled, hpair, ih]
      | some pair =>
        cases hentry : entryOf pair.1 with
        | none => simp [readLines, readable, settings, stops, hgarbled, hpair, assign_eq, hentry]
        | some f =>
          simp [readLines, readable, settings, stops, hgarbled, hpair, assign_eq, hentry, ih]

lemma lastSet_cons (s : Entry × CStr) : lastSet f (s :: sets) =
    (lastSet f sets).or (if s.1 = f then some (f.read s.2) else none) := by
  unfold lastSet
  rw [List.filterMap_cons]
  by_cases hf : s.1 = f
  · simp only [if_pos hf, List.getLast?_cons]
    cases (sets.filterMap fun s => if s.1 = f then some (f.read s.2) else none).getLast? <;> rfl
  · simp only [if_neg hf, Option.or_none]

/-- **An entry has the last value it was set to.** -/
theorem get_foldl_set : (sets.foldl (fun c s => c.set s.1 s.2) conf).get f =
    (lastSet f sets).getD (conf.get f) := by
  induction sets generalizing conf with
  | nil => rfl
  | cons s sets ih =>
    rw [List.foldl_cons, ih, get_set, lastSet_cons]
    cases lastSet f sets with
    | some x => rfl
    | none =>
      by_cases hf : s.1 = f
      · simp [hf]
      · simp [hf, Ne.symm hf]

end Settings

end KanekFs.Config
