import KanekFs.Hash
import KanekFs.Lib.FirstMatch
import KanekFs.Lib.Run

/-!
# Dictionaries

`dict.c`: an array of entries that doubles, is searched from its start, and is closed up when an
entry is removed. A call that reads or stores outside the array has no result.

* `Shape` is what every call keeps: the array has `n_elems` entries and `used_elems` of them are
  in use.
* `entries` are the entries in use. `dictAddEntry_spec`, `dictRemoveEntry_spec`,
  `dictUpdateEntry_spec` and `dictClean_spec` say what each call does to them; what is proved about
  dictionaries uses these only.
-/

namespace KanekFs.Dictionary

open Bytes Word CString Hash FirstMatch

/-! ## Definitions -/

def dictKeyLen : ℕ := 32
def dictDefaultNumElems : ℕ := 4

def dictString : BitVec 8 := 5
def dictBlob : BitVec 8 := 6
def dictExtent : BitVec 8 := 7

/-- `value_t`; `value` is what the union holds. -/
structure Value where
  data_type : BitVec 8
  data_len : BitVec 32
  value : BitVec 64
deriving DecidableEq

/-- `dict_entry_t`. -/
structure DictEntry where
  hash_key : ℕ
  key : List Byte
  value : Value
deriving DecidableEq

def sizeofDictEntry : ℕ := 56

/-- An entry after `memset`. -/
def DictEntry.zero : DictEntry := ⟨0, List.replicate dictKeyLen 0#8, ⟨0, 0, 0⟩⟩

/-- `dict_t`; `none` is a null pointer. -/
structure Dict where
  n_elems : ℕ
  used_elems : ℕ
  dict : Option (List DictEntry)
deriving DecidableEq

def dictNew : Dict := ⟨0, 0, none⟩

/-- What a call does: its return code, the dictionary, the entries it stored to, in order, and the
pointers it gave to `free`. -/
structure Result where
  rc : ℤ
  d : Dict
  stored : List ℕ
  freed : List (BitVec 64)

/-- The memory behind `d->dict`. -/
def Dict.buf (d : Dict) : List DictEntry := d.dict.getD []

/-- The entries in use. -/
def entries (d : Dict) : List DictEntry := d.buf.take d.used_elems

/-! `dict_add_entry`. -/

/-- `nbuflen`, an `int`. -/
def nbuflen (d : Dict) : ℤ :=
  if d.dict = none then toInt32 (sizeofDictEntry * dictDefaultNumElems)
  else if u32 (d.used_elems + 1) ≥ d.n_elems then toInt32 (sizeofDictEntry * d.n_elems * 2)
  else 0

/-- `realloc` to `n` entries; the new memory holds `junk`. -/
def reallocEntries (l : List DictEntry) (n : ℕ) (junk : DictEntry) : List DictEntry :=
  l.take n ++ List.replicate (n - l.length) junk

/-- `memset` of the entries from `used` on. -/
def clearFrom (l : List DictEntry) (used : ℕ) : List DictEntry :=
  l.take used ++ List.replicate (l.length - used) DictEntry.zero

/-- The dictionary with room for an entry, where the code makes room. -/
def reserve (junk : DictEntry) (d : Dict) : Dict :=
  if 0 < nbuflen d then
    let n := (nbuflen d).toNat / sizeofDictEntry
    { d with n_elems := n, dict := some (clearFrom (reallocEntries d.buf n junk) d.used_elems) }
  else d

/-- The entry that `dict_add_entry` makes. -/
def mkEntry (key : CStr) (value : Value) : DictEntry :=
  { hash_key := hashB79 (ofBuffer (strncpy dictKeyLen key))
    key := strncpy dictKeyLen key
    value := value }

def dictAddEntry (junk : DictEntry) (d : Dict) (key : CStr) (value : Value) : Option Result :=
  let d' := reserve junk d
  if d'.used_elems < d'.buf.length then
    some
      { rc := 0
        d := { d' with
          used_elems := u32 (d'.used_elems + 1)
          dict := some (d'.buf.set d'.used_elems (mkEntry key value)) }
        -- the entries that were cleared, and the new one
        stored := (if 0 < nbuflen d then List.range' d.used_elems (d'.n_elems - d.used_elems)
          else []) ++ [d'.used_elems]
        freed := [] }
  else none

/-! `dict_search_entry`. -/

/-- `strncmp( key, d->dict[i].key, DICT_KEY_LEN) == 0`. -/
def Matches (key : CStr) (e : DictEntry) : Bool := strncmp dictKeyLen key.chars e.key = 0

/-- The loop over `n` entries from `i` on. -/
def searchLoop (key : CStr) (buf : List DictEntry) : ℕ → ℕ → Option (Option ℕ)
  | 0, _ => some none
  | n + 1, i =>
    match buf[i]? with
    | none => none
    | some e => if Matches key e then some (some i) else searchLoop key buf n (i + 1)

/-- The index `*sub` of the entry that is returned; `some none` is a null pointer. -/
def dictSearchEntry (d : Dict) (key : CStr) : Option (Option ℕ) :=
  searchLoop key d.buf d.used_elems 0

/-! `dict_remove_entry`. -/

/-- `memcpy` of `n` entries from `i + 1` to `i`, in ascending order. -/
def shiftDown : ℕ → List DictEntry → ℕ → Option (List DictEntry)
  | 0, buf, _ => some buf
  | n + 1, buf, i =>
    match buf[i + 1]? with
    | none => none
    | some e => shiftDown n (buf.set i e) (i + 1)

def dictRemoveEntry (d : Dict) (key : CStr) : Option Result :=
  if d.used_elems = 0 then some ⟨-1, d, [], []⟩
  else
    match dictSearchEntry d key with
    | none => none
    | some none => some ⟨-1, d, [], []⟩
    | some (some sub) =>
      let n := if d.used_elems - 1 ≠ sub then d.used_elems - sub - 1 else 0
      (shiftDown n d.buf sub).map fun buf =>
        ⟨0, { d with used_elems := d.used_elems - 1, dict := some buf }, List.range' sub n, []⟩

/-! `dict_update_entry` and `dict_clean`. -/

/-- What is freed with a value. -/
def Value.owned (v : Value) : List (BitVec 64) :=
  if v.value ≠ 0 ∧
      (v.data_type = dictBlob ∨ v.data_type = dictExtent ∨ v.data_type = dictString) then
    [v.value]
  else []

def dictUpdateEntry (d : Dict) (key : CStr) (new_value : Value) : Option Result :=
  if d.used_elems = 0 then some ⟨-1, d, [], []⟩
  else
    match dictSearchEntry d key with
    | none => none
    | some none => some ⟨-1, d, [], []⟩
    | some (some sub) =>
      match d.buf[sub]? with
      | none => none
      | some o =>
        some ⟨0, { d with dict := some (d.buf.set sub { o with value := new_value }) }, [sub],
          o.value.owned⟩

/-- `dict_clean`, which returns nothing. -/
def dictClean (d : Dict) : Option Result :=
  if d.n_elems = 0 ∧ d.dict = none then some ⟨0, d, [], []⟩
  else if d.used_elems ≤ d.buf.length then
    some ⟨0, dictNew, [], (entries d).flatMap fun e => e.value.owned⟩
  else none

/-! ## Runs -/

/-- One call. The memory that a growing array gets holds `junk`. -/
inductive Op
  | add (junk : DictEntry) (key : CStr) (value : Value)
  | remove (key : CStr)
  | update (key : CStr) (value : Value)
  | clean

def call (d : Dict) : Op → Option Result
  | .add junk key value => dictAddEntry junk d key value
  | .remove key => dictRemoveEntry d key
  | .update key value => dictUpdateEntry d key value
  | .clean => dictClean d

def step (d : Dict) (a : Op) : Option Dict := (call d a).map Result.d

/-! ## The shape of a dictionary -/

/-- The largest capacity: twice its size in bytes is no `int`. -/
def maxElems : ℕ := 2 ^ 25

/-- `n_elems` is what is allocated, a power of two; the array is full at its largest capacity
only. -/
structure Shape (d : Dict) : Prop where
  length : d.buf.length = d.n_elems
  used_le : d.used_elems ≤ d.n_elems
  pow : d.dict ≠ none → ∃ k ≤ 23, d.n_elems = 4 * 2 ^ k
  room : d.dict ≠ none → d.n_elems < maxElems → d.used_elems < d.n_elems

lemma shape_dictNew : Shape dictNew :=
  ⟨rfl, le_rfl, fun h => absurd rfl h, fun h => absurd rfl h⟩

@[simp] lemma entries_dictNew : entries dictNew = [] := rfl

lemma entries_some (n used : ℕ) (l : List DictEntry) :
    entries ⟨n, used, some l⟩ = l.take used := rfl

section Entries

variable {d : Dict} {r : Result} {key : CStr} {value : Value} {junk : DictEntry} {sub : ℕ}

lemma Shape.length_entries (h : Shape d) : (entries d).length = d.used_elems := by
  have hle := h.used_le
  rw [entries, List.length_take, h.length]
  omega

/-- A null pointer comes with the capacity 0. -/
lemma Shape.null (h : Shape d) (hnull : d.dict = none) : d.n_elems = 0 ∧ d.used_elems = 0 := by
  have hlen : d.n_elems = 0 := by
    rw [← h.length, Dict.buf, hnull]
    rfl
  have hle := h.used_le
  exact ⟨hlen, by omega⟩

lemma Shape.n_elems_le (h : Shape d) : d.n_elems ≤ maxElems := by
  by_cases hnull : d.dict = none
  · rw [(h.null hnull).1]
    exact Nat.zero_le _
  · obtain ⟨k, hk, hn⟩ := h.pow hnull
    have hpow : 2 ^ k ≤ 2 ^ 23 := Nat.pow_le_pow_right (by decide) hk
    unfold maxElems
    omega

end Entries

/-! ## Searching -/

section Search

variable {d : Dict} {key : CStr}

lemma searchLoop_eq {buf : List DictEntry} {n i : ℕ} (h : i + n ≤ buf.length) :
    searchLoop key buf n i =
      some ((((buf.drop i).take n).findIdx? (Matches key)).map (· + i)) := by
  induction n generalizing i with
  | zero => simp [searchLoop]
  | succ n ih =>
    have hi : i < buf.length := by omega
    rw [searchLoop, List.getElem?_eq_getElem hi, List.drop_eq_getElem_cons hi, List.take_succ_cons,
      List.findIdx?_cons]
    dsimp only
    split
    · simp
    · rw [ih (by omega), Option.map_map]
      congr 2
      funext j
      simp only [Function.comp_apply]
      omega

/-- The search returns the first entry in use that matches. -/
theorem dictSearchEntry_eq (h : Shape d) :
    dictSearchEntry d key = some ((entries d).findIdx? (Matches key)) := by
  have hle := h.used_le
  rw [← h.length] at hle
  rw [dictSearchEntry, searchLoop_eq (by omega)]
  simp [entries]

/-- The entry that a search returns. -/
lemma getElem?_of_findIdx? {sub : ℕ} (h : (entries d).findIdx? (Matches key) = some sub) :
    ∃ e, (entries d)[sub]? = some e ∧ d.buf[sub]? = some e ∧ sub < d.used_elems := by
  rcases List.findIdx?_eq_some_iff_getElem.mp h with ⟨hlt, -, -⟩
  have hused : sub < d.used_elems := by
    rw [entries, List.length_take] at hlt
    omega
  refine ⟨(entries d)[sub], List.getElem?_eq_getElem hlt, ?_, hused⟩
  rw [← List.getElem?_eq_getElem hlt, entries, List.getElem?_take_of_lt hused]

end Search

/-! ## Adding -/

section Add

variable {d : Dict} {key : CStr} {value : Value} {junk : DictEntry}

/-- What `dict_add_entry` stores into: the entries are the ones before, and there is room. -/
structure Reserved (d d' : Dict) : Prop where
  length : d'.buf.length = d'.n_elems
  used : d'.used_elems = d.used_elems
  entries : d'.buf.take d.used_elems = entries d
  lt : d.used_elems < d'.n_elems
  pow : ∃ k ≤ 23, d'.n_elems = 4 * 2 ^ k
  room : d'.n_elems < maxElems → d.used_elems + 1 < d'.n_elems

lemma length_clearFrom {l : List DictEntry} {used : ℕ} (h : used ≤ l.length) :
    (clearFrom l used).length = l.length := by
  simp only [clearFrom, List.length_append, List.length_take, List.length_replicate]
  omega

lemma length_reallocEntries {l : List DictEntry} {n : ℕ} (h : l.length ≤ n) :
    (reallocEntries l n junk).length = n := by
  simp only [reallocEntries, List.length_append, List.length_take, List.length_replicate]
  omega

/-- Growing keeps the entries in use. -/
lemma take_clearFrom_reallocEntries {l : List DictEntry} {n used : ℕ} (h : l.length ≤ n)
    (hused : used ≤ l.length) :
    (clearFrom (reallocEntries l n junk) used).take used = l.take used := by
  have hlen : used ≤ (reallocEntries l n junk).length := (hused.trans h).trans_eq
    (length_reallocEntries h).symm
  rw [clearFrom, List.take_append_of_le_length (by simp [hlen]), List.take_take, min_self,
    reallocEntries, List.take_of_length_le h, List.take_append_of_le_length hused]

/-- Growing to a number of entries whose size is an `int`. -/
lemma reserved_grow (h : Shape d) {n k : ℕ} (hbuflen : nbuflen d = (sizeofDictEntry * n : ℕ))
    (hk : k ≤ 23) (hn : n = 4 * 2 ^ k) (hle : d.n_elems ≤ n) (hroom : d.used_elems + 1 < n) :
    0 < nbuflen d ∧ Reserved d (reserve junk d) ∧ (reserve junk d).n_elems = n := by
  have hsize : sizeofDictEntry = 56 := rfl
  have hpos : 0 < nbuflen d := by
    rw [hbuflen, hsize]
    omega
  have hcount : (nbuflen d).toNat / sizeofDictEntry = n := by
    rw [hbuflen, Int.toNat_natCast, hsize]
    omega
  have hlen : d.buf.length ≤ n := h.length.trans_le hle
  have hused : d.used_elems ≤ d.buf.length := h.used_le.trans_eq h.length.symm
  have heq : reserve junk d = { d with
      n_elems := n, dict := some (clearFrom (reallocEntries d.buf n junk) d.used_elems) } := by
    rw [reserve, if_pos hpos, hcount]
  have hbuf : (reserve junk d).buf = clearFrom (reallocEntries d.buf n junk) d.used_elems := by
    rw [heq]
    rfl
  refine ⟨hpos, ?_, by rw [heq]⟩
  exact
    { length := by
        rw [hbuf, length_clearFrom (by rw [length_reallocEntries hlen]; omega),
          length_reallocEntries hlen, heq]
      used := by rw [heq]
      entries := by rw [hbuf, take_clearFrom_reallocEntries hlen hused, entries]
      lt := by rw [heq]; exact (Nat.lt_succ_self _).trans hroom
      pow := ⟨k, hk, by rw [heq]; exact hn⟩
      room := fun _ => by rw [heq]; exact hroom }

/-- `dict_add_entry` makes room as long as there are less than `maxElems` entries. -/
lemma reserve_spec (junk : DictEntry) (h : Shape d) (hused : d.used_elems < maxElems) :
    Reserved d (reserve junk d) ∧ (nbuflen d ≤ 0 → reserve junk d = d) := by
  have hkeep : nbuflen d ≤ 0 → reserve junk d = d := fun hle => if_neg (not_lt.mpr hle)
  refine ⟨?_, hkeep⟩
  by_cases hnull : d.dict = none
  · -- the first entry: the default capacity
    obtain ⟨hn, hzero⟩ := h.null hnull
    have hbuflen : nbuflen d = (sizeofDictEntry * 4 : ℕ) := by
      rw [nbuflen, if_pos hnull]
      rfl
    exact (reserved_grow h hbuflen (k := 0) (by omega) (by omega) (by omega) (by omega)).2.1
  · obtain ⟨k, hk, hn⟩ := h.pow hnull
    have hmax : maxElems = 4 * 2 ^ 23 := by decide
    have hle := h.n_elems_le
    have hsucc : u32 (d.used_elems + 1) = d.used_elems + 1 := u32_of_lt (by omega)
    by_cases hfull : d.used_elems + 1 ≥ d.n_elems
    · have hbuflen : nbuflen d = toInt32 (sizeofDictEntry * d.n_elems * 2) := by
        rw [nbuflen, if_neg hnull, hsucc, if_pos hfull]
      have hsize : sizeofDictEntry = 56 := rfl
      by_cases hlast : d.n_elems < maxElems
      · -- the capacity is doubled
        have hk' : k + 1 ≤ 23 := by
          have hpow : 2 ^ k < 2 ^ 23 := by omega
          have hexp := (Nat.pow_lt_pow_iff_right (by decide : 1 < 2)).mp hpow
          omega
        have hlt := h.room hnull hlast
        have hint : nbuflen d = (sizeofDictEntry * (d.n_elems * 2) : ℕ) := by
          have hsmall : d.n_elems ≤ 4 * 2 ^ 22 := by
            have hpow : 2 ^ k ≤ 2 ^ 22 := Nat.pow_le_pow_right (by decide) (by omega)
            omega
          rw [hbuflen, toInt32_of_lt (by rw [hsize]; omega)]
          congr 1
          ring
        exact (reserved_grow h hint hk' (by rw [hn]; ring) (by omega) (by omega)).2.1
      · -- the new size is no `int`, and the capacity stays; there is still room for one entry
        have hmaxed : d.n_elems = maxElems := by omega
        have hneg : nbuflen d ≤ 0 := by
          rw [hbuflen, hmaxed]
          decide
        rw [hkeep hneg]
        exact ⟨h.length, rfl, rfl, by omega, ⟨k, hk, hn⟩, fun hlt => absurd hlt hlast⟩
    · -- there is room
      have hzero : nbuflen d ≤ 0 := by
        rw [nbuflen, if_neg hnull, hsucc, if_neg hfull]
      rw [hkeep hzero]
      exact ⟨h.length, rfl, rfl, by omega, ⟨k, hk, hn⟩, fun _ => by omega⟩

/-- A store behind the entries in use. -/
lemma entries_push {n used : ℕ} {l : List DictEntry} {e : DictEntry} (h : used < l.length) :
    entries ⟨n, used + 1, some (l.set used e)⟩ = l.take used ++ [e] := by
  have hlen : used < (l.set used e).length := by simpa using h
  rw [entries_some, List.take_succ_eq_append_getElem hlen, List.take_set_of_le le_rfl,
    List.getElem_set_self]

/-- **Adding** appends an entry, stores inside the array, and leaves room for one more. -/
theorem dictAddEntry_spec (h : Shape d) (hused : d.used_elems < maxElems) (junk : DictEntry)
    (key : CStr) (value : Value) :
    ∃ r, dictAddEntry junk d key value = some r ∧ Shape r.d ∧
      entries r.d = entries d ++ [mkEntry key value] ∧ (∀ i ∈ r.stored, i < r.d.n_elems) := by
  obtain ⟨hres, hkeep⟩ := reserve_spec junk h hused
  have hlt := hres.lt
  have hpow := hres.pow
  have hmax : maxElems = 4 * 2 ^ 23 := by decide
  have hfits : (reserve junk d).used_elems < (reserve junk d).buf.length := by
    rw [hres.used, hres.length]
    exact hlt
  have hsucc : u32 ((reserve junk d).used_elems + 1) = d.used_elems + 1 := by
    rw [hres.used]
    exact u32_of_lt (by omega)
  refine ⟨_, if_pos hfits, ?_, ?_, ?_⟩
  · refine ⟨?_, ?_, fun _ => hpow, ?_⟩
    · simpa [Dict.buf] using hres.length
    · dsimp only
      rw [hsucc]
      omega
    · intro _ hlast
      dsimp only at hlast ⊢
      rw [hsucc]
      exact hres.room hlast
  · -- the entries before the new one are not touched
    have hlen : d.used_elems < (reserve junk d).buf.length := hres.used ▸ hfits
    dsimp only
    rw [hsucc, hres.used, entries_push hlen, hres.entries]
  · intro i hi
    dsimp only at hi ⊢
    rw [List.mem_append, List.mem_singleton, hres.used] at hi
    rcases hi with hi | rfl
    · split at hi
      · have hmem := List.mem_range'_1.mp hi
        omega
      · simp at hi
    · exact hlt

/-- At the largest capacity a further entry would be stored behind the array. -/
lemma dictAddEntry_eq_none (h : Shape d) (hused : maxElems ≤ d.used_elems) (junk : DictEntry)
    (key : CStr) (value : Value) :
    dictAddEntry junk d key value = none := by
  have hle := h.n_elems_le
  have hused' := h.used_le
  have hmaxed : d.n_elems = maxElems := by omega
  have hnull : d.dict ≠ none := by
    intro hnull
    have hzero := (h.null hnull).1
    rw [hzero] at hmaxed
    exact absurd hmaxed (by decide)
  have hfull : u32 (d.used_elems + 1) ≥ d.n_elems := by
    have hmax : maxElems = 2 ^ 25 := rfl
    rw [u32_of_lt (by omega)]
    omega
  have hneg : ¬ 0 < nbuflen d := by
    rw [nbuflen, if_neg hnull, if_pos hfull, hmaxed]
    decide
  have hkeep : reserve junk d = d := if_neg hneg
  have hout : ¬ (reserve junk d).used_elems < (reserve junk d).buf.length := by
    rw [hkeep, h.length]
    omega
  exact if_neg hout

end Add

/-! ## Removing, updating and cleaning -/

section Change

variable {d : Dict} {key : CStr} {value : Value}

/-- What `memcpy` leaves: the entries behind `i` moved down by one, the last one twice. -/
lemma shiftDown_eq {n i : ℕ} {buf : List DictEntry} (h : i + n < buf.length) :
    shiftDown n buf i = some (buf.take i ++ (buf.drop (i + 1)).take n ++ buf.drop (i + n)) := by
  induction n generalizing buf i with
  | zero => simp [shiftDown]
  | succ n ih =>
    have hi : i + 1 < buf.length := by omega
    have hlen : i + 1 + n < (buf.set i buf[i + 1]).length := by
      rw [List.length_set]
      omega
    have htake : (buf.set i buf[i + 1]).take (i + 1) = buf.take i ++ [buf[i + 1]] := by
      have hset : i < (buf.set i buf[i + 1]).length := by
        rw [List.length_set]
        omega
      rw [List.take_succ_eq_append_getElem hset, List.take_set_of_le le_rfl,
        List.getElem_set_self]
    rw [shiftDown, List.getElem?_eq_getElem hi]
    dsimp only
    rw [ih hlen, htake, List.drop_set_of_lt (by omega), List.drop_set_of_lt (by omega),
      List.drop_eq_getElem_cons hi, List.take_succ_cons, show i + 1 + n = i + (n + 1) by omega]
    simp

/-- **Removing** takes the first match out and stores inside the array; without a match it returns
-1 and changes nothing. -/
theorem dictRemoveEntry_spec (h : Shape d) (key : CStr) :
    ∃ r, dictRemoveEntry d key = some r ∧ Shape r.d ∧
      entries r.d = (entries d).eraseP (Matches key) ∧ (∀ i ∈ r.stored, i < r.d.n_elems) ∧
      ((∀ e ∈ entries d, Matches key e = false) → r = ⟨-1, d, [], []⟩) := by
  have hle := h.used_le
  have habsent : (∀ e ∈ entries d, Matches key e = false) →
      (entries d).eraseP (Matches key) = entries d := fun hno =>
    List.eraseP_of_forall_not (by simpa using hno)
  by_cases hzero : d.used_elems = 0
  · -- nothing is in use
    have hnil : entries d = [] := by rw [entries, hzero, List.take_zero]
    exact ⟨_, if_pos hzero, h, by rw [hnil]; rfl, by simp, fun _ => rfl⟩
  · rw [dictRemoveEntry, if_neg hzero, dictSearchEntry_eq h]
    cases hfind : (entries d).findIdx? (Matches key) with
    | none =>
      have hno := List.findIdx?_eq_none_iff.mp hfind
      exact ⟨_, rfl, h, (habsent hno).symm, by simp, fun _ => rfl⟩
    | some sub =>
      obtain ⟨e, he, hbuf, hsub⟩ := getElem?_of_findIdx? hfind
      have hnull : d.dict ≠ none := by
        intro hnull
        rw [Dict.buf, hnull] at hbuf
        simp at hbuf
      have hcount : (if d.used_elems - 1 ≠ sub then d.used_elems - sub - 1 else 0) =
          d.used_elems - 1 - sub := by
        split <;> omega
      have hend : sub + (d.used_elems - 1 - sub) < d.buf.length := by
        rw [h.length]
        omega
      dsimp only
      rw [hcount, shiftDown_eq hend, Option.map_some]
      refine ⟨_, rfl, ⟨?_, ?_, h.pow ∘ fun _ => hnull, ?_⟩, ?_, ?_, ?_⟩
      · -- as many entries as before
        simp only [Dict.buf, Option.getD_some, List.length_append, List.length_take,
          List.length_drop]
        have hlen := h.length
        simp only [Dict.buf] at hlen hend
        omega
      · dsimp only
        omega
      · intro _ hlast
        have hroom := h.room hnull hlast
        dsimp only at hroom ⊢
        omega
      · have hlen :
            (d.buf.take sub ++ (d.buf.drop (sub + 1)).take (d.used_elems - 1 - sub)).length =
            d.used_elems - 1 := by
          simp only [List.length_append, List.length_take, List.length_drop]
          omega
        have hsuffix : d.used_elems - (sub + 1) = d.used_elems - 1 - sub := by omega
        rw [List.eraseP_eq_eraseIdx, hfind]
        dsimp only
        rw [entries_some, List.take_left' hlen, List.eraseIdx_eq_take_drop_succ, entries,
          List.take_take, List.drop_take, hsuffix, Nat.min_eq_left hsub.le]
      · intro i hi
        have hmem := List.mem_range'_1.mp hi
        dsimp only
        omega
      · -- there was a match
        intro hno
        rcases List.findIdx?_eq_some_iff_getElem.mp hfind with ⟨hlt, hmatch, -⟩
        rw [hno _ (List.getElem_mem hlt)] at hmatch
        exact absurd hmatch (by simp)

/-- **Updating** changes the value of the first match and stores inside the array; without a match
it returns -1 and changes nothing. -/
theorem dictUpdateEntry_spec (h : Shape d) (key : CStr) (value : Value) :
    ∃ r, dictUpdateEntry d key value = some r ∧ Shape r.d ∧
      entries r.d = changeFirst (Matches key) (fun e => { e with value := value }) (entries d) ∧
      (∀ i ∈ r.stored, i < r.d.n_elems) ∧
      ((∀ e ∈ entries d, Matches key e = false) → r = ⟨-1, d, [], []⟩) := by
  by_cases hzero : d.used_elems = 0
  · have hnil : entries d = [] := by rw [entries, hzero, List.take_zero]
    exact ⟨_, if_pos hzero, h, by rw [hnil]; rfl, by simp, fun _ => rfl⟩
  · rw [dictUpdateEntry, if_neg hzero, dictSearchEntry_eq h]
    cases hfind : (entries d).findIdx? (Matches key) with
    | none =>
      have hno := List.findIdx?_eq_none_iff.mp hfind
      exact ⟨_, rfl, h, (changeFirst_of_none hno).symm, by simp, fun _ => rfl⟩
    | some sub =>
      obtain ⟨e, he, hbuf, hsub⟩ := getElem?_of_findIdx? hfind
      have hnull : d.dict ≠ none := by
        intro hnull
        rw [Dict.buf, hnull] at hbuf
        simp at hbuf
      simp only [hbuf]
      refine ⟨_, rfl, ⟨?_, h.used_le, h.pow ∘ fun _ => hnull, fun _ => h.room hnull⟩, ?_, ?_, ?_⟩
      · simpa [Dict.buf] using h.length
      · rw [changeFirst_eq_set hfind he, entries_some, List.take_set, entries]
      · intro i hi
        obtain rfl : i = sub := by simpa using hi
        exact hsub.trans_le h.used_le
      · intro hno
        rcases List.findIdx?_eq_some_iff_getElem.mp hfind with ⟨hlt, hmatch, -⟩
        rw [hno _ (List.getElem_mem hlt)] at hmatch
        exact absurd hmatch (by simp)

/-- **Cleaning** leaves a new dictionary, and frees what the entries own. -/
theorem dictClean_spec (h : Shape d) :
    ∃ r, dictClean d = some r ∧ r.d = dictNew ∧ r.stored = [] ∧
      r.freed = (entries d).flatMap fun e => e.value.owned := by
  by_cases hnull : d.n_elems = 0 ∧ d.dict = none
  · have hzero := (h.null hnull.2).2
    have hnew : d = dictNew := by
      cases d
      simp_all [dictNew]
    exact ⟨_, if_pos hnull, hnew, rfl, by rw [hnew]; rfl⟩
  · have hle : d.used_elems ≤ d.buf.length := h.used_le.trans_eq h.length.symm
    exact ⟨_, by rw [dictClean, if_neg hnull, if_pos hle], rfl, rfl, rfl⟩

end Change

/-! ## Keys -/

/-- A key matches the entries that were made from a key with the same first 32 bytes. -/
lemma matches_iff {key key' : CStr} {e : DictEntry} (he : e.key = strncpy dictKeyLen key') :
    Matches key e = true ↔ key.take dictKeyLen = key'.take dictKeyLen := by
  rw [Matches, decide_eq_true_eq, he, strncmp_strncpy_eq_zero_iff]

/-- A key of at most 31 bytes is the only one that finds its entry. -/
lemma matches_iff_of_short {key key' : CStr} {e : DictEntry} (he : e.key = strncpy dictKeyLen key')
    (h : strlen key' ≤ 31) : Matches key e = true ↔ key = key' := by
  have hlt : strlen key' < dictKeyLen := Nat.lt_succ_of_le h
  rw [matches_iff he, CStr.take_of_length_le hlt.le]
  constructor
  · intro heq
    -- `key` is not longer than what it was cut to
    have hlen : (key.take dictKeyLen).chars.length = key'.chars.length := by rw [heq]
    have hshort : key.chars.length ≤ dictKeyLen := by
      simp only [CStr.take, List.length_take] at hlen
      unfold strlen at hlt
      omega
    rwa [CStr.take_of_length_le hshort] at heq
  · rintro rfl
    exact CStr.take_of_length_le hlt.le

/-- The hash of an entry is that of its key. -/
lemma hash_key_mkEntry {key : CStr} (h : strlen key ≤ 31) (value : Value) :
    (mkEntry key value).hash_key = hashB79 key := by
  have hle : key.chars.length ≤ dictKeyLen := Nat.le_succ_of_le h
  rw [mkEntry, ofBuffer_strncpy, CStr.take_of_length_le hle]

end KanekFs.Dictionary
