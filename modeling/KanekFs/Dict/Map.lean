import KanekFs.Dict.Model

/-!
# Is a dictionary a map?

`dict_search_entry` against an abstract map from keys to values, over runs of calls with arbitrary
keys. The array is searched for the first match, a key is cut to 32 bytes when it is stored, and a
key can be added again.

`dictionary_is_map_iff`: a run agrees with the map if and only if every key that is added is stored
whole, a key that is added again gets the value it has, and a key that is removed was stored once
at most.
-/

namespace KanekFs.Dictionary

open Bytes CString FirstMatch

/-! ## Definitions -/

/-- What `dict_search_entry` finds: the value in the entry that it returns. -/
def dictGet (d : Dict) (key : CStr) : Option (Option Value) :=
  match dictSearchEntry d key with
  | none => none
  | some none => some none
  | some (some sub) => (d.buf[sub]?).map fun e => some e.value

/-- What a call does to the map. An update of an absent key is refused. -/
def mapStep (m : CStr → Option Value) : Op → CStr → Option Value
  | .add _ key value => Function.update m key (some value)
  | .remove key => Function.update m key none
  | .update key value => if (m key).isSome then Function.update m key (some value) else m
  | .clean => fun _ => none

/-- A dictionary and the map; `none` after a call that touched memory outside the array. -/
abbrev Sys := Option Dict × (CStr → Option Value)

/-- One call on both. -/
def sysStep (s : Sys) (a : Op) : Option Sys := some (s.1.bind fun d => step d a, mapStep s.2 a)

def start : Sys := (some dictNew, fun _ => none)

/-- Every search finds what the map has. -/
def Agrees (s : Sys) : Prop := ∃ d, s.1 = some d ∧ ∀ key, dictGet d key = some (s.2 key)

/-- The condition on a call, in the state before it. -/
def StepOk (s : Sys) : Op → Prop
  | .add _ key value => ∃ d, s.1 = some d ∧ d.used_elems < maxElems ∧ strlen key ≤ 31 ∧
      ∀ value', dictGet d key = some (some value') → value' = value
  | .remove key => ∃ d, s.1 = some d ∧ (entries d).countP (Matches key) ≤ 1
  | .update _ _ => True
  | .clean => True

/-! ## Searching -/

section Lookup

variable {d : Dict} {key : CStr}

/-- The value of the first entry that matches. -/
def lookup (es : List DictEntry) (key : CStr) : Option Value :=
  (es.find? (Matches key)).map DictEntry.value

lemma dictGet_eq (h : Shape d) (key : CStr) : dictGet d key = some (lookup (entries d) key) := by
  rw [dictGet, dictSearchEntry_eq h, lookup]
  cases hfind : (entries d).findIdx? (Matches key) with
  | none =>
    have hnone : (entries d).find? (Matches key) = none := by
      rw [List.find?_eq_none]
      simpa using List.findIdx?_eq_none_iff.mp hfind
    rw [hnone]
    rfl
  | some sub =>
    obtain ⟨e, he, hbuf, -⟩ := getElem?_of_findIdx? hfind
    rcases List.findIdx?_eq_some_iff_getElem.mp hfind with ⟨hlt, hmatch, hbefore⟩
    have hsome : (entries d).find? (Matches key) = some e := by
      rw [List.find?_eq_some_iff_getElem]
      obtain rfl : (entries d)[sub] = e := by simpa [hlt] using he
      exact ⟨hmatch, sub, hlt, rfl, by simpa using hbefore⟩
    rw [hsome]
    simp [hbuf]

lemma lookup_append (es : List DictEntry) (e : DictEntry) (key : CStr) :
    lookup (es ++ [e]) key =
      (lookup es key).or (if Matches key e then some e.value else none) := by
  rw [lookup, List.find?_append, lookup]
  cases es.find? (Matches key) with
  | some e' => rfl
  | none =>
    by_cases h : Matches key e = true <;> simp [h]

end Lookup

/-! ## Keys that are stored whole -/

/-- Every entry holds a key of at most 31 bytes. -/
def Whole (es : List DictEntry) : Prop :=
  ∀ e ∈ es, ∃ key, e.key = strncpy dictKeyLen key ∧ strlen key ≤ 31

/-- What every call keeps: an entry holds what was left of a key, and the map has no long keys. -/
structure Inv (s : Sys) : Prop where
  shape : ∀ d, s.1 = some d → Shape d
  keys : ∀ d, s.1 = some d → ∀ e ∈ entries d, ∃ key, e.key = strncpy dictKeyLen key
  bounded : ∃ n, ∀ key, n ≤ strlen key → s.2 key = none

section Keys

variable {es : List DictEntry} {d : Dict} {m : CStr → Option Value} {key key' : CStr}
  {value : Value}

/-- Different keys match different entries. -/
lemma Whole.disjoint (h : Whole es) (hne : key ≠ key') :
    ∀ e ∈ es, Matches key e = true → Matches key' e = false := by
  intro e he hkey
  obtain ⟨key₀, hkey₀, hshort⟩ := h e he
  rw [matches_iff_of_short hkey₀ hshort] at hkey
  rw [Bool.eq_false_iff, ne_eq, matches_iff_of_short hkey₀ hshort, ← hkey]
  exact fun heq => hne heq.symm

/-- A key with the same first 32 bytes as `key`, longer than `n`. -/
def lengthen (n : ℕ) (key : CStr) : CStr where
  chars := key.chars.take dictKeyLen ++ List.replicate n 1#8
  nul_free := by
    rw [List.mem_append]
    rintro (h | h)
    · exact key.nul_free (List.mem_of_mem_take h)
    · exact absurd (List.eq_of_mem_replicate h) (by decide)

lemma le_strlen_lengthen (n : ℕ) (key : CStr) : n ≤ strlen (lengthen n key) := by
  simp only [strlen, lengthen, List.length_append, List.length_replicate]
  omega

lemma take_lengthen (n : ℕ) (h : dictKeyLen ≤ strlen key) :
    (lengthen n key).take dictKeyLen = key.take dictKeyLen := by
  have hlen : (key.chars.take dictKeyLen).length = dictKeyLen := by
    rw [List.length_take]
    exact Nat.min_eq_left h
  apply CStr.ext
  exact List.take_left' hlen

lemma agrees_iff (hshape : Shape d) :
    Agrees (some d, m) ↔ ∀ key, lookup (entries d) key = m key := by
  constructor
  · rintro ⟨d', hd', hget⟩ key
    obtain rfl : d = d' := Option.some.inj hd'
    have hkey := hget key
    rwa [dictGet_eq hshape, Option.some.injEq] at hkey
  · intro h
    exact ⟨d, rfl, fun key => by rw [dictGet_eq hshape, h]⟩

/-- Where the searches agree with the map every key is stored whole: a key that was cut would be
found under all the longer keys too, and the map has only finitely many. -/
lemma whole_of_agrees (hinv : Inv (some d, m)) (h : Agrees (some d, m)) : Whole (entries d) := by
  rw [agrees_iff (hinv.shape d rfl)] at h
  intro e he
  obtain ⟨key, hkey⟩ := hinv.keys d rfl e he
  obtain ⟨n, hn⟩ := hinv.bounded
  refine ⟨key, hkey, ?_⟩
  by_contra hlong
  have hlen : dictKeyLen ≤ strlen key := by
    unfold dictKeyLen
    omega
  have hmatch : Matches (lengthen n key) e = true := (matches_iff hkey).mpr (take_lengthen n hlen)
  have hnone : (entries d).find? (Matches (lengthen n key)) = none := by
    have habsent : m (lengthen n key) = none := hn _ (le_strlen_lengthen n key)
    have hlookup := h (lengthen n key)
    rwa [habsent, lookup, Option.map_eq_none_iff] at hlookup
  exact List.find?_eq_none.mp hnone e he hmatch

/-! ## One call -/

lemma bounded_mapStep (h : ∃ n, ∀ key, n ≤ strlen key → m key = none) (a : Op) :
    ∃ n, ∀ key, n ≤ strlen key → mapStep m a key = none := by
  obtain ⟨n, hn⟩ := h
  cases a with
  | add junk key value =>
    refine ⟨max n (strlen key + 1), ?_⟩
    intro key' hlen
    have hne : key' ≠ key := by
      rintro rfl
      omega
    rw [mapStep, Function.update_of_ne hne]
    exact hn key' ((le_max_left _ _).trans hlen)
  | remove key =>
    refine ⟨n, ?_⟩
    intro key' hlen
    rw [mapStep, Function.update_apply]
    split
    · rfl
    · exact hn key' hlen
  | update key value =>
    refine ⟨n, ?_⟩
    intro key' hlen
    rw [mapStep]
    split
    · next hsome =>
      have hne : key' ≠ key := by
        rintro rfl
        rw [hn key' hlen] at hsome
        simp at hsome
      rw [Function.update_of_ne hne]
      exact hn key' hlen
    · exact hn key' hlen
  | clean => exact ⟨0, fun _ _ => rfl⟩

/-- The entries after a call, where it has a result. -/
inductive Outcome (d : Dict) : Op → Dict → Prop
  | add {junk key value d'} (hused : d.used_elems < maxElems) (hshape : Shape d')
      (hentries : entries d' = entries d ++ [mkEntry key value]) :
      Outcome d (.add junk key value) d'
  | remove {key d'} (hshape : Shape d')
      (hentries : entries d' = (entries d).eraseP (Matches key)) : Outcome d (.remove key) d'
  | update {key value d'} (hshape : Shape d')
      (hentries : entries d' =
        changeFirst (Matches key) (fun e => { e with value := value }) (entries d)) :
      Outcome d (.update key value) d'
  | clean : Outcome d .clean dictNew

/-- A call has no result only where the array is full at its largest capacity. -/
lemma step_outcome (hshape : Shape d) (a : Op) :
    (∃ d', step d a = some d' ∧ Outcome d a d') ∨
      step d a = none ∧ maxElems ≤ d.used_elems ∧ ∃ junk key value, a = .add junk key value := by
  cases a with
  | add junk key value =>
    by_cases hused : d.used_elems < maxElems
    · obtain ⟨r, hr, hshape', hentries, -⟩ :=
        dictAddEntry_spec hshape hused junk key value
      exact .inl ⟨r.d, by simp [step, call, hr], .add hused hshape' hentries⟩
    · have hnone := dictAddEntry_eq_none hshape (not_lt.mp hused) junk key value
      exact .inr ⟨by simp [step, call, hnone], not_lt.mp hused, junk, key, value, rfl⟩
  | remove key =>
    obtain ⟨r, hr, hshape', hentries, -⟩ := dictRemoveEntry_spec hshape key
    exact .inl ⟨r.d, by simp [step, call, hr], .remove hshape' hentries⟩
  | update key value =>
    obtain ⟨r, hr, hshape', hentries, -⟩ := dictUpdateEntry_spec hshape key value
    exact .inl ⟨r.d, by simp [step, call, hr], .update hshape' hentries⟩
  | clean =>
    obtain ⟨r, hr, hnew, -⟩ := dictClean_spec hshape
    exact .inl ⟨r.d, by simp [step, call, hr], hnew ▸ .clean⟩

lemma Outcome.shape {d' : Dict} {a : Op} (h : Outcome d a d') : Shape d' := by
  cases h with
  | add _ hshape _ => exact hshape
  | remove hshape _ => exact hshape
  | update hshape _ => exact hshape
  | clean => exact shape_dictNew

/-- An entry holds what was left of a key, after a call as before it. -/
lemma Outcome.keys {d' : Dict} {a : Op} (h : Outcome d a d')
    (hkeys : ∀ e ∈ entries d, ∃ key, e.key = strncpy dictKeyLen key) :
    ∀ e ∈ entries d', ∃ key, e.key = strncpy dictKeyLen key := by
  intro e he
  cases h with
  | @add _ key _ _ _ _ hentries =>
    rw [hentries, List.mem_append, List.mem_singleton] at he
    rcases he with he | rfl
    · exact hkeys e he
    · exact ⟨key, rfl⟩
  | remove _ hentries =>
    rw [hentries] at he
    exact hkeys e (List.mem_of_mem_eraseP he)
  | update _ hentries =>
    rw [hentries] at he
    rcases mem_changeFirst he with he | ⟨e', he', rfl⟩
    · exact hkeys e he
    · exact hkeys e' he'
  | clean => simp at he

end Keys

/-- Every call keeps the invariant. -/
lemma inv_step {s s' : Sys} {a : Op} (h : sysStep s a = some s') (hinv : Inv s) : Inv s' := by
  obtain ⟨o, m⟩ := s
  obtain rfl : s' = (o.bind fun d => step d a, mapStep m a) := (Option.some.inj h).symm
  have hbounded := bounded_mapStep hinv.bounded a
  cases o with
  | none => exact ⟨fun d hd => by simp at hd, fun d hd => by simp at hd, hbounded⟩
  | some d =>
    rcases step_outcome (hinv.shape d rfl) a with ⟨d', hd', hout⟩ | ⟨hnone, -⟩
    · have heq : ∀ d₁, (some d).bind (fun d => step d a) = some d₁ → d₁ = d' := by
        intro d₁ hd₁
        rw [Option.bind_some, hd'] at hd₁
        exact (Option.some.inj hd₁).symm
      exact ⟨fun d₁ hd₁ => heq d₁ hd₁ ▸ hout.shape,
        fun d₁ hd₁ => heq d₁ hd₁ ▸ hout.keys (hinv.keys d rfl), hbounded⟩
    · exact ⟨fun d₁ hd₁ => by simp [hnone] at hd₁, fun d₁ hd₁ => by simp [hnone] at hd₁, hbounded⟩

/-! ## When a call keeps the agreement -/

section Agreement

variable {d d' : Dict} {m : CStr → Option Value} {key : CStr} {value : Value}

/-- A key that was stored whole is not longer than 31 bytes. -/
lemma Whole.short_of_mem {es : List DictEntry} (h : Whole es) (value : Value)
    (hmem : mkEntry key value ∈ es) :
    strlen key ≤ 31 := by
  obtain ⟨key', hkey', hshort⟩ := h _ hmem
  have heq : key = key' := by
    rw [← matches_iff_of_short hkey' hshort]
    exact (matches_iff rfl).mpr rfl
  exact heq ▸ hshort

/-- Adding: the new entry is behind the others, so an entry with the same key hides it. -/
lemma agrees_add_iff {junk : DictEntry} (hinv : Inv (some d, m)) (h : Agrees (some d, m))
    (hinv' : Inv (some d', mapStep m (.add junk key value)))
    (hentries : entries d' = entries d ++ [mkEntry key value]) :
    Agrees (some d', mapStep m (.add junk key value)) ↔
      strlen key ≤ 31 ∧ ∀ value', dictGet d key = some (some value') → value' = value := by
  have hshape := hinv.shape d rfl
  have hlookup := (agrees_iff hshape).mp h
  have hself : Matches key (mkEntry key value) = true := (matches_iff rfl).mpr rfl
  rw [dictGet_eq hshape]
  constructor
  · intro h'
    have hwhole := whole_of_agrees hinv' h'
    rw [agrees_iff (hinv'.shape d' rfl)] at h'
    refine ⟨hwhole.short_of_mem value (by rw [hentries]; simp), ?_⟩
    intro value' hvalue'
    have hkey := h' key
    -- the search stops at the entry that was there
    rw [hentries, lookup_append, Option.some.inj hvalue', mapStep, Function.update_self] at hkey
    exact Option.some.inj hkey
  · rintro ⟨hshort, hsame⟩
    rw [agrees_iff (hinv'.shape d' rfl)]
    intro key'
    rw [hentries, lookup_append, mapStep]
    by_cases hkey : key' = key
    · subst hkey
      rw [Function.update_self, if_pos hself]
      cases hfound : lookup (entries d) key' with
      | none => rfl
      | some value' => rw [hsame value' (by rw [hfound]), Option.some_or]
    · have hno : Matches key' (mkEntry key value) = false := by
        rw [Bool.eq_false_iff, ne_eq, matches_iff_of_short rfl hshort]
        exact hkey
      rw [Function.update_of_ne hkey, hno, hlookup key']
      simp

/-- Removing: one match goes, the others stay. -/
lemma agrees_remove_iff (hinv : Inv (some d, m)) (h : Agrees (some d, m)) (hshape' : Shape d')
    (hentries : entries d' = (entries d).eraseP (Matches key)) :
    Agrees (some d', mapStep m (.remove key)) ↔ (entries d).countP (Matches key) ≤ 1 := by
  have hlookup := (agrees_iff (hinv.shape d rfl)).mp h
  have hwhole := whole_of_agrees hinv h
  rw [agrees_iff hshape', ← find?_eraseP_eq_none_iff]
  constructor
  · intro h'
    have hkey := h' key
    rwa [mapStep, Function.update_self, lookup, hentries, Option.map_eq_none_iff] at hkey
  · intro hnone key'
    rw [mapStep]
    by_cases hkey : key' = key
    · rw [hkey, Function.update_self, lookup, hentries, hnone]
      rfl
    · have hother := find?_eraseP_of_disjoint (hwhole.disjoint (Ne.symm hkey))
      rw [Function.update_of_ne hkey, lookup, hentries, hother, ← hlookup key', lookup]

/-- Updating the first match is what a search sees. -/
lemma agrees_update (hinv : Inv (some d, m)) (h : Agrees (some d, m)) (hshape' : Shape d')
    (hentries : entries d' =
      changeFirst (Matches key) (fun e => { e with value := value }) (entries d)) :
    Agrees (some d', mapStep m (.update key value)) := by
  have hlookup := (agrees_iff (hinv.shape d rfl)).mp h
  have hwhole := whole_of_agrees hinv h
  rw [agrees_iff hshape']
  intro key'
  by_cases hkey : key' = key
  · subst hkey
    have hfound := find?_changeFirst (p := Matches key') (f := fun e => { e with value := value })
      (l := entries d) (fun e _ => rfl)
    have hmap := hlookup key'
    rw [lookup] at hmap
    rw [lookup, hentries, hfound, mapStep]
    cases hfind : (entries d).find? (Matches key') with
    | none =>
      rw [hfind] at hmap
      rw [← hmap]
      simpa using hmap
    | some e =>
      rw [hfind] at hmap
      rw [← hmap]
      simp
  · have hother := find?_changeFirst_of_disjoint (f := fun e => { e with value := value })
      (hwhole.disjoint (Ne.symm hkey)) (fun e _ => rfl)
    have hmap : mapStep m (.update key value) key' = m key' := by
      rw [mapStep]
      split
      · exact Function.update_of_ne hkey _ _
      · rfl
    rw [lookup, hentries, hother, hmap, ← hlookup key', lookup]

end Agreement

/-- **One call** keeps the agreement exactly when it meets its condition. -/
lemma agrees_step_iff {s s' : Sys} {a : Op} (hs : sysStep s a = some s') (hinv : Inv s)
    (h : Agrees s) : Agrees s' ↔ StepOk s a := by
  have hinv' := inv_step hs hinv
  obtain ⟨o, m⟩ := s
  obtain ⟨d, hd, -⟩ := id h
  obtain rfl : o = some d := hd
  obtain rfl : s' = (step d a, mapStep m a) := (Option.some.inj hs).symm
  rcases step_outcome (hinv.shape d rfl) a with
    ⟨d', hd', hout⟩ | ⟨hnone, hfull, junk, key, value, rfl⟩
  · rw [hd'] at hinv' ⊢
    cases hout with
    | @add junk key value _ hused _ hentries =>
      rw [agrees_add_iff hinv h hinv' hentries]
      constructor
      · exact fun hok => ⟨d, rfl, hused, hok⟩
      · rintro ⟨d₁, hd₁, -, hok⟩
        exact Option.some.inj hd₁ ▸ hok
    | @remove key _ hshape' hentries =>
      rw [agrees_remove_iff hinv h hshape' hentries]
      constructor
      · exact fun hok => ⟨d, rfl, hok⟩
      · rintro ⟨d₁, hd₁, hok⟩
        exact Option.some.inj hd₁ ▸ hok
    | update hshape' hentries =>
      exact iff_of_true (agrees_update hinv h hshape' hentries) trivial
    | clean =>
      refine iff_of_true ?_ trivial
      rw [agrees_iff shape_dictNew]
      exact fun _ => rfl
  · -- the store behind the array: there is no dictionary any more
    rw [hnone]
    constructor
    · rintro ⟨d₁, hd₁, -⟩
      simp at hd₁
    · rintro ⟨d₁, hd₁, hused, -⟩
      rw [← Option.some.inj hd₁] at hused
      omega

lemma inv_start : Inv start := by
  refine ⟨fun d hd => ?_, fun d hd => ?_, ⟨0, fun _ _ => rfl⟩⟩
  · exact Option.some.inj hd ▸ shape_dictNew
  · rw [← Option.some.inj hd]
    simp

lemma agrees_start : Agrees start := by
  rw [start, agrees_iff shape_dictNew]
  exact fun _ => rfl

/-- **A dictionary is a map** throughout a run exactly when every call of the run meets its
condition: a key is added with at most 31 bytes, while there are less than `maxElems` entries, and
if it is found already, with the value that is found; and a key that is removed is stored once at
most. -/
theorem dictionary_is_map_iff (t : List Op) :
    Run.Throughout sysStep Agrees start t ↔ Run.Along sysStep StepOk start t :=
  Run.throughout_iff_along (fun _ _ _ hs hinv => inv_step hs hinv)
    (fun _ _ _ hs hinv h => agrees_step_iff hs hinv h) inv_start agrees_start

/-- A key added twice: the search finds the first value. -/
theorem second_add_hidden :
    ¬ ∀ t, Run.Throughout sysStep Agrees start t := by
  intro h
  have hall := h [.add .zero (ofChars "a") ⟨1, 0, 10⟩, .add .zero (ofChars "a") ⟨1, 0, 20⟩]
  obtain ⟨d, hd, hget⟩ := (hall.2 _ rfl).2 _ rfl
  have hfirst : dictGet d (ofChars "a") = some (some ⟨1, 0, 10⟩) := by
    rw [← Option.some.inj hd]
    decide +kernel
  have hsecond := (hfirst.symm.trans (hget (ofChars "a")))
  revert hsecond
  decide +kernel

end KanekFs.Dictionary
