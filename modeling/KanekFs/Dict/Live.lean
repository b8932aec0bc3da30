import KanekFs.Dict.Model

/-!
# A dictionary holds what was added

Runs in which every key that is added is short enough to be stored whole and is not in the
dictionary at that moment. `live` is the list of the pairs that such a run leaves, in the order in
which they were added.

* `call_ok`: one call, from any dictionary that holds a list of pairs.
* `dictionary_holds_live_pairs`: every run, and every call that follows it.
-/

namespace KanekFs.Dictionary

open Bytes CString Hash FirstMatch

/-! ## Definitions -/

/-- What a call does to the list of the pairs. -/
def live (l : List (CStr × Value)) : Op → List (CStr × Value)
  | .add _ key value => l ++ [(key, value)]
  | .remove key => l.filter fun kv => kv.1 ≠ key
  | .update key value => l.map fun kv => if kv.1 = key then (key, value) else kv
  | .clean => []

/-- A key that is added has at most 31 bytes and is absent, and there are less than 2^24
entries. -/
def Allowed (l : List (CStr × Value)) : Op → Prop
  | .add _ key _ => strlen key ≤ 31 ∧ key ∉ l.map Prod.fst ∧ l.length + 1 < 2 ^ 24
  | _ => True

/-- The entries in use are the pairs, in their order, with the hashes of the keys. -/
structure Holds (d : Dict) (l : List (CStr × Value)) : Prop where
  entries : entries d = l.map fun kv => ⟨hashB79 kv.1, strncpy dictKeyLen kv.1, kv.2⟩
  used : d.used_elems = l.length
  n_elems : d.buf.length = d.n_elems

/-- What the dictionary `d` answers to a call, with the pairs `l` in it. -/
structure Answers (d : Dict) (l : List (CStr × Value)) (a : Op) (r : Result) : Prop where
  holds : Holds r.d (live l a)
  /-- Every index that is stored to is inside the array. -/
  stored : ∀ i ∈ r.stored, i < r.d.n_elems
  /-- After adding there is room left. -/
  room : ∀ junk key value, a = .add junk key value → r.d.used_elems < r.d.n_elems
  /-- Nothing happens to an absent key. -/
  absent : ∀ key, (a = .remove key ∨ ∃ value, a = .update key value) → key ∉ l.map Prod.fst →
    r = ⟨-1, d, [], []⟩

instance : ∀ l a, Decidable (Allowed l a)
  | l, .add _ key _ =>
    inferInstanceAs (Decidable (strlen key ≤ 31 ∧ key ∉ l.map Prod.fst ∧ l.length + 1 < 2 ^ 24))
  | _, .remove _ => isTrue trivial
  | _, .update _ _ => isTrue trivial
  | _, .clean => isTrue trivial

/-- Every call of a run is made with a key that is allowed at that moment. -/
def AllowedRun : List (CStr × Value) → List Op → Prop :=
  Run.Along (fun l a => some (live l a)) Allowed

instance (l : List (CStr × Value)) (t : List Op) : Decidable (AllowedRun l t) :=
  inferInstanceAs (Decidable (Run.Along _ _ l t))

/-! ## One call -/

/-- What a run keeps. -/
structure Live (d : Dict) (l : List (CStr × Value)) : Prop where
  shape : Shape d
  entries : entries d = l.map fun kv => mkEntry kv.1 kv.2
  short : ∀ kv ∈ l, strlen kv.1 ≤ 31
  nodup : (l.map Prod.fst).Nodup
  length : l.length < 2 ^ 24

section Call

variable {d : Dict} {l : List (CStr × Value)} {a : Op} {key : CStr} {value : Value}

lemma live_dictNew : Live dictNew [] :=
  ⟨shape_dictNew, rfl, by simp, List.nodup_nil, by decide⟩

lemma Live.used (h : Live d l) : d.used_elems = l.length := by
  rw [← h.shape.length_entries, h.entries, List.length_map]

lemma Live.holds (h : Live d l) : Holds d l := by
  refine ⟨?_, h.used, h.shape.length⟩
  rw [h.entries]
  apply List.map_congr_left
  intro kv hkv
  rw [← hash_key_mkEntry (h.short kv hkv) kv.2]
  rfl

/-- An entry matches a key if and only if it is the pair with this key. -/
lemma Live.matches_iff (h : Live d l) (key : CStr) :
    ∀ kv ∈ l, Matches key (mkEntry kv.1 kv.2) = decide (kv.1 = key) := by
  intro kv hkv
  rw [Bool.eq_iff_iff, matches_iff_of_short rfl (h.short kv hkv), decide_eq_true_eq, eq_comm]

/-- No entry matches an absent key. -/
lemma Live.no_match (h : Live d l) (habsent : key ∉ l.map Prod.fst) :
    ∀ e ∈ Dictionary.entries d, Matches key e = false := by
  rw [h.entries, List.forall_mem_map]
  intro kv hkv
  rw [h.matches_iff key kv hkv, decide_eq_false_iff_not]
  intro heq
  exact habsent (heq ▸ List.mem_map_of_mem hkv)

/-- Removing the first match removes the pair. -/
lemma Live.eraseP_entries (h : Live d l) (key : CStr) :
    (Dictionary.entries d).eraseP (Matches key) =
      (l.filter fun kv => kv.1 ≠ key).map fun kv => mkEntry kv.1 kv.2 := by
  rw [h.entries, eraseP_map_of (h.matches_iff key), eraseP_eq_filter h.nodup]

/-- Changing the first match changes the pair. -/
lemma Live.changeFirst_entries (h : Live d l) (key : CStr) (value : Value) :
    changeFirst (Matches key) (fun e => { e with value := value }) (Dictionary.entries d) =
      (l.map fun kv => if kv.1 = key then (key, value) else kv).map
        fun kv => mkEntry kv.1 kv.2 := by
  have hkey : l.map (fun kv => if kv.1 = key then (kv.1, value) else kv) =
      l.map fun kv => if kv.1 = key then (key, value) else kv := by
    apply List.map_congr_left
    intro kv _
    split
    · next heq => rw [heq]
    · rfl
  rw [h.entries, changeFirst_map_of (u := fun kv => (kv.1, value)) (h.matches_iff key)
    (fun _ _ => rfl), changeFirst_eq_map h.nodup, hkey]

lemma fst_update (l : List (CStr × Value)) (key : CStr) (value : Value) :
    (l.map fun kv => if kv.1 = key then (key, value) else kv).map Prod.fst = l.map Prod.fst := by
  rw [List.map_map]
  apply List.map_congr_left
  intro kv _
  simp only [Function.comp_apply]
  split
  · next heq => exact heq.symm
  · rfl

lemma Live.add {d' : Dict} {junk : DictEntry} (h : Live d l) (ha : Allowed l (.add junk key value))
    (hshape : Shape d')
    (hentries : Dictionary.entries d' = Dictionary.entries d ++ [mkEntry key value]) :
    Live d' (live l (.add junk key value)) := by
  rcases ha with ⟨hshort, hnew, hlen⟩
  constructor
  · exact hshape
  · rw [hentries, h.entries, live, List.map_append]
    rfl
  · simp only [live, List.forall_mem_append, List.forall_mem_singleton]
    exact ⟨h.short, hshort⟩
  · -- the key is not there yet
    rw [live, List.map_append, List.nodup_append]
    refine ⟨h.nodup, List.nodup_singleton _, ?_⟩
    intro k hk k' hk' heq
    obtain rfl : k' = key := by simpa using hk'
    exact hnew (heq ▸ hk)
  · rw [live, List.length_append]
    exact hlen

lemma Live.remove {d' : Dict} (h : Live d l) (hshape : Shape d')
    (hentries : Dictionary.entries d' = (Dictionary.entries d).eraseP (Matches key)) :
    Live d' (live l (.remove key)) where
  shape := hshape
  entries := hentries.trans (h.eraseP_entries key)
  short kv hkv := h.short kv (List.mem_of_mem_filter hkv)
  nodup := h.nodup.sublist (List.filter_sublist.map _)
  length := (List.length_filter_le _ _).trans_lt h.length

lemma Live.update {d' : Dict} (h : Live d l) (hshape : Shape d')
    (hentries : Dictionary.entries d' =
      changeFirst (Matches key) (fun e => { e with value := value }) (Dictionary.entries d)) :
    Live d' (live l (.update key value)) where
  shape := hshape
  entries := hentries.trans (h.changeFirst_entries key value)
  short kv hkv := by
    -- the keys are those before the update
    have hmem : kv.1 ∈ l.map Prod.fst := fst_update l key value ▸ List.mem_map_of_mem hkv
    rcases List.mem_map.mp hmem with ⟨kv', hkv', heq⟩
    exact heq ▸ h.short kv' hkv'
  nodup := (fst_update l key value).symm ▸ h.nodup
  length := (List.length_map _).trans_lt h.length

/-- **One call** on a dictionary that holds the pairs `l`. -/
theorem call_ok (h : Live d l) (ha : Allowed l a) :
    ∃ r, call d a = some r ∧ Live r.d (live l a) ∧ Answers d l a r := by
  cases a with
  | add junk key value =>
    have hlen : l.length + 1 < 2 ^ 24 := ha.2.2
    have hmax : maxElems = 2 ^ 25 := rfl
    have hused := h.used
    obtain ⟨r, hr, hshape, hentries, hstored⟩ :=
      dictAddEntry_spec h.shape (by omega) junk key value
    have hlive := h.add ha hshape hentries
    refine ⟨r, hr, hlive, hlive.holds, hstored, ?_, ?_⟩
    · -- the array is never filled up
      intro _ _ _ _
      have hcount : r.d.used_elems = l.length + 1 := by rw [hlive.used, live]; simp
      by_cases hlast : r.d.n_elems < maxElems
      · have hnull : r.d.dict ≠ none := by
          intro hnull
          have hzero := (hshape.null hnull).2
          omega
        exact hshape.room hnull hlast
      · omega
    · rintro _ (heq | ⟨_, heq⟩) <;> cases heq
  | remove key =>
    obtain ⟨r, hr, hshape, hentries, hstored, habsent⟩ := dictRemoveEntry_spec h.shape key
    have hlive := h.remove hshape hentries
    refine ⟨r, hr, hlive, hlive.holds, hstored, ?_, ?_⟩
    · intro _ _ _ heq
      cases heq
    · rintro key' (heq | ⟨_, heq⟩) hnew <;> cases heq
      exact habsent (h.no_match hnew)
  | update key value =>
    obtain ⟨r, hr, hshape, hentries, hstored, habsent⟩ := dictUpdateEntry_spec h.shape key value
    have hlive := h.update hshape hentries
    refine ⟨r, hr, hlive, hlive.holds, hstored, ?_, ?_⟩
    · intro _ _ _ heq
      cases heq
    · rintro key' (heq | ⟨_, heq⟩) hnew <;> cases heq
      exact habsent (h.no_match hnew)
  | clean =>
    obtain ⟨r, hr, hnew, hstored, -⟩ := dictClean_spec h.shape
    have hlive : Live r.d (live l .clean) := hnew ▸ live_dictNew
    refine ⟨r, hr, hlive, hlive.holds, by simp [hstored], ?_, ?_⟩
    · intro _ _ _ heq
      cases heq
    · rintro _ (heq | ⟨_, heq⟩) <;> cases heq

end Call

/-! ## Runs -/

/-- By induction over the calls. -/
lemma live_run {t : List Op} {d : Dict} {l : List (CStr × Value)} (h : Live d l)
    (ht : AllowedRun l t) : ∃ d', Run.run step d t = some d' ∧ Live d' (t.foldl live l) := by
  induction t generalizing d l with
  | nil => exact ⟨d, rfl, h⟩
  | cons a t ih =>
    obtain ⟨ha, hrest⟩ := ht _ rfl
    obtain ⟨r, hr, hlive, -⟩ := call_ok h ha
    obtain ⟨d', hrun, hd'⟩ := ih hlive hrest
    refine ⟨d', ?_, hd'⟩
    rw [Run.run_cons_eq_some]
    exact ⟨r.d, by rw [step, hr]; rfl, hrun⟩

/-- **No entry is lost or written out of range**: a run from `dict_new` has a result, the entries in
use are the pairs that were added and not removed, and any further call answers as it should. -/
theorem dictionary_holds_live_pairs {t : List Op} (ht : AllowedRun [] t) :
    ∃ d, Run.run step dictNew t = some d ∧ Holds d (t.foldl live []) ∧
      ∀ a, Allowed (t.foldl live []) a →
        ∃ r, call d a = some r ∧ Answers d (t.foldl live []) a r := by
  obtain ⟨d, hrun, hlive⟩ := live_run live_dictNew ht
  refine ⟨d, hrun, hlive.holds, ?_⟩
  intro a ha
  obtain ⟨r, hr, -, hanswers⟩ := call_ok hlive ha
  exact ⟨r, hr, hanswers⟩

/-- The calls of the test program, with one more pair: `a` and `b` are added, `a` is removed, `b`
is changed and `c` is added. -/
def exampleRun : List Op :=
  [.add .zero (ofChars "a") ⟨1, 0, 10⟩, .add .zero (ofChars "b") ⟨1, 0, 20⟩,
   .remove (ofChars "a"), .update (ofChars "b") ⟨1, 0, 21⟩, .add .zero (ofChars "c") ⟨1, 0, 30⟩]

theorem dictionary_holds_example :
    ∃ d, Run.run step dictNew exampleRun = some d ∧ Holds d (exampleRun.foldl live []) ∧
      ∀ a, Allowed (exampleRun.foldl live []) a →
        ∃ r, call d a = some r ∧ Answers d (exampleRun.foldl live []) a r :=
  dictionary_holds_live_pairs (by decide)

end KanekFs.Dictionary
