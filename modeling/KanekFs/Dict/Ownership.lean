import KanekFs.Dict.Model

/-!
# Who frees the values of a dictionary

A value that points to a string, a blob or an extent is the dictionary's from the call that stores
it on: `dict_update_entry` and `dict_clean` free it, `dict_remove_entry` does not.

* `Ledger` collects the pointers of a run: those that were taken over, those that were given to
  `free`, and those that a removal dropped.
* `call_balanced`: the account of one call. `pointers_accounted`: every run.
-/

namespace KanekFs.Dictionary

open CString FirstMatch Run

/-! ## Definitions -/

/-- The pointers of the entries in use. -/
def held (d : Dict) : List (BitVec 64) := (entries d).flatMap fun e => e.value.owned

/-- What a call takes over: the value that it stored, if it returned 0. -/
def taken (a : Op) (r : Result) : List (BitVec 64) :=
  match a with
  | .add _ _ value | .update _ value => if r.rc = 0 then value.owned else []
  | .remove _ | .clean => []

/-- What a call drops: the value of the entry that is taken out. -/
def dropped (d : Dict) : Op → List (BitVec 64)
  | .remove key => ((entries d).find? (Matches key)).elim [] fun e => e.value.owned
  | .add _ _ _ | .update _ _ | .clean => []

structure Ledger where
  taken : List (BitVec 64)
  freed : List (BitVec 64)
  dropped : List (BitVec 64)

/-- One call, and what it adds to the ledger. -/
def ledgerStep (s : Dict × Ledger) (a : Op) : Option (Dict × Ledger) :=
  (call s.1 a).map fun r =>
    (r.d, ⟨s.2.taken ++ taken a r, s.2.freed ++ r.freed, s.2.dropped ++ dropped s.1 a⟩)

/-- Every pointer that was taken over was freed, is held, or was dropped, as often as it was taken
over. -/
def Balanced (s : Dict × Ledger) : Prop :=
  ∀ p, s.2.taken.count p = s.2.freed.count p + (held s.1).count p + s.2.dropped.count p

/-! ## Lists searched by first match -/

section Count

variable {α β : Type*} [BEq β] {p : α → Bool} {g : α → List β} {l : List α} {x : β}

lemma count_eraseP : (l.flatMap g).count x =
    ((l.eraseP p).flatMap g).count x + ((l.find? p).elim [] g).count x := by
  induction l with
  | nil => simp
  | cons a l ih =>
    by_cases ha : p a = true
    · simp [ha, Nat.add_comm]
    · rw [List.eraseP_cons_of_neg ha, List.find?_cons_of_neg ha, List.flatMap_cons,
        List.flatMap_cons, List.count_append, List.count_append, ih, Nat.add_assoc]

lemma count_changeFirst {f : α → α} :
    ((changeFirst p f l).flatMap g).count x + ((l.find? p).elim [] g).count x =
      (l.flatMap g).count x + ((l.find? p).elim [] fun a => g (f a)).count x := by
  induction l with
  | nil => simp [changeFirst]
  | cons a l ih =>
    by_cases ha : p a = true
    · simp only [changeFirst, ha, if_true, List.find?_cons_of_pos, List.flatMap_cons,
        List.count_append, Option.elim_some]
      omega
    · rw [changeFirst, if_neg ha, List.find?_cons_of_neg ha, List.flatMap_cons, List.flatMap_cons,
        List.count_append, List.count_append]
      omega

end Count

/-! ## Calls -/

section Call

variable {d : Dict} {r : Result} {key : CStr} {value : Value} {junk : DictEntry} {a : Op}

lemma dictAddEntry_freed (h : dictAddEntry junk d key value = some r) :
    r.rc = 0 ∧ r.freed = [] := by
  by_cases hfits : (reserve junk d).used_elems < (reserve junk d).buf.length
  · rw [show dictAddEntry junk d key value = some _ from if_pos hfits] at h
    obtain rfl := Option.some.inj h
    exact ⟨rfl, rfl⟩
  · rw [show dictAddEntry junk d key value = none from if_neg hfits] at h
    simp at h

lemma dictRemoveEntry_freed (h : dictRemoveEntry d key = some r) : r.freed = [] := by
  unfold dictRemoveEntry at h
  split_ifs at h
  · obtain rfl := Option.some.inj h
    rfl
  · cases hfind : dictSearchEntry d key with
    | none => simp [hfind] at h
    | some o =>
      cases o with
      | none =>
        rw [hfind] at h
        obtain rfl := Option.some.inj h
        rfl
      | some sub =>
        rw [hfind] at h
        rcases Option.map_eq_some_iff.mp h with ⟨buf, -, rfl⟩
        rfl

/-- `dict_update_entry` frees the value that it replaces. -/
lemma dictUpdateEntry_freed (hshape : Shape d) (h : dictUpdateEntry d key value = some r) :
    taken (.update key value) r =
        ((entries d).find? (Matches key)).elim [] (fun _ => value.owned) ∧
      r.freed = ((entries d).find? (Matches key)).elim [] fun e => e.value.owned := by
  rw [List.find?_eq_bind_findIdx?_getElem?]
  by_cases hzero : d.used_elems = 0
  · have hnil : entries d = [] := by rw [entries, hzero, List.take_zero]
    rw [dictUpdateEntry, if_pos hzero] at h
    obtain rfl := Option.some.inj h
    rw [hnil]
    exact ⟨rfl, rfl⟩
  · rw [dictUpdateEntry, if_neg hzero, dictSearchEntry_eq hshape] at h
    cases hfind : (entries d).findIdx? (Matches key) with
    | none =>
      rw [hfind] at h
      obtain rfl := Option.some.inj h
      exact ⟨rfl, rfl⟩
    | some sub =>
      rcases getElem?_of_findIdx? hfind with ⟨e, he, hbuf, -⟩
      rw [hfind] at h
      simp only [hbuf] at h
      obtain rfl := Option.some.inj h
      rw [Option.bind_some, he]
      exact ⟨rfl, rfl⟩

/-- **The account of one call.** -/
lemma call_balanced (hshape : Shape d) (hr : call d a = some r) :
    Shape r.d ∧ ∀ p, (held d).count p + (taken a r).count p =
      r.freed.count p + (held r.d).count p + (dropped d a).count p := by
  cases a with
  | add junk key value =>
    by_cases hused : d.used_elems < maxElems
    · rcases dictAddEntry_spec hshape hused junk key value with ⟨r', hr', hshape', hentries, -⟩
      obtain rfl : r' = r := Option.some.inj (hr'.symm.trans hr)
      rcases dictAddEntry_freed hr with ⟨hrc, hfreed⟩
      refine ⟨hshape', fun p => ?_⟩
      simp only [held, hentries, taken, hrc, if_true, hfreed, dropped, List.flatMap_append,
        List.count_append, List.count_nil]
      simp [mkEntry]
    · rw [call, dictAddEntry_eq_none hshape (not_lt.mp hused)] at hr
      simp at hr
  | remove key =>
    rcases dictRemoveEntry_spec hshape key with ⟨r', hr', hshape', hentries, -⟩
    obtain rfl : r' = r := Option.some.inj (hr'.symm.trans hr)
    refine ⟨hshape', fun p => ?_⟩
    rw [dictRemoveEntry_freed hr, held, held, hentries, dropped, taken,
      count_eraseP (p := Matches key)]
    simp
  | update key value =>
    rcases dictUpdateEntry_spec hshape key value with ⟨r', hr', hshape', hentries, -⟩
    obtain rfl : r' = r := Option.some.inj (hr'.symm.trans hr)
    rcases dictUpdateEntry_freed hshape hr with ⟨htaken, hfreed⟩
    refine ⟨hshape', fun p => ?_⟩
    rw [htaken, hfreed, held, held, hentries, dropped, List.count_nil]
    have hcount := count_changeFirst (p := Matches key)
      (g := fun e : DictEntry => e.value.owned) (f := fun e => { e with value := value })
      (l := entries d) (x := p)
    dsimp only at hcount ⊢
    omega
  | clean =>
    rcases dictClean_spec hshape with ⟨r', hr', hnew, -, hfreed⟩
    obtain rfl : r' = r := Option.some.inj (hr'.symm.trans hr)
    refine ⟨hnew ▸ shape_dictNew, fun p => ?_⟩
    rw [hfreed, hnew, held, held, entries_dictNew]
    simp [taken, dropped]

end Call

/-! ## Runs -/

/-- **Every pointer is accounted for**, in every run: what the dictionary took over it has freed, or
it holds it, or a removal dropped it. If the callers never hand over a pointer twice, no pointer is
freed twice and none that is held was freed. -/
theorem pointers_accounted (t : List Op) :
    Throughout ledgerStep (fun s => Balanced s ∧ (s.2.taken.Nodup →
      s.2.freed.Nodup ∧ (held s.1).Nodup ∧ s.2.freed.Disjoint (held s.1)))
      (dictNew, ⟨[], [], []⟩) t := by
  have hstep : ∀ s a s', ledgerStep s a = some s' → True → Shape s.1 ∧ Balanced s →
      Shape s'.1 ∧ Balanced s' := by
    rintro ⟨d, l⟩ a s' hstep - ⟨hshape, hbalanced⟩
    rcases Option.map_eq_some_iff.mp hstep with ⟨r, hr, rfl⟩
    rcases call_balanced hshape hr with ⟨hshape', hcall⟩
    refine ⟨hshape', fun p => ?_⟩
    have hbefore := hbalanced p
    have hnow := hcall p
    simp only [List.count_append] at hbefore hnow ⊢
    omega
  have hstart : Shape dictNew ∧ Balanced (dictNew, ⟨[], [], []⟩) :=
    ⟨shape_dictNew, fun p => by simp [held]⟩
  refine (run_invariant hstep hstart (along_of_forall fun _ _ _ => trivial)).mono ?_
  rintro ⟨d, l⟩ ⟨-, hbalanced⟩
  refine ⟨hbalanced, fun honce => ?_⟩
  have hle : ∀ p, l.freed.count p + (held d).count p ≤ 1 := by
    intro p
    have hcount := hbalanced p
    have hone := List.nodup_iff_count_le_one.mp honce p
    dsimp only at hcount hone
    omega
  refine ⟨List.nodup_iff_count_le_one.mpr fun p => (Nat.le_add_right _ _).trans (hle p),
    List.nodup_iff_count_le_one.mpr fun p => (Nat.le_add_left _ _).trans (hle p), ?_⟩
  intro p (hfreed : p ∈ l.freed) (hheld : p ∈ held d)
  have hpos := List.count_pos_iff.mpr hfreed
  have hpos' := List.count_pos_iff.mpr hheld
  have hone := hle p
  omega

end KanekFs.Dictionary
