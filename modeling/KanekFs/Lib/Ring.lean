import Mathlib.Data.List.Nodup
import Mathlib.Logic.Function.Basic
import Mathlib.Tactic.Lemma

/-!
# Doubly linked rings

Cells with two pointers each, reached from a head cell. `Segment h a l b` is the part of a ring that
leads from the cell `a` through the cells `l` to `b`, with `next` and `prev` inverse to each other
at every step, and `IsRing h head l` the whole ring without its head.

* `IsRing.insert` puts a cell behind the head, with four stores.
* `IsRing.unlink` takes a cell out, with two stores.
* `Path` is what a walk along `next` needs; `Path.congr` says that it does not read the cells it
  has left behind.
-/

namespace Ring

variable {α : Type*}

/-- The pointers of a cell. -/
structure Link (α : Type*) where
  next : α
  prev : α

/-- A memory of cells; `none` where there is no cell. -/
abbrev Links (α : Type*) := α → Option (Link α)

namespace Links

def next (h : Links α) (a : α) : Option α := (h a).map Link.next

def prev (h : Links α) (a : α) : Option α := (h a).map Link.prev

variable [DecidableEq α]

/-- A store to the `next` pointer of `a`. -/
def setNext (h : Links α) (a v : α) : Links α :=
  Function.update h a ((h a).map fun l => { l with next := v })

/-- A store to the `prev` pointer of `a`. -/
def setPrev (h : Links α) (a v : α) : Links α :=
  Function.update h a ((h a).map fun l => { l with prev := v })

variable {h : Links α} {a c v w : α}

lemma next_setNext_self (ha : h.next a = some w) : (h.setNext a v).next a = some v := by
  rcases Option.map_eq_some_iff.mp ha with ⟨l, hl, -⟩
  simp [next, setNext, hl]

lemma prev_setPrev_self (ha : h.prev a = some w) : (h.setPrev a v).prev a = some v := by
  rcases Option.map_eq_some_iff.mp ha with ⟨l, hl, -⟩
  simp [prev, setPrev, hl]

lemma next_setNext_ne (hne : a ≠ c) : (h.setNext c v).next a = h.next a := by
  simp [next, setNext, hne]

lemma prev_setPrev_ne (hne : a ≠ c) : (h.setPrev c v).prev a = h.prev a := by
  simp [prev, setPrev, hne]

@[simp] lemma prev_setNext : (h.setNext c v).prev a = h.prev a := by
  by_cases hac : a = c
  · subst hac
    simp only [prev, setNext, Function.update_self, Option.map_map]
    rfl
  · simp [prev, setNext, hac]

@[simp] lemma next_setPrev : (h.setPrev c v).next a = h.next a := by
  by_cases hac : a = c
  · subst hac
    simp only [next, setPrev, Function.update_self, Option.map_map]
    rfl
  · simp [next, setPrev, hac]

end Links

open Links

/-- `b` follows `a`, and knows it. -/
structure Joined (h : Links α) (a b : α) : Prop where
  next : h.next a = some b
  prev : h.prev b = some a

/-- From `a` through the cells `l` to `b`. -/
def Segment (h : Links α) : α → List α → α → Prop
  | a, [], b => Joined h a b
  | a, x :: l, b => Joined h a x ∧ Segment h x l b

/-- The cells `l` form a ring with `head`. -/
structure IsRing (h : Links α) (head : α) (l : List α) : Prop where
  nodup : (head :: l).Nodup
  segment : Segment h head l head

section Segments

variable {h : Links α} {a b c v x n p : α} {l l₁ l₂ : List α}

lemma segment_append : Segment h a (l₁ ++ x :: l₂) b ↔ Segment h a l₁ x ∧ Segment h x l₂ b := by
  induction l₁ generalizing a with
  | nil => rfl
  | cons y l₁ ih => rw [List.cons_append, Segment, Segment, ih, and_assoc]

/-- The cell before the end of a segment is one of its cells, or its start. -/
lemma Segment.prev_mem (hs : Segment h a l x) (hp : h.prev x = some p) : p ∈ a :: l := by
  induction l generalizing a with
  | nil =>
    obtain rfl : a = p := Option.some.inj (Joined.prev hs |>.symm.trans hp)
    exact List.mem_singleton_self a
  | cons y l ih => exact List.mem_cons_of_mem a (ih hs.2)

lemma Segment.exists_prev (hs : Segment h a l x) : ∃ p, h.prev x = some p := by
  induction l generalizing a with
  | nil => exact ⟨a, Joined.prev hs⟩
  | cons y l ih => exact ih hs.2

lemma Segment.exists_next (hs : Segment h a l b) (hx : x ∈ a :: l) : ∃ n, h.next x = some n := by
  induction l generalizing a with
  | nil =>
    obtain rfl : x = a := List.mem_singleton.mp hx
    exact ⟨b, Joined.next hs⟩
  | cons y l ih =>
    rcases List.mem_cons.mp hx with rfl | hx
    · exact ⟨y, hs.1.next⟩
    · exact ih hs.2 hx

/-- The cell behind the start of a segment is its first one, or its end. -/
lemma Segment.next_eq (hs : Segment h a l b) : h.next a = some (l.headD b) := by
  cases l with
  | nil => exact hs.next
  | cons x l => exact hs.1.next

/-- The cell in front of the end of a segment. -/
lemma Segment.next_getLastD (hs : Segment h a l b) : h.next (l.getLastD a) = some b := by
  induction l generalizing a with
  | nil => exact Joined.next hs
  | cons x l ih =>
    rw [List.getLastD_cons]
    exact ih hs.2

/-- A segment reads only its cells and its ends. -/
lemma Segment.congr {h' : Links α} (hs : Segment h a l b) (ha : ∀ c ∈ a :: l, h' c = h c)
    (hb : h' b = h b) : Segment h' a l b := by
  induction l generalizing a with
  | nil =>
    constructor
    · rw [next, ha a (by simp)]
      exact Joined.next hs
    · rw [prev, hb]
      exact Joined.prev hs
  | cons x l ih =>
    rw [List.forall_mem_cons] at ha
    refine ⟨⟨?_, ?_⟩, ih hs.2 ha.2⟩
    · rw [next, ha.1]
      exact hs.1.next
    · rw [prev, ha.2 x (by simp)]
      exact hs.1.prev

lemma IsRing.congr {h' : Links α} {head : α} (hr : IsRing h head l)
    (hcells : ∀ c ∈ head :: l, h' c = h c) : IsRing h' head l :=
  ⟨hr.nodup, hr.segment.congr hcells (hcells head (by simp))⟩

variable [DecidableEq α]

lemma Joined.setNext (hj : Joined h a b) (hne : a ≠ c) : Joined (h.setNext c v) a b :=
  ⟨(next_setNext_ne hne).trans hj.next, prev_setNext.trans hj.prev⟩

lemma Joined.setPrev (hj : Joined h a b) (hne : b ≠ c) : Joined (h.setPrev c v) a b :=
  ⟨next_setPrev.trans hj.next, (prev_setPrev_ne hne).trans hj.prev⟩

/-- A store to the `next` pointer of a cell outside the segment, or of its end. -/
lemma Segment.setNext (hs : Segment h a l b) (hc : c ∉ a :: l) :
    Segment (h.setNext c v) a l b := by
  induction l generalizing a with
  | nil => exact Joined.setNext hs fun heq => hc (by simp [heq])
  | cons x l ih =>
    rw [List.mem_cons, not_or] at hc
    exact ⟨hs.1.setNext (Ne.symm hc.1), ih hs.2 hc.2⟩

/-- A store to the `prev` pointer of a cell outside the segment, or of its start. -/
lemma Segment.setPrev (hs : Segment h a l b) (hc : c ∉ l) (hb : c ≠ b) :
    Segment (h.setPrev c v) a l b := by
  induction l generalizing a with
  | nil => exact Joined.setPrev hs hb.symm
  | cons x l ih =>
    rw [List.mem_cons, not_or] at hc
    exact ⟨hs.1.setPrev (Ne.symm hc.1), ih hs.2 hc.2⟩

end Segments

/-! ## Rings -/

section Rings

variable [DecidableEq α] {h : Links α} {head a b x n p f new : α} {link : Link α}
  {l l₁ l₂ : List α}

/-- A cell that points to itself both ways. -/
lemma isRing_nil (hcell : h head = some link) :
    IsRing ((h.setNext head head).setPrev head head) head [] := by
  refine ⟨List.nodup_singleton head, ?_, ?_⟩
  · rw [next_setPrev]
    exact next_setNext_self (congrArg (Option.map Link.next) hcell)
  · refine prev_setPrev_self (w := link.prev) ?_
    rw [prev_setNext, prev, hcell]
    rfl

/-- **A new cell behind the head.** `f` is the cell that was first. -/
theorem IsRing.insert (hr : IsRing h head l) (hnew : new ∉ head :: l) (hcell : h new = some link)
    (hf : h.next head = some f) :
    IsRing ((((h.setNext new f).setPrev new head).setPrev f new).setNext head new) head
      (new :: l) := by
  have hne : new ≠ head := fun heq => hnew (by simp [heq])
  obtain rfl : l.headD head = f := Option.some.inj (hr.segment.next_eq.symm.trans hf)
  have hfnew : l.headD head ≠ new := by
    rintro rfl
    cases l <;> simp at hnew
  have hprev : h.prev (l.headD head) = some head := by
    cases l with
    | nil => exact hr.segment.prev
    | cons x l => exact hr.segment.1.prev
  have hhead : Joined ((((h.setNext new (l.headD head)).setPrev new head).setPrev (l.headD head)
      new).setNext head new) head new := by
    constructor
    · refine next_setNext_self (w := l.headD head) ?_
      rw [next_setPrev, next_setPrev, next_setNext_ne hne.symm, hf]
    · rw [prev_setNext, prev_setPrev_ne hfnew.symm]
      refine prev_setPrev_self (w := link.prev) ?_
      rw [prev_setNext, prev, hcell]
      rfl
  have hfirst : Joined ((((h.setNext new (l.headD head)).setPrev new head).setPrev (l.headD head)
      new).setNext head new) new (l.headD head) := by
    constructor
    · rw [next_setNext_ne hne, next_setPrev, next_setPrev]
      exact next_setNext_self (congrArg (Option.map Link.next) hcell)
    · rw [prev_setNext]
      refine prev_setPrev_self (w := head) ?_
      rw [prev_setPrev_ne hfnew, prev_setNext, hprev]
  refine ⟨List.nodup_cons.mpr ⟨?_, List.nodup_cons.mpr ⟨?_, (List.nodup_cons.mp hr.nodup).2⟩⟩,
    hhead, ?_⟩
  · rw [List.mem_cons, not_or]
    exact ⟨hne.symm, (List.nodup_cons.mp hr.nodup).1⟩
  · intro hmem
    exact hnew (List.mem_cons_of_mem head hmem)
  -- the rest of the ring is not touched
  cases l with
  | nil => exact hfirst
  | cons x l =>
    have hnodup := hr.nodup
    simp only [List.nodup_cons, List.mem_cons, not_or, List.headD_cons] at hnodup hnew ⊢
    refine ⟨hfirst, ?_⟩
    have hrest : Segment h x l head := hr.segment.2
    have h₁ := hrest.setNext (c := new) (v := x) (by simp [hnew])
    have h₂ := h₁.setPrev (c := new) (v := head) (by simp [hnew]) hne
    have h₃ := h₂.setPrev (c := x) (v := new) hnodup.2.1 (Ne.symm hnodup.1.1)
    exact h₃.setNext (by simp [hnodup])

/-- The two sides of a cell are joined. -/
lemma Segment.splice (hl : Segment h a l₁ x) (hr : Segment h x l₂ b) (hn : h.next x = some n)
    (hp : h.prev x = some p) (hnodup : (a :: (l₁ ++ l₂)).Nodup) (hb : b ∉ l₁ ++ l₂) :
    Segment ((h.setPrev n p).setNext p n) a (l₁ ++ l₂) b := by
  obtain rfl : l₂.headD b = n := Option.some.inj (hr.next_eq.symm.trans hn)
  induction l₁ generalizing a with
  | nil =>
    obtain rfl : a = p := Option.some.inj ((Joined.prev hl).symm.trans hp)
    have hjoin : Joined ((h.setPrev (l₂.headD b) a).setNext a (l₂.headD b)) a (l₂.headD b) := by
      have hlast : ∃ w, h.prev (l₂.headD b) = some w := by
        cases l₂ with
        | nil => exact ⟨x, Joined.prev hr⟩
        | cons y l₂ => exact ⟨x, hr.1.prev⟩
      rcases hlast with ⟨w, hw⟩
      constructor
      · refine next_setNext_self (w := x) ?_
        rw [next_setPrev]
        exact Joined.next hl
      · rw [prev_setNext]
        exact prev_setPrev_self hw
    cases l₂ with
    | nil => exact hjoin
    | cons y l₂ =>
      simp only [List.nil_append, List.nodup_cons, List.mem_cons, not_or] at hnodup hb
      refine ⟨hjoin, ?_⟩
      have hrest := hr.2.setPrev (c := y) (v := a) hnodup.2.1 (Ne.symm hb.1)
      exact hrest.setNext (by simp [hnodup])
  | cons y l₁ ih =>
    have hmem := hl.2.prev_mem hp
    simp only [List.cons_append, List.nodup_cons, List.mem_cons, List.mem_append, not_or]
      at hnodup hb
    refine ⟨?_, ih hl.2 ?_ ?_⟩
    · -- neither store is to this pair of cells
      have hya : a ≠ p := by
        rintro rfl
        rcases List.mem_cons.mp hmem with heq | hin
        · exact hnodup.1.1 heq
        · exact hnodup.1.2.1 hin
      have hny : y ≠ l₂.headD b := by
        cases l₂ with
        | nil => exact Ne.symm hb.1
        | cons z l₂ =>
          rintro rfl
          exact hnodup.2.1.2 (by simp)
      exact (hl.1.setPrev hny).setNext hya
    · simp only [List.nodup_cons, List.mem_append, not_or]
      exact hnodup.2
    · simp only [List.mem_append, not_or]
      exact hb.2

/-- **A cell leaves the ring.** -/
theorem IsRing.unlink (hr : IsRing h head (l₁ ++ x :: l₂)) (hn : h.next x = some n)
    (hp : h.prev x = some p) : IsRing ((h.setPrev n p).setNext p n) head (l₁ ++ l₂) := by
  have hsub : (head :: (l₁ ++ l₂)).Sublist (head :: (l₁ ++ x :: l₂)) := by simp
  have hnodup := hr.nodup.sublist hsub
  rcases segment_append.mp hr.segment with ⟨hleft, hright⟩
  exact ⟨hnodup, hleft.splice hright hn hp hnodup (List.nodup_cons.mp hnodup).1⟩

end Rings

/-! ## Walks -/

/-- A walk along `next` from the first of the cells `l` goes through them and arrives at `b`. -/
def Path (h : Links α) : List α → α → Prop
  | [], b => ∃ v, h.next b = some v
  | x :: l, b => h.next x = some (l.headD b) ∧ Path h l b

section Walks

variable {h h' : Links α} {head a b : α} {l : List α}

lemma Segment.path (hs : Segment h a l b) (hb : ∃ v, h.next b = some v) : Path h l b := by
  induction l generalizing a with
  | nil => exact hb
  | cons x l ih => exact ⟨hs.2.next_eq, ih hs.2⟩

lemma IsRing.path (hr : IsRing h head l) : Path h l head :=
  hr.segment.path ⟨_, hr.segment.next_eq⟩

/-- A walk does not read the cells behind it. -/
lemma Path.congr (hp : Path h l b) (hl : ∀ c ∈ l, h' c = h c) (hb : h' b = h b) :
    Path h' l b := by
  induction l with
  | nil =>
    rcases hp with ⟨v, hv⟩
    exact ⟨v, by rw [next, hb]; exact hv⟩
  | cons x l ih =>
    rw [List.forall_mem_cons] at hl
    exact ⟨by rw [next, hl.1]; exact hp.1, ih hp.2 hl.2⟩

end Walks

end Ring
