import KanekFs.Lib.CString
import KanekFs.Lib.Ring
import KanekFs.Lib.Word

/-!
# The allocation list in memory

`gc_node_t` and the list macros of `list.h` over a memory of nodes. An access through a pointer to
anything else than a node has no result. `links` reads the ring pointers off a memory.

* `isRing_listAdd` and `isRing_listDel`: adding behind the head and taking a node out succeed, keep
  the ring and change nothing but the pointers.
* `listForEachSafe_eq_foldlM`: a safe walk over a ring runs its body on every node once, in order,
  also when the body frees the node it is at.
-/

namespace KanekFs.Gc

open Bytes Ring

/-- `gc_node_t`; `data` is the flexible array behind the header. -/
structure Node where
  list : Link ℕ
  size : ℕ
  mark : ℕ
  d_str : List Byte
  data : List Byte

/-- The size of the header: two pointers, two 32-bit words and the trace buffer. -/
def sizeofNode : ℕ := 72

def MAX_DBG_STR_LEN : ℕ := 48

/-- The nodes in memory, by their addresses. -/
abbrev Memory := ℕ → Option Node

namespace Memory

def next (m : Memory) (a : ℕ) : Option ℕ := (m a).map fun n => n.list.next

def prev (m : Memory) (a : ℕ) : Option ℕ := (m a).map fun n => n.list.prev

/-- A store to the fields of the node at `a`. -/
def modify (m : Memory) (a : ℕ) (f : Node → Node) : Option Memory :=
  (m a).map fun n => Function.update m a (some (f n))

def setNext (m : Memory) (a v : ℕ) : Option Memory :=
  m.modify a fun n => { n with list.next := v }

def setPrev (m : Memory) (a v : ℕ) : Option Memory :=
  m.modify a fun n => { n with list.prev := v }

def free (m : Memory) (a : ℕ) : Option Memory := (m a).map fun _ => Function.update m a none

/-- The ring pointers. -/
def links (m : Memory) : Links ℕ := fun a => (m a).map Node.list

end Memory

/-! ## `list.h` -/

/-- `INIT_LIST_HEAD` -/
def initListHead (ptr : ℕ) (m : Memory) : Option Memory := do
  let m ← m.setNext ptr ptr
  m.setPrev ptr ptr

def listAdd (new_entry head : ℕ) (m : Memory) : Option Memory := do
  let first ← m.next head
  let m ← m.setNext new_entry first
  let m ← m.setPrev new_entry head
  let first ← m.next head
  let m ← m.setPrev first new_entry
  m.setNext head new_entry

def listDel (entry : ℕ) (m : Memory) : Option Memory := do
  let next ← m.next entry
  let prev ← m.prev entry
  let m ← m.setPrev next prev
  let prev ← m.prev entry
  let next ← m.next entry
  m.setNext prev next

section ForEach

variable {σ : Type}

/-- The loop of `list_for_each_safe`, at `pos` with the next position read in advance. The state
of the body contains the memory. -/
def forEachSafe (mem : σ → Memory) (body : σ → ℕ → Option σ) (head : ℕ) :
    ℕ → σ → ℕ → ℕ → Option σ
  | 0, _, _, _ => none
  | fuel + 1, s, pos, n =>
    if pos = head then some s else do
      let s ← body s pos
      let next ← (mem s).next n
      forEachSafe mem body head fuel s n next

def listForEachSafe (mem : σ → Memory) (body : σ → ℕ → Option σ) (head fuel : ℕ) (s : σ) :
    Option σ := do
  let pos ← (mem s).next head
  let n ← (mem s).next pos
  forEachSafe mem body head fuel s pos n

end ForEach

/-! ## What the operations leave alone -/

/-- The size of a node, as recorded and in fact. -/
def Node.extent (n : Node) : ℕ × ℕ := (n.size, n.data.length)

/-- The same nodes, of the same sizes. -/
def SameExtents (m m' : Memory) : Prop :=
  ∀ a, (m' a).map Node.extent = (m a).map Node.extent

lemma SameExtents.trans {m m' m'' : Memory} (h : SameExtents m m') (h' : SameExtents m' m'') :
    SameExtents m m'' :=
  fun a => (h' a).trans (h a)

section Stores

variable {m m' : Memory} {a c v w : ℕ} {n n' : Node}

lemma next_links : m.links.next a = m.next a := Option.map_map ..

lemma prev_links : m.links.prev a = m.prev a := Option.map_map ..

lemma links_update :
    Memory.links (Function.update m a (some n)) = Function.update m.links a (some n.list) := by
  funext c
  by_cases hca : c = a
  · subst hca
    simp [Memory.links]
  · simp [Memory.links, hca]

lemma sameExtents_update (hn : m a = some n) (hextent : n'.extent = n.extent) :
    SameExtents m (Function.update m a (some n')) := by
  intro c
  by_cases hca : c = a
  · subst hca
    simp [hn, hextent]
  · simp [hca]

/-- A cell with a `next` pointer is a node. -/
lemma exists_of_next (h : m.links.next a = some w) : ∃ n, m a = some n ∧ n.list.next = w := by
  rw [next_links] at h
  exact Option.map_eq_some_iff.mp h

lemma exists_of_prev (h : m.links.prev a = some w) : ∃ n, m a = some n ∧ n.list.prev = w := by
  rw [prev_links] at h
  exact Option.map_eq_some_iff.mp h

lemma setNext_eq (h : m.links.next a = some w) : ∃ m', m.setNext a v = some m' ∧
    m'.links = m.links.setNext a v ∧ SameExtents m m' := by
  rcases exists_of_next h with ⟨n, hn, -⟩
  refine ⟨Function.update m a (some { n with list.next := v }), ?_, ?_,
    sameExtents_update hn rfl⟩
  · rw [Memory.setNext, Memory.modify, hn, Option.map_some]
  · rw [links_update, Links.setNext]
    simp [Memory.links, hn]

lemma setPrev_eq (h : m.links.prev a = some w) : ∃ m', m.setPrev a v = some m' ∧
    m'.links = m.links.setPrev a v ∧ SameExtents m m' := by
  rcases exists_of_prev h with ⟨n, hn, -⟩
  refine ⟨Function.update m a (some { n with list.prev := v }), ?_, ?_,
    sameExtents_update hn rfl⟩
  · rw [Memory.setPrev, Memory.modify, hn, Option.map_some]
  · rw [links_update, Links.setPrev]
    simp [Memory.links, hn]

end Stores

/-! ## Rings -/

section Lists

variable {m : Memory} {head new x : ℕ} {l l₁ l₂ : List ℕ} {n : Node}

lemma isRing_initListHead (hcell : m head = some n) : ∃ m', initListHead head m = some m' ∧
    IsRing m'.links head [] ∧ SameExtents m m' := by
  have hnext : m.links.next head = some n.list.next := by rw [next_links, Memory.next, hcell]; rfl
  have hprev : m.links.prev head = some n.list.prev := by rw [prev_links, Memory.prev, hcell]; rfl
  rcases setNext_eq (v := head) hnext with ⟨m₁, h₁, hl₁, he₁⟩
  have hprev₁ : m₁.links.prev head = some n.list.prev := by rw [hl₁, Links.prev_setNext, hprev]
  rcases setPrev_eq (v := head) hprev₁ with ⟨m₂, h₂, hl₂, he₂⟩
  refine ⟨m₂, by simp [initListHead, h₁, h₂], ?_, he₁.trans he₂⟩
  have hlink : m.links head = some n.list := by rw [Memory.links, hcell]; rfl
  rw [hl₂, hl₁]
  exact isRing_nil hlink

/-- `list_add` puts a node that is not on the list behind the head. -/
theorem isRing_listAdd (hr : IsRing m.links head l) (hnew : new ∉ head :: l)
    (hcell : m new = some n) : ∃ m', listAdd new head m = some m' ∧
      IsRing m'.links head (new :: l) ∧ SameExtents m m' := by
  have hne : head ≠ new := fun heq => hnew (by simp [heq])
  have hlink : m.links new = some n.list := by rw [Memory.links, hcell]; rfl
  have hfirst : m.links.next head = some (l.headD head) := hr.segment.next_eq
  have hfnew : l.headD head ≠ new := by
    rintro rfl
    cases l <;> simp at hnew
  have hback : m.links.prev (l.headD head) = some head := by
    cases l with
    | nil => exact hr.segment.prev
    | cons x l => exact hr.segment.1.prev
  rcases setNext_eq (v := l.headD head) (congrArg (Option.map Link.next) hlink) with
    ⟨m₁, h₁, hl₁, he₁⟩
  have hprev₁ : m₁.links.prev new = some n.list.prev := by
    rw [hl₁, Links.prev_setNext, Links.prev, hlink]
    rfl
  rcases setPrev_eq (v := head) hprev₁ with ⟨m₂, h₂, hl₂, he₂⟩
  -- the head is read again; it has not changed
  have hfirst₂ : m₂.links.next head = some (l.headD head) := by
    rw [hl₂, Links.next_setPrev, hl₁, Links.next_setNext_ne hne, hfirst]
  have hback₂ : m₂.links.prev (l.headD head) = some head := by
    rw [hl₂, Links.prev_setPrev_ne hfnew, hl₁, Links.prev_setNext, hback]
  rcases setPrev_eq (v := new) hback₂ with ⟨m₃, h₃, hl₃, he₃⟩
  have hfirst₃ : m₃.links.next head = some (l.headD head) := by
    rw [hl₃, Links.next_setPrev, hfirst₂]
  rcases setNext_eq (v := new) hfirst₃ with ⟨m₄, h₄, hl₄, he₄⟩
  have hring := hr.insert hnew hlink hfirst
  rw [next_links] at hfirst hfirst₂
  refine ⟨m₄, by simp only [listAdd, hfirst, h₁, h₂, hfirst₂, h₃, h₄, Option.bind_eq_bind,
    Option.bind_some], ?_,
    ((he₁.trans he₂).trans he₃).trans he₄⟩
  rw [hl₄, hl₃, hl₂, hl₁]
  exact hring

/-- `list_del` takes a node out of the list. -/
theorem isRing_listDel (hr : IsRing m.links head (l₁ ++ x :: l₂)) : ∃ m', listDel x m = some m' ∧
    IsRing m'.links head (l₁ ++ l₂) ∧ SameExtents m m' := by
  rcases segment_append.mp hr.segment with ⟨hleft, hright⟩
  have hnodup := hr.nodup
  simp only [List.nodup_cons, List.mem_append, List.mem_cons, not_or, List.nodup_append] at hnodup
  have hnext : m.links.next x = some (l₂.headD head) := hright.next_eq
  have hne : x ≠ l₂.headD head := by
    cases l₂ with
    | nil => exact Ne.symm hnodup.1.2.1
    | cons y l₂ => exact fun heq => hnodup.2.2.1.1 (by simp [heq])
  rcases hleft.exists_prev with ⟨p, hprev⟩
  have hback : ∃ w, m.links.prev (l₂.headD head) = some w := by
    cases l₂ with
    | nil => exact ⟨x, hright.prev⟩
    | cons y l₂ => exact ⟨x, hright.1.prev⟩
  rcases hback with ⟨w, hback⟩
  rcases setPrev_eq (v := p) hback with ⟨m₁, h₁, hl₁, he₁⟩
  -- the pointers of the node itself are read again; they have not changed
  have hprev₁ : m₁.links.prev x = some p := by rw [hl₁, Links.prev_setPrev_ne hne, hprev]
  have hnext₁ : m₁.links.next x = some (l₂.headD head) := by rw [hl₁, Links.next_setPrev, hnext]
  have hpnext : ∃ w, m₁.links.next p = some w := by
    rw [hl₁, Links.next_setPrev]
    exact hleft.exists_next (hleft.prev_mem hprev)
  rcases hpnext with ⟨w', hpnext⟩
  rcases setNext_eq (v := l₂.headD head) hpnext with ⟨m₂, h₂, hl₂, he₂⟩
  have hring := hr.unlink hnext hprev
  rw [next_links] at hnext hnext₁
  rw [prev_links] at hprev hprev₁
  refine ⟨m₂, by simp only [listDel, hnext, hprev, h₁, hprev₁, hnext₁, h₂, Option.bind_eq_bind,
    Option.bind_some], ?_, he₁.trans he₂⟩
  rw [hl₂, hl₁]
  exact hring

end Lists

/-! ## Walks -/

section Walks

variable {σ : Type} {mem : σ → Memory} {body : σ → ℕ → Option σ} {head fuel n : ℕ} {l : List ℕ}
  {s : σ}

/-- The body touches the ring pointers of the node it is at, and of no other. -/
def Local (mem : σ → Memory) (body : σ → ℕ → Option σ) : Prop :=
  ∀ s x s', body s x = some s' → ∀ c ≠ x, (mem s').links c = (mem s).links c

lemma forEachSafe_eq_foldlM (hbody : Local mem body) (hpath : Path (mem s).links l head)
    (hnodup : (head :: l).Nodup) (hfuel : l.length < fuel)
    (hn : (mem s).next (l.headD head) = some n) :
    forEachSafe mem body head fuel s (l.headD head) n = l.foldlM body s := by
  induction l generalizing s fuel n with
  | nil =>
    cases fuel with
    | zero => exact absurd hfuel (Nat.not_lt_zero _)
    | succ fuel => simp [forEachSafe]
  | cons x l ih =>
    cases fuel with
    | zero => exact absurd hfuel (Nat.not_lt_zero _)
    | succ fuel =>
      simp only [List.nodup_cons, List.mem_cons, not_or] at hnodup
      rw [List.headD_cons, forEachSafe, if_neg (Ne.symm hnodup.1.1), List.foldlM_cons]
      have hnext := hpath.1
      rw [next_links] at hnext
      obtain rfl : n = l.headD head := Option.some.inj (hn.symm.trans hnext)
      cases hbx : body s x with
      | none => rfl
      | some s' =>
        -- what is left of the walk does not depend on the node the body was at
        have hsame := hbody s x s' hbx
        have hpath' : Path (mem s').links l head := by
          refine hpath.2.congr (fun c hc => hsame c ?_) (hsame head hnodup.1.1)
          intro heq
          exact hnodup.2.1 (heq ▸ hc)
        have hnext' : ∃ w, (mem s').next (l.headD head) = some w := by
          rw [← next_links]
          cases l with
          | nil => exact hpath'
          | cons y l => exact ⟨_, hpath'.1⟩
        rcases hnext' with ⟨w, hw⟩
        simp only [Option.bind_eq_bind, Option.bind_some, hw]
        refine ih hpath' (List.nodup_cons.mpr ⟨hnodup.1.2, hnodup.2.2⟩) ?_ hw
        exact Nat.lt_of_succ_lt_succ hfuel

/-- The two pointers a walk starts from. -/
lemma exists_second {m : Memory} (hr : IsRing m.links head l) :
    ∃ w, m.next head = some (l.headD head) ∧ m.next (l.headD head) = some w := by
  simp only [← next_links]
  cases l with
  | nil => exact ⟨head, hr.segment.next, hr.segment.next⟩
  | cons x l => exact ⟨_, hr.segment.next_eq, hr.segment.2.next_eq⟩

/-- **A safe walk visits every node once, in order.** -/
theorem listForEachSafe_eq_foldlM (hbody : Local mem body) (hr : IsRing (mem s).links head l)
    (hfuel : l.length < fuel) :
    listForEachSafe mem body head fuel s = l.foldlM body s := by
  rcases exists_second hr with ⟨w, hfirst, hw⟩
  rw [listForEachSafe, hfirst]
  simp only [Option.bind_eq_bind, Option.bind_some, hw]
  exact forEachSafe_eq_foldlM hbody hr.path hr.nodup hfuel hw

end Walks

end KanekFs.Gc
