import KanekFs.Gc.Model
import KanekFs.Lib.Room
import KanekFs.Lib.Run
import Mathlib.Algebra.Order.BigOperators.Group.List

/-!
# The allocation list is exact

`Alloc` is an allocation as its caller knows it, and `after` what a call does to the allocations
that are live, newest first. `Represents` relates them to the memory.

* `step_represents`: a call on live pointers, with fresh memory from `malloc`, keeps the relation.
* `run_represents`: so does every run of such calls.
* `allocationList_exact`: the list is then a ring of exactly the live nodes, newest first, and
  `gc_list_total_mem` returns the sum of the sizes that were asked for. The sum does not wrap,
  since live blocks do not overlap.
-/

namespace KanekFs.Gc

open Bytes CString Ring Room Run Word

/-! ## Live allocations -/

/-- The node of an allocation, and the size that was asked for. -/
structure Alloc where
  node : ℕ
  size : ℕ
deriving DecidableEq

def Alloc.block (a : Alloc) : Block := ⟨a.node, sizeofNode + a.size⟩

/-- What the caller has been given. -/
def Alloc.data (a : Alloc) : ℕ := dataOf a.node

/-- The allocation a call makes. -/
def Call.alloc : Call → Option Alloc
  | .malloc ret size => ret.map fun node => ⟨node, size⟩
  | .calloc ret nelements elementSize => ret.map fun node => ⟨node, u64 (nelements * elementSize)⟩
  | .strdup ret p => ret.map fun node => ⟨node, strlen p + 1⟩
  | .strndup ret _ n => ret.map fun node => ⟨node, u64 (ofInt64 n + 1)⟩
  | .memclone ret _ n => ret.map fun node => ⟨node, ofInt64 n⟩
  | _ => none

def after (live : List Alloc) : Call → List Alloc
  | .free ptr => live.filter fun a => a.data ≠ ptr
  | .destroy => []
  | c => c.alloc.toList ++ live

/-- `malloc` has returned memory that nobody uses, for a request of less than `2 ^ 32` bytes. -/
structure Fresh (ll : ℕ) (live : List Alloc) (a : Alloc) : Prop where
  size_lt : a.size < 2 ^ 32
  below : a.block.start + a.block.length ≤ 2 ^ 64
  apart : ∀ b ∈ ⟨ll, sizeofNode⟩ :: live.map Alloc.block, a.block.Apart b

/-- The calls a program may make. Only `gc_malloc` and `gc_calloc` handle a `NULL`. -/
def Allowed (ll : ℕ) (live : List Alloc) : Call → Prop
  | .malloc ret size => ∀ a ∈ (Call.malloc ret size).alloc, Fresh ll live a
  | .calloc ret nelements elementSize =>
    ∀ a ∈ (Call.calloc ret nelements elementSize).alloc, Fresh ll live a
  | .strdup ret p => ∃ a ∈ (Call.strdup ret p).alloc, Fresh ll live a
  | .strndup ret p n => ∃ a ∈ (Call.strndup ret p n).alloc, Fresh ll live a
  | .memclone ret p n => ofInt64 n ≤ p.length ∧ ∃ a ∈ (Call.memclone ret p n).alloc, Fresh ll live a
  | .mark ptr => ∃ a ∈ live, a.data = ptr
  | .setTrace ptr _ => ∃ a ∈ live, a.data = ptr
  | .free ptr => ∃ a ∈ live, a.data = ptr
  | .destroy => True

instance (ll : ℕ) (live : List Alloc) (a : Alloc) : Decidable (Fresh ll live a) :=
  decidable_of_iff (a.size < 2 ^ 32 ∧ a.block.start + a.block.length ≤ 2 ^ 64 ∧
    ∀ b ∈ (⟨ll, sizeofNode⟩ : Block) :: live.map Alloc.block, a.block.Apart b)
    ⟨fun h => ⟨h.1, h.2.1, h.2.2⟩, fun h => ⟨h.size_lt, h.below, h.apart⟩⟩

instance (ll : ℕ) (live : List Alloc) : ∀ c, Decidable (Allowed ll live c)
  | .malloc .. | .calloc .. => inferInstanceAs (Decidable (∀ a ∈ Call.alloc _, Fresh ll live a))
  | .strdup .. | .strndup .. => inferInstanceAs (Decidable (∃ a ∈ Call.alloc _, Fresh ll live a))
  | .memclone .. => inferInstanceAs (Decidable (_ ∧ ∃ a ∈ Call.alloc _, Fresh ll live a))
  | .mark _ | .setTrace .. | .free _ => inferInstanceAs (Decidable (∃ a ∈ live, a.data = _))
  | .destroy => isTrue trivial

/-- The memory holds the allocations `live`. -/
structure Represents (ll : ℕ) (m : Memory) (live : List Alloc) : Prop where
  ring : IsRing m.links ll (live.map Alloc.node)
  extent : ∀ a ∈ live, (m a.node).map Node.extent = some (a.size, a.size)
  packed : Packed (2 ^ 64) (⟨ll, sizeofNode⟩ :: live.map Alloc.block)

section Relation

variable {ll : ℕ} {m m' : Memory} {live : List Alloc} {a b : Alloc} {i : ℕ} {src : List Byte}
  {f : Node → Node}

lemma containerOf_dataOf {node : ℕ} (h : node < 2 ^ 64) : containerOf (dataOf node) = node := by
  unfold containerOf dataOf sub64 u64 sizeofNode
  omega

namespace Represents

lemma node_lt (h : Represents ll m live) (ha : a ∈ live) : a.node < 2 ^ 64 := by
  have hbelow := h.packed.below a.block (by simp [List.mem_map_of_mem ha])
  simp only [Alloc.block, sizeofNode] at hbelow
  omega

lemma containerOf_data (h : Represents ll m live) (ha : a ∈ live) : containerOf a.data = a.node :=
  containerOf_dataOf (h.node_lt ha)

lemma exists_node (h : Represents ll m live) (ha : a ∈ live) :
    ∃ n, m a.node = some n ∧ n.data.length = a.size := by
  rcases Option.map_eq_some_iff.mp (h.extent a ha) with ⟨n, hn, hextent⟩
  exact ⟨n, hn, congrArg Prod.snd hextent⟩

lemma congr (h : Represents ll m live) (hlinks : m'.links = m.links) (hsame : SameExtents m m') :
    Represents ll m' live where
  ring := hlinks ▸ h.ring
  extent a ha := (hsame a.node).trans (h.extent a ha)
  packed := h.packed

/-- A store to a node that keeps its pointers and its size. -/
lemma modify (h : Represents ll m live) (ha : a ∈ live) (hlist : ∀ n, (f n).list = n.list)
    (hextent : ∀ n, (f n).extent = n.extent) :
    ∃ m', m.modify a.node f = some m' ∧ Represents ll m' live := by
  rcases h.exists_node ha with ⟨n, hn, -⟩
  refine ⟨Function.update m a.node (some (f n)), by rw [Memory.modify, hn, Option.map_some], ?_⟩
  refine h.congr ?_ (sameExtents_update hn (hextent n))
  rw [links_update, hlist]
  exact Function.update_eq_self_iff.mpr (by simp [Memory.links, hn])

lemma copyTo (h : Represents ll m live) (ha : a ∈ live) (hlen : src.length ≤ a.size) :
    ∃ m', copyTo a.data src m = some m' ∧ Represents ll m' live := by
  rcases h.exists_node ha with ⟨n, hn, hdata⟩
  rw [Gc.copyTo, h.containerOf_data ha, hn]
  simp only [Option.bind_eq_bind, Option.bind_some, hdata, if_neg (not_lt.mpr hlen)]
  exact h.modify ha (fun _ => rfl) fun _ => by simp [Node.extent]

/-- The character lies in the data, or in the trace buffer. -/
lemma setChar {c : Byte} (h : Represents ll m live) (ha : a ∈ live)
    (hlo : sizeofNode - MAX_DBG_STR_LEN ≤ u64 (sizeofNode + i))
    (hhi : u64 (sizeofNode + i) < sizeofNode + a.size) :
    ∃ m', setChar a.data i c m = some m' ∧ Represents ll m' live := by
  rcases h.exists_node ha with ⟨n, hn, hdata⟩
  have hin : ¬(u64 (sizeofNode + i) < sizeofNode - MAX_DBG_STR_LEN ∨
      sizeofNode + n.data.length ≤ u64 (sizeofNode + i)) := by omega
  rw [Gc.setChar, h.containerOf_data ha, hn]
  simp only [Option.bind_eq_bind, Option.bind_some, if_neg hin]
  split
  · exact h.modify ha (fun _ => rfl) fun _ => rfl
  · exact h.modify ha (fun _ => rfl) fun _ => by simp [Node.extent]

end Represents

/-- A fresh node is neither the head nor a live node. -/
lemma Fresh.not_mem (h : Fresh ll live a) : a.node ∉ ll :: live.map Alloc.node := by
  have hne : ∀ b ∈ ⟨ll, sizeofNode⟩ :: live.map Alloc.block, b.length ≥ sizeofNode →
      a.node ≠ b.start := by
    intro b hb hlen heq
    have happ := h.apart b hb
    simp only [Block.Apart, Alloc.block, sizeofNode] at happ hlen
    omega
  rw [List.forall_mem_cons] at hne
  rw [List.mem_cons, not_or]
  refine ⟨hne.1 le_rfl, ?_⟩
  intro hmem
  rcases List.mem_map.mp hmem with ⟨b, hb, heq⟩
  exact hne.2 b.block (List.mem_map_of_mem hb) (Nat.le_add_right _ _) heq.symm

/-! ## The calls -/

lemma modify_update {n : Node} {c : ℕ} :
    Memory.modify (Function.update m c (some n)) c f = some (Function.update m c (some (f n))) := by
  simp [Memory.modify]

/-- `gc_malloc` returns the data of a new node, which comes first. -/
theorem gcMalloc_represents (h : Represents ll m live) (ha : Fresh ll live a) :
    ∃ m', gcMalloc ll (some a.node) a.size m = some (some a.data, m') ∧
      Represents ll m' (a :: live) := by
  have hsize := ha.size_lt
  have htotal : u64 (a.size + sizeofNode) = a.size + sizeofNode :=
    u64_of_lt (by unfold sizeofNode; omega)
  have hnot := ha.not_mem
  -- the node when it is put on the list
  obtain ⟨n, hn⟩ : ∃ n : Node, n = { filled (a.size + sizeofNode) with
      size := u32 a.size
      mark := 0
      d_str := memcpy (filled (a.size + sizeofNode)).d_str 0
        ((ofChars "-------").chars ++ [0#8]) } :=
    ⟨_, rfl⟩
  have hextent : n.extent = (a.size, a.size) := by
    simp [hn, Node.extent, filled, u32_of_lt hsize]
  have hothers : ∀ c ∈ ll :: live.map Alloc.node,
      (Function.update m a.node (some n)) c = m c := by
    intro c hc
    have hne : c ≠ a.node := fun heq => hnot (heq ▸ hc)
    exact Function.update_of_ne hne _ _
  have hring : IsRing (Memory.links (Function.update m a.node (some n))) ll
      (live.map Alloc.node) := by
    refine h.ring.congr ?_
    intro c hc
    rw [Memory.links, hothers c hc, Memory.links]
  rcases isRing_listAdd hring hnot (Function.update_self ..) with ⟨m', hadd, hring', hsame⟩
  refine ⟨m', ?_, ⟨hring', ?_, ?_⟩⟩
  · simp only [gcMalloc, htotal, if_neg (Nat.not_lt.mpr (Nat.le_add_left ..)), modify_update,
      Option.bind_eq_bind, Option.bind_some]
    rw [← hn, hadd]
    rfl
  · rw [List.forall_mem_cons]
    constructor
    · rw [hsame, Function.update_self, Option.map_some, hextent]
    · intro b hb
      rw [hsame, hothers b.node (List.mem_cons_of_mem _ (List.mem_map_of_mem hb))]
      exact h.extent b hb
  · -- the head stays in front of the blocks
    have hpacked := h.packed.cons ha.below ha.apart
    refine ⟨hpacked.apart.perm (List.Perm.swap ..) ?_, ?_⟩
    · intro _ _ hab
      exact Or.symm hab
    · intro b hb
      exact hpacked.below b ((List.Perm.swap ..).mem_iff.mp hb)

lemma Represents.data_ne (h : Represents ll m live) (ha : a ∈ live) (hb : b ∈ live)
    (hne : b.node ≠ a.node) : b.data ≠ a.data := by
  intro heq
  rw [← h.containerOf_data ha, ← h.containerOf_data hb, heq] at hne
  exact hne rfl

/-- `gc_free` of a live pointer takes its node out, wherever it stands. -/
theorem gcFree_represents (h : Represents ll m live) (ha : a ∈ live) :
    ∃ m', gcFree a.data m = some m' ∧
      Represents ll m' (live.filter fun b => b.data ≠ a.data) := by
  rcases List.append_of_mem ha with ⟨l₁, l₂, rfl⟩
  have hring := h.ring
  rw [List.map_append, List.map_cons] at hring
  have hne : ∀ c ∈ ll :: (l₁ ++ l₂).map Alloc.node, c ≠ a.node := by
    have hperm : (ll :: (l₁.map Alloc.node ++ a.node :: l₂.map Alloc.node)).Perm
        (a.node :: ll :: (l₁ ++ l₂).map Alloc.node) := by
      rw [List.map_append]
      exact ((List.perm_middle).cons ll).trans (List.Perm.swap ..)
    intro c hc heq
    exact (List.nodup_cons.mp (hperm.nodup hring.nodup)).1 (heq ▸ hc)
  have hsub : (l₁ ++ l₂).Sublist (l₁ ++ a :: l₂) := by simp
  have hfilter : (l₁ ++ a :: l₂).filter (fun b => b.data ≠ a.data) = l₁ ++ l₂ := by
    have hdata : ∀ b ∈ l₁ ++ l₂, b.data ≠ a.data := by
      intro b hb
      refine h.data_ne ha (hsub.subset hb) (hne b.node ?_)
      exact List.mem_cons_of_mem _ (List.mem_map_of_mem hb)
    rw [List.forall_mem_append] at hdata
    rw [List.filter_append, List.filter_cons_of_neg (by simp),
      List.filter_eq_self.mpr (by simpa using hdata.1),
      List.filter_eq_self.mpr (by simpa using hdata.2)]
  rcases isRing_listDel hring with ⟨m₁, hdel, hring₁, hsame⟩
  obtain ⟨n, hn, -⟩ : ∃ n, m₁ a.node = some n ∧ n.extent = (a.size, a.size) :=
    Option.map_eq_some_iff.mp ((hsame a.node).trans (h.extent a ha))
  have hothers : ∀ c ∈ ll :: (l₁ ++ l₂).map Alloc.node,
      (Function.update m₁ a.node none) c = m₁ c :=
    fun c hc => Function.update_of_ne (hne c hc) _ _
  rw [hfilter]
  refine ⟨Function.update m₁ a.node none, ?_, ⟨?_, ?_, ?_⟩⟩
  · rw [gcFree, h.containerOf_data ha]
    simp only [hdel, Memory.free, hn, Option.bind_eq_bind, Option.bind_some, Option.map_some]
  · rw [← List.map_append] at hring₁
    refine hring₁.congr ?_
    intro c hc
    rw [Memory.links, hothers c hc, Memory.links]
  · intro b hb
    rw [hothers b.node (List.mem_cons_of_mem _ (List.mem_map_of_mem hb)), hsame]
    exact h.extent b (hsub.subset hb)
  · exact h.packed.sublist ((hsub.map Alloc.block).cons_cons _)

lemma foldlM_free {l : List ℕ} (hnodup : l.Nodup) (hcells : ∀ x ∈ l, ∃ n, m x = some n) :
    ∃ m', l.foldlM Memory.free m = some m' ∧ ∀ c ∉ l, m' c = m c := by
  induction l generalizing m with
  | nil => exact ⟨m, rfl, fun _ _ => rfl⟩
  | cons x l ih =>
    rw [List.forall_mem_cons] at hcells
    rw [List.nodup_cons] at hnodup
    rcases hcells.1 with ⟨n, hn⟩
    have hrest : ∀ y ∈ l, ∃ n, (Function.update m x none) y = some n := by
      intro y hy
      have hyx : y ≠ x := fun heq => hnodup.1 (heq ▸ hy)
      rw [Function.update_of_ne hyx]
      exact hcells.2 y hy
    rcases ih (m := Function.update m x none) hnodup.2 hrest with ⟨m', hrun, hsame⟩
    refine ⟨m', ?_, ?_⟩
    · rw [List.foldlM_cons, Memory.free, hn]
      exact hrun
    · intro c hc
      rw [List.mem_cons, not_or] at hc
      rw [hsame c hc.2, Function.update_of_ne hc.1]

lemma local_free : Local id Memory.free := by
  intro m x m' hfree c hc
  rcases Option.map_eq_some_iff.mp hfree with ⟨n, -, rfl⟩
  simp [Memory.links, hc]

/-- `gc_list_destroy` frees every node and leaves an empty list. -/
theorem gcListDestroy_represents {fuel : ℕ} (h : Represents ll m live)
    (hfuel : live.length < fuel) :
    ∃ m', gcListDestroy ll fuel m = some m' ∧ Represents ll m' [] := by
  have hnodup := List.nodup_cons.mp h.ring.nodup
  have hcells : ∀ x ∈ live.map Alloc.node, ∃ n, m x = some n := by
    intro x hx
    rcases List.mem_map.mp hx with ⟨a, ha, rfl⟩
    rcases h.exists_node ha with ⟨n, hn, -⟩
    exact ⟨n, hn⟩
  rcases foldlM_free hnodup.2 hcells with ⟨m₁, hrun, hsame⟩
  rcases exists_of_next h.ring.segment.next_eq with ⟨n, hn, -⟩
  have hhead : m₁ ll = some n := (hsame ll hnodup.1).trans hn
  rcases isRing_initListHead hhead with ⟨m', hinit, hring, -⟩
  refine ⟨m', ?_, hring, by simp, ?_⟩
  · rw [gcListDestroy, listForEachSafe_eq_foldlM local_free h.ring (by simpa using hfuel), hrun]
    exact hinit
  · exact h.packed.sublist (by simp)

lemma foldlM_size {acc : ℕ}
    (hcells : ∀ a ∈ live, (m a.node).map Node.extent = some (a.size, a.size))
    (hsum : acc + (live.map Alloc.size).sum < 2 ^ 64) :
    (live.map Alloc.node).foldlM
        (fun s i => (s.2 i).map fun n => (u64 (s.1 + n.size), s.2)) (acc, m) =
      some (acc + (live.map Alloc.size).sum, m) := by
  induction live generalizing acc with
  | nil => simp
  | cons a live ih =>
    rw [List.forall_mem_cons] at hcells
    rcases Option.map_eq_some_iff.mp hcells.1 with ⟨n, hn, hextent⟩
    obtain hsize : n.size = a.size := congrArg Prod.fst hextent
    rw [List.map_cons, List.sum_cons] at hsum
    have hadd : u64 (acc + n.size) = acc + a.size := by
      rw [hsize]
      exact u64_of_lt (by omega)
    rw [List.map_cons, List.foldlM_cons]
    simp only [hn, Option.map_some, hadd, List.map_cons, List.sum_cons, ← Nat.add_assoc,
      Option.bind_eq_bind, Option.bind_some]
    exact ih hcells.2 (by omega)

/-- The sizes of live allocations do not add up to more than fits. -/
lemma Represents.sum_size_lt (h : Represents ll m live) : (live.map Alloc.size).sum < 2 ^ 64 := by
  have hsum := h.packed.sum_length_le
  rw [List.map_cons, List.sum_cons, List.map_map] at hsum
  have hle : (live.map Alloc.size).sum ≤ (live.map (Block.length ∘ Alloc.block)).sum :=
    List.sum_le_sum fun a _ => Nat.le_add_left a.size sizeofNode
  simp only [sizeofNode] at hsum
  omega

theorem gcListTotalMem_eq {fuel : ℕ} (h : Represents ll m live) (hfuel : live.length < fuel) :
    gcListTotalMem ll fuel m = some (live.map Alloc.size).sum := by
  have hlocal : Local Prod.snd fun (s : ℕ × Memory) i =>
      (s.2 i).map fun n => (u64 (s.1 + n.size), s.2) := by
    intro s x s' hs c _
    rcases Option.map_eq_some_iff.mp hs with ⟨n, -, rfl⟩
    rfl
  rw [gcListTotalMem, listForEachSafe_eq_foldlM hlocal h.ring (by simpa using hfuel),
    foldlM_size h.extent (by simpa using h.sum_size_lt)]
  simp

/-! ## Wrappers -/

theorem gcStrndup_represents {node : ℕ} {p : CStr} {n : ℤ} (h : Represents ll m live)
    (ha : Fresh ll live ⟨node, u64 (ofInt64 n + 1)⟩) :
    ∃ m', gcStrndup ll (some node) p n m = some (dataOf node, m') ∧
      Represents ll m' (⟨node, u64 (ofInt64 n + 1)⟩ :: live) := by
  have hsize : u64 (ofInt64 n + 1) < 2 ^ 32 := ha.size_lt
  have hn : ofInt64 n < 2 ^ 64 := by unfold ofInt64; omega
  -- for `n = -1` this is the last byte of the trace buffer
  have hlo : sizeofNode - MAX_DBG_STR_LEN ≤ u64 (sizeofNode + ofInt64 n) := by
    unfold u64 sizeofNode MAX_DBG_STR_LEN at *
    omega
  have hhi : u64 (sizeofNode + ofInt64 n) < sizeofNode + u64 (ofInt64 n + 1) := by
    unfold u64 sizeofNode at *
    omega
  rcases gcMalloc_represents h ha with ⟨m₁, hmalloc, h₁⟩
  rcases h₁.copyTo List.mem_cons_self (length_strncpy (u64 (ofInt64 n + 1)) p).le with
    ⟨m₂, hcopy, h₂⟩
  rcases h₂.setChar (i := ofInt64 n) (c := 0#8) List.mem_cons_self hlo hhi with ⟨m₃, hset, h₃⟩
  refine ⟨m₃, ?_, h₃⟩
  simp only [gcStrndup, hmalloc, hcopy, hset, Option.bind_eq_bind, Option.bind_some]
  rfl

/-- `gc_strdup` is `gc_strndup` of the whole string. -/
lemma gcStrdup_eq {ret : Option ℕ} {p : CStr} (hlen : strlen p < 2 ^ 64) :
    gcStrdup ll ret p m = gcStrndup ll ret p (strlen p) m := by
  rw [gcStrdup, gcStrndup, ofInt64_natCast hlen]

theorem gcMemclone_represents {node : ℕ} {p : List Byte} {n : ℤ} (h : Represents ll m live)
    (ha : Fresh ll live ⟨node, ofInt64 n⟩) (hp : ofInt64 n ≤ p.length) :
    ∃ m', gcMemclone ll (some node) p n m = some (dataOf node, m') ∧
      Represents ll m' (⟨node, ofInt64 n⟩ :: live) := by
  rcases gcMalloc_represents h ha with ⟨m₁, hmalloc, h₁⟩
  rcases h₁.copyTo List.mem_cons_self (List.length_take_le (ofInt64 n) p) with ⟨m₂, hcopy, h₂⟩
  refine ⟨m₂, ?_, h₂⟩
  simp only [gcMemclone, hmalloc, if_neg (not_lt.mpr hp), hcopy, Option.bind_eq_bind,
    Option.bind_some]
  rfl

/-! ## Runs -/

/-- **One call.** -/
theorem step_represents {fuel : ℕ} {c : Call} (h : Represents ll m live)
    (hc : Allowed ll live c) (hfuel : live.length < fuel) :
    ∃ m', step ll fuel m c = some m' ∧ Represents ll m' (after live c) := by
  cases c with
  | malloc ret size =>
    cases ret with
    | none => exact ⟨m, rfl, h⟩
    | some node =>
      rcases gcMalloc_represents h (hc _ rfl) with ⟨m', hmalloc, h'⟩
      exact ⟨m', by rw [step, hmalloc, Option.map_some], h'⟩
  | calloc ret nelements elementSize =>
    cases ret with
    | none => exact ⟨m, rfl, h⟩
    | some node =>
      rcases gcMalloc_represents h (hc _ rfl) with ⟨m', hmalloc, h'⟩
      exact ⟨m', by rw [step, gcCalloc, hmalloc, Option.map_some], h'⟩
  | strdup ret p =>
    rcases hc with ⟨a, ha, hfresh⟩
    rcases Option.map_eq_some_iff.mp ha with ⟨node, rfl, rfl⟩
    have hsize := hfresh.size_lt
    have hlen : strlen p < 2 ^ 64 := by
      simp only at hsize
      omega
    have hreq : u64 (ofInt64 (strlen p) + 1) = strlen p + 1 := by
      rw [ofInt64_natCast hlen]
      exact u64_of_lt (by simp only at hsize; omega)
    rw [← hreq] at hfresh
    rcases gcStrndup_represents (p := p) h hfresh with ⟨m', hdup, h'⟩
    refine ⟨m', by rw [step, gcStrdup_eq hlen, hdup, Option.map_some], ?_⟩
    rw [hreq] at h'
    exact h'
  | strndup ret p n =>
    rcases hc with ⟨a, ha, hfresh⟩
    rcases Option.map_eq_some_iff.mp ha with ⟨node, rfl, rfl⟩
    rcases gcStrndup_represents (p := p) h hfresh with ⟨m', hdup, h'⟩
    exact ⟨m', by rw [step, hdup, Option.map_some], h'⟩
  | memclone ret p n =>
    rcases hc with ⟨hp, a, ha, hfresh⟩
    rcases Option.map_eq_some_iff.mp ha with ⟨node, rfl, rfl⟩
    rcases gcMemclone_represents h hfresh hp with ⟨m', hclone, h'⟩
    exact ⟨m', by rw [step, hclone, Option.map_some], h'⟩
  | mark ptr =>
    rcases hc with ⟨a, ha, rfl⟩
    rw [step, gcMark, h.containerOf_data ha]
    exact h.modify ha (fun _ => rfl) fun _ => rfl
  | setTrace ptr str =>
    rcases hc with ⟨a, ha, rfl⟩
    rw [step, gcNodeSetTrace, h.containerOf_data ha]
    exact h.modify ha (fun _ => rfl) fun _ => rfl
  | free ptr =>
    rcases hc with ⟨a, ha, rfl⟩
    exact gcFree_represents h ha
  | destroy => exact gcListDestroy_represents h hfuel

/-- An empty list. -/
lemma gcListInit_represents {head : Node} (hhead : m ll = some head)
    (hspace : ll + sizeofNode ≤ 2 ^ 64) :
    ∃ m', gcListInit ll m = some m' ∧ Represents ll m' [] := by
  rcases isRing_initListHead hhead with ⟨m', hinit, hring, -⟩
  exact ⟨m', hinit, hring, by simp, List.pairwise_singleton .., by simpa⟩

lemma length_after_le {c : Call} : (after live c).length ≤ live.length + 1 := by
  have halloc : c.alloc.toList.length ≤ 1 := by cases c.alloc <;> simp
  cases c with
  | free ptr => exact (List.length_filter_le ..).trans (Nat.le_succ _)
  | destroy => exact Nat.zero_le _
  | _ =>
    simp only [after, List.length_append]
    omega

lemma length_foldl_after_le (t : List Call) (live : List Alloc) :
    (t.foldl after live).length ≤ live.length + t.length := by
  induction t generalizing live with
  | nil => exact le_rfl
  | cons c t ih =>
    have hlen : (after live c).length ≤ live.length + 1 := length_after_le
    have hrest := ih (after live c)
    rw [List.foldl_cons, List.length_cons]
    omega

/-- **Every run of allowed calls.** -/
theorem run_represents {fuel : ℕ} {t : List Call} (h : Represents ll m live)
    (hc : Along (fun live c => some (after live c)) (Allowed ll) live t)
    (hfuel : live.length + t.length < fuel) :
    ∃ m', run (step ll fuel) m t = some m' ∧ Represents ll m' (t.foldl after live) := by
  induction t generalizing m live with
  | nil => exact ⟨m, rfl, h⟩
  | cons c t ih =>
    rcases hc _ rfl with ⟨hallowed, hrest⟩
    rw [List.length_cons] at hfuel
    have hlen : (after live c).length ≤ live.length + 1 := length_after_le
    rcases step_represents h hallowed (show live.length < fuel by omega) with ⟨m₁, hstep, h₁⟩
    rcases ih h₁ hrest (by omega) with ⟨m', hrun, h'⟩
    exact ⟨m', run_cons_eq_some.mpr ⟨m₁, hstep, hrun⟩, h'⟩

end Relation

/-- **The allocation list is exact.** After `gc_list_init` and any allowed calls, the ring from the
head on is the live nodes, newest first, and `gc_list_total_mem` is the sum of their sizes. -/
theorem allocationList_exact {ll fuel : ℕ} {m₀ : Memory} {head : Node} {t : List Call}
    (hhead : m₀ ll = some head) (hspace : ll + sizeofNode ≤ 2 ^ 64)
    (hc : Along (fun live c => some (after live c)) (Allowed ll) [] t) (hfuel : t.length < fuel) :
    ∃ m₁ m, gcListInit ll m₀ = some m₁ ∧ run (step ll fuel) m₁ t = some m ∧
      IsRing m.links ll ((t.foldl after []).map Alloc.node) ∧
      gcListTotalMem ll fuel m = some ((t.foldl after []).map Alloc.size).sum := by
  rcases gcListInit_represents hhead hspace with ⟨m₁, hinit, h₁⟩
  rcases run_represents h₁ hc (by simpa using hfuel) with ⟨m, hrun, h⟩
  have hlen : (t.foldl after []).length < fuel :=
    lt_of_le_of_lt (length_foldl_after_le ..) (by simpa using hfuel)
  exact ⟨m₁, m, hinit, hrun, h.ring, gcListTotalMem_eq h hlen⟩

/-- Three allocations, of which the first is freed. -/
theorem allocationList_exact_three :
    ∃ m₁ m,
      gcListInit 0x1000 (Function.update (fun _ => none) 0x1000 (some (filled 72))) = some m₁ ∧
      run (step 0x1000 7) m₁ [.malloc (some 0x2000) 32, .strndup (some 0x3000) (ofChars "hola") 4,
        .strdup (some 0x4000) (ofChars "anita lava la tina"), .mark 0x3048,
        .setTrace 0x2048 (ofChars "debug message"), .free 0x2048] = some m ∧
      IsRing m.links 0x1000 [0x4000, 0x3000] ∧ gcListTotalMem 0x1000 7 m = some 24 :=
  allocationList_exact (t := [.malloc (some 0x2000) 32, .strndup (some 0x3000) (ofChars "hola") 4,
    .strdup (some 0x4000) (ofChars "anita lava la tina"), .mark 0x3048,
    .setTrace 0x2048 (ofChars "debug message"), .free 0x2048])
    (Function.update_self ..) (by decide) (by decide) (by decide)

end KanekFs.Gc
