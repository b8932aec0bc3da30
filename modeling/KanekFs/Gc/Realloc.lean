import KanekFs.Gc.Exact

/-!
# A reallocation loses its node

`gc_realloc` asks the system for `size` bytes where the header needs room too, does not relink the
block after a move, and returns the header and not the data.

* `realloc_never_keeps`: the pointer it returns is never the data of a node that stands in the
  place of the old one. Either the block has stayed, and the pointer is the node, or the
  neighbours still point to the block that is gone.
-/

namespace KanekFs.Gc

open Bytes CString Ring Room Word

/-- The first `size` bytes of a block; `fresh` is what lies behind the old ones. -/
def Node.resized (fresh : ℕ → Byte) (size : ℕ) (n : Node) : Node :=
  let bytes := (List.range (size - (sizeofNode - MAX_DBG_STR_LEN))).map fun i =>
    (n.d_str ++ n.data).getD i (fresh i)
  { n with d_str := bytes.take MAX_DBG_STR_LEN, data := bytes.drop MAX_DBG_STR_LEN }

/-- `ret` is what the system's `realloc` returned. The list is not used. -/
def gcRealloc (fresh : ℕ → Byte) (ret : Option ℕ) (ptr size : ℕ) (m : Memory) :
    Option (Option ℕ × Memory) := do
  let node := containerOf ptr
  let n ← m node
  match ret with
  | none =>
    -- a request for no bytes frees the block
    some (none, if size = 0 then Function.update m node none else m)
  | some mem =>
    -- the fields that are written do not fit into the block
    if size < sizeofNode - MAX_DBG_STR_LEN then none else do
      let m : Memory := Function.update (Function.update m node none) mem
        (some (n.resized fresh size))
      let m ← m.modify mem fun n => { n with size := u32 size }
      let m ← m.modify mem fun n => { n with mark := 0 }
      some (some mem, m)

/-! ## What a reallocation is for -/

/-- `realloc` returns the block itself, or memory that no other block has. -/
def MayReturn (ll : ℕ) (live : List Alloc) (a : Alloc) (size ret : ℕ) : Prop :=
  ret = a.node ∨ (∀ b ∈ (⟨ll, sizeofNode⟩ : Block) :: (live.filter (· ≠ a)).map Alloc.block,
    Block.Apart ⟨ret, size⟩ b)

instance (ll : ℕ) (live : List Alloc) (a : Alloc) (size ret : ℕ) :
    Decidable (MayReturn ll live a size ret) :=
  inferInstanceAs (Decidable (_ ∨ _))

/-- `q` points to the data of a node `node` that has taken the place of the allocation `a`. -/
structure Replaces (ll fuel : ℕ) (live : List Alloc) (a : Alloc) (size : ℕ) (m m' : Memory)
    (q node : ℕ) : Prop where
  ptr : q = dataOf node
  ring : ∀ l₁ l₂, live = l₁ ++ a :: l₂ →
    IsRing m'.links ll (l₁.map Alloc.node ++ node :: l₂.map Alloc.node)
  data : ∃ n n', m a.node = some n ∧ m' node = some n' ∧ size ≤ n'.data.length ∧
    n'.data.take (min a.size size) = n.data.take (min a.size size)
  total : ∃ total total', gcListTotalMem ll fuel m = some total ∧
    gcListTotalMem ll fuel m' = some total' ∧ total' + a.size = total + size

/-- A reallocation returns a pointer, and has kept list and data. -/
def ReallocKeeps (fresh : ℕ → Byte) (ll fuel ret : ℕ) (live : List Alloc) (a : Alloc) (size : ℕ)
    (m : Memory) : Prop :=
  ∃ q m', gcRealloc fresh (some ret) a.data size m = some (some q, m') ∧
    ∃ node, Replaces ll fuel live a size m m' q node

/-! ## What it does -/

section Realloc

variable {fresh : ℕ → Byte} {ll fuel ret q size : ℕ} {m m' : Memory} {live l₁ l₂ : List Alloc}
  {a : Alloc}

/-- All there is to a reallocation: the block is at `ret`, no other cell has changed, and `ret` is
what is returned. -/
lemma gcRealloc_eq (h : Represents ll m live) (ha : a ∈ live)
    (hrun : gcRealloc fresh (some ret) a.data size m = some (some q, m')) :
    q = ret ∧ sizeofNode - MAX_DBG_STR_LEN ≤ size ∧ (ret ≠ a.node → m' a.node = none) ∧
      ∀ c, c ≠ a.node → c ≠ ret → m' c = m c := by
  rcases h.exists_node ha with ⟨n, hn, -⟩
  simp only [gcRealloc, h.containerOf_data ha, hn, Option.bind_eq_bind, Option.bind_some] at hrun
  by_cases hsize : size < sizeofNode - MAX_DBG_STR_LEN
  · rw [if_pos hsize] at hrun
    cases hrun
  · simp only [if_neg hsize, modify_update, Option.bind_some, Option.some.injEq,
      Prod.mk.injEq] at hrun
    rcases hrun with ⟨rfl, rfl⟩
    refine ⟨rfl, not_lt.mp hsize, ?_, ?_⟩
    · intro hmoved
      rw [Function.update_of_ne hmoved.symm, Function.update_self]
    · intro c hca hcq
      rw [Function.update_of_ne hcq, Function.update_of_ne hca]

/-- The node in front of an allocation is neither the allocation nor where it goes. -/
lemma front_ne (h : Represents ll m (l₁ ++ a :: l₂))
    (hret : MayReturn ll (l₁ ++ a :: l₂) a size ret) (hsize : 0 < size) :
    (l₁.map Alloc.node).getLastD ll ≠ a.node ∧ (l₁.map Alloc.node).getLastD ll ≠ ret := by
  have hnodup := h.ring.nodup
  rw [List.map_append, List.map_cons, ← List.cons_append, List.nodup_append] at hnodup
  have hne : ∀ c ∈ ll :: l₁.map Alloc.node, c ≠ a.node :=
    fun c hc => hnodup.2.2 c hc a.node List.mem_cons_self
  have hmem : (l₁.map Alloc.node).getLastD ll ∈ ll :: l₁.map Alloc.node :=
    List.getLastD_mem_cons
  refine ⟨hne _ hmem, ?_⟩
  rcases hret with rfl | hapart
  · exact hne _ hmem
  · -- the blocks of all the others lie apart from the new one
    have hothers : ∀ c ∈ ll :: l₁.map Alloc.node, c ≠ ret := by
      rw [List.forall_mem_cons] at hapart ⊢
      constructor
      · have hhead := hapart.1
        simp only [Block.Apart, sizeofNode] at hhead
        omega
      · intro c hc
        rcases List.mem_map.mp hc with ⟨b, hb, rfl⟩
        have hba : b ≠ a := by
          rintro rfl
          exact hne b.node (List.mem_cons_of_mem ll hc) rfl
        have hblock := hapart.2 b.block
          (List.mem_map_of_mem (List.mem_filter.mpr ⟨by simp [hb], by simpa using hba⟩))
        simp only [Block.Apart, Alloc.block, sizeofNode] at hblock
        omega
    exact hothers _ hmem

/-- The node in front of a reallocated one still points to where it was. -/
lemma front_next (h : Represents ll m (l₁ ++ a :: l₂))
    (hret : MayReturn ll (l₁ ++ a :: l₂) a size ret)
    (hrun : gcRealloc fresh (some ret) a.data size m = some (some q, m')) :
    m'.links.next ((l₁.map Alloc.node).getLastD ll) = some a.node := by
  rcases gcRealloc_eq h (by simp) hrun with ⟨-, hsize, -, hothers⟩
  have hpos : 0 < size := lt_of_lt_of_le (by decide) hsize
  rcases front_ne h hret hpos with ⟨hfa, hfr⟩
  have hring := h.ring.segment
  rw [List.map_append, List.map_cons] at hring
  rw [next_links, Memory.next, hothers _ hfa hfr, ← Memory.next, ← next_links]
  exact (segment_append.mp hring).1.next_getLastD

/-- What is returned is not the data of a node in the place of the old one. -/
lemma realloc_not_replaces {node : ℕ} (h : Represents ll m live) (ha : a ∈ live)
    (hret : MayReturn ll live a size ret)
    (hrun : gcRealloc fresh (some ret) a.data size m = some (some q, m')) :
    ¬Replaces ll fuel live a size m m' q node := by
  intro hkeeps
  rcases gcRealloc_eq h ha hrun with ⟨rfl, -, hgone, -⟩
  rcases List.append_of_mem ha with ⟨l₁, l₂, rfl⟩
  rcases segment_append.mp (hkeeps.ring l₁ l₂ rfl).segment with ⟨hleft, hright⟩
  -- the node in front tells which node stands in the place of the old one
  have hnode : a.node = node :=
    Option.some.inj ((front_next h hret hrun).symm.trans hleft.next_getLastD)
  have hlt : a.node < 2 ^ 64 := h.node_lt ha
  have hmoved : q ≠ a.node := by
    rw [hkeeps.ptr, ← hnode]
    unfold dataOf u64 sizeofNode
    omega
  have hnext := hright.next_eq
  rw [next_links, Memory.next, ← hnode, hgone hmoved] at hnext
  cases hnext

/-- **A reallocation never keeps list and data.** -/
theorem realloc_never_keeps (h : Represents ll m live) (ha : a ∈ live)
    (hret : MayReturn ll live a size ret) : ¬ReallocKeeps fresh ll fuel ret live a size m := by
  rintro ⟨q, m', hrun, node, hkeeps⟩
  exact realloc_not_replaces h ha hret hrun hkeeps

end Realloc

/-- One allocation of eight bytes in an otherwise empty memory. -/
def oneAlloc : Memory :=
  Function.update (Function.update (fun _ => none) 0x1000
      (some { filled 72 with list := ⟨0x2000, 0x2000⟩ }))
    0x2000 (some { filled 80 with list := ⟨0x1000, 0x1000⟩, size := 8, mark := 0 })

lemma oneAlloc_represents : Represents 0x1000 oneAlloc [⟨0x2000, 8⟩] where
  ring := ⟨by decide, ⟨rfl, rfl⟩, ⟨rfl, rfl⟩⟩
  extent := by
    intro a ha
    obtain rfl := List.mem_singleton.mp ha
    rfl
  packed := ⟨by decide, by decide⟩

/-- Eight bytes grow to a hundred, in place. -/
theorem realloc_never_keeps_hundred :
    ¬ReallocKeeps (fun _ => 0#8) 0x1000 2 0x2000 [⟨0x2000, 8⟩] ⟨0x2000, 8⟩ 100 oneAlloc :=
  realloc_never_keeps oneAlloc_represents (by decide) (by decide)

/-- Eight bytes that grow to a hundred where they are: the pointer returned is the node, and behind
the header there are twenty-eight bytes. -/
theorem realloc_returns_node :
    (∃ m', gcRealloc (fun _ => 0#8) (some 0x2000) 0x2048 100 oneAlloc = some (some 0x2000, m') ∧
      (m' 0x2000).map (fun n => n.data.length) = some 28) ∧
      ¬ReallocKeeps (fun _ => 0#8) 0x1000 2 0x2000 [⟨0x2000, 8⟩] ⟨0x2000, 8⟩ 100 oneAlloc := by
  constructor
  · exact ⟨_, rfl, by decide⟩
  · rintro ⟨q, m', hrun, node, hkeeps⟩
    exact realloc_not_replaces oneAlloc_represents (by decide) (by decide) hrun hkeeps

end KanekFs.Gc
