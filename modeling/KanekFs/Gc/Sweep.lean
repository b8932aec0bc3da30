import KanekFs.Gc.Exact

/-!
# The sweep looks in front of the node

`gc_sweep` takes the address of a node for the address of its data: `container_of` goes back over a
header from there, and the `mark` it reads belongs to whatever lies in front of the node.

* `listForEachSafe_sweepAt`: when no word it reads in this way is 1, the walk changes nothing.
* `listForEachSafe_sweepAt_freed`: when one is, the walk frees what no node of the list starts at,
  or goes astray.
* `sweepExact_iff`: so the marked nodes are the ones that are freed only where nothing is freed.
-/

namespace KanekFs.Gc

open Ring Run Word

/-- `n->mark`. Where no node starts at `n`, `rest` is what the memory holds at that place. -/
def markAt (rest : ℕ → ℕ) (m : Memory) (n : ℕ) : ℕ := ((m n).map Node.mark).getD (rest n)

/-- The body of the loop of `gc_sweep`. -/
def sweepAt (rest : ℕ → ℕ) (m : Memory) (i : ℕ) : Option Memory :=
  let p := i
  let n := containerOf p
  if markAt rest m n = 1 then gcFree (dataOf n) m else some m

def gcSweep (rest : ℕ → ℕ) (ll fuel : ℕ) (m : Memory) : Option Memory :=
  listForEachSafe id (sweepAt rest) ll fuel m

/-! ## What a sweep is for -/

/-- The node carries the mark of `gc_mark`. -/
def Marked (m : Memory) (node : ℕ) : Prop := (m node).map Node.mark = some 1

instance (m : Memory) (node : ℕ) : Decidable (Marked m node) :=
  inferInstanceAs (Decidable (_ = some 1))

/-- The marked nodes are gone, the others are on the list as before, and nothing else is freed. -/
structure Swept (ll : ℕ) (live : List Alloc) (m m' : Memory) : Prop where
  ring : IsRing m'.links ll ((live.filter fun a => ¬Marked m a.node).map Alloc.node)
  freed : ∀ c, m' c = none ↔ m c = none ∨ ∃ a ∈ live, a.node = c ∧ Marked m c

/-- A sweep ends, and has done this. -/
def SweepExact (rest : ℕ → ℕ) (ll fuel : ℕ) (live : List Alloc) (m : Memory) : Prop :=
  ∃ m', gcSweep rest ll fuel m = some m' ∧ Swept ll live m m'

/-! ## Memory that is not there stays away -/

section Freed

variable {m m' : Memory} {rest : ℕ → ℕ} {a c p : ℕ} {f : Node → Node}

lemma none_of_modify (h : m.modify a f = some m') (hc : m c = none) : m' c = none := by
  rcases Option.map_eq_some_iff.mp h with ⟨n, hn, rfl⟩
  have hca : c ≠ a := by
    rintro rfl
    simp [hc] at hn
  rw [Function.update_of_ne hca, hc]

lemma none_of_listDel (h : listDel a m = some m') (hc : m c = none) : m' c = none := by
  simp only [listDel, Option.bind_eq_bind, Option.bind_eq_some_iff] at h
  rcases h with ⟨_, -, _, -, m₁, h₁, _, -, _, -, h₂⟩
  exact none_of_modify h₂ (none_of_modify h₁ hc)

/-- A block that has been freed was there before, and is not there after. -/
lemma gcFree_freed (h : gcFree p m = some m') :
    m (containerOf p) ≠ none ∧ m' (containerOf p) = none := by
  simp only [gcFree, Option.bind_eq_bind, Option.bind_eq_some_iff] at h
  rcases h with ⟨m₁, hdel, hfree⟩
  rcases Option.map_eq_some_iff.mp hfree with ⟨n, hn, rfl⟩
  constructor
  · intro hnone
    rw [none_of_listDel hdel hnone] at hn
    cases hn
  · exact Function.update_self ..

lemma none_of_gcFree (h : gcFree p m = some m') (hc : m c = none) : m' c = none := by
  simp only [gcFree, Option.bind_eq_bind, Option.bind_eq_some_iff] at h
  rcases h with ⟨m₁, hdel, hfree⟩
  rcases Option.map_eq_some_iff.mp hfree with ⟨n, hn, rfl⟩
  by_cases hcp : c = containerOf p
  · rw [hcp, Function.update_self]
  · rw [Function.update_of_ne hcp]
    exact none_of_listDel hdel hc

lemma sweepAt_of_ne (h : markAt rest m (containerOf a) ≠ 1) : sweepAt rest m a = some m :=
  if_neg h

lemma sweepAt_of_eq (h : markAt rest m (containerOf a) = 1) :
    sweepAt rest m a = gcFree (dataOf (containerOf a)) m :=
  if_pos h

lemma none_of_sweepAt (h : sweepAt rest m a = some m') (hc : m c = none) : m' c = none := by
  by_cases hmark : markAt rest m (containerOf a) = 1
  · rw [sweepAt_of_eq hmark] at h
    exact none_of_gcFree h hc
  · rw [sweepAt_of_ne hmark] at h
    cases h
    exact hc

end Freed

/-! ## The walk -/

section Walk

variable {m m' : Memory} {rest : ℕ → ℕ} {ll fuel n pos x : ℕ} {l : List ℕ}

/-- What every body keeps, the walk keeps. -/
lemma forEachSafe_invariant {σ : Type} {mem : σ → Memory} {body : σ → ℕ → Option σ}
    {P : σ → Prop} {s s' : σ} (hbody : ∀ s x s', body s x = some s' → P s → P s')
    (hrun : forEachSafe mem body ll fuel s pos n = some s') (hs : P s) : P s' := by
  induction fuel generalizing s pos n with
  | zero => cases hrun
  | succ fuel ih =>
    rw [forEachSafe] at hrun
    split at hrun
    · cases hrun
      exact hs
    · simp only [Option.bind_eq_bind, Option.bind_eq_some_iff] at hrun
      rcases hrun with ⟨s₁, hs₁, next, -, hrest⟩
      exact ih hrest (hbody s pos s₁ hs₁ hs)

/-- The pointer that is handed to `gc_free` leads back to where the mark was read. -/
lemma containerOf_dataOf_containerOf : containerOf (dataOf (containerOf x)) = containerOf x :=
  containerOf_dataOf (sub64_lt x sizeofNode)

/-- A step over a node where no mark is seen goes to the next one, in the same memory. -/
lemma forEachSafe_sweepAt_cons (fuel : ℕ) (hpath : Path m.links (x :: l) ll) (hnot : x ≠ ll)
    (hsees : markAt rest m (containerOf x) ≠ 1) (hn : m.next x = some n) :
    ∃ w, m.next n = some w ∧ n = l.headD ll ∧
      forEachSafe id (sweepAt rest) ll (fuel + 1) m x n =
        forEachSafe id (sweepAt rest) ll fuel m n w := by
  have hnext := hpath.1
  rw [next_links] at hnext
  obtain rfl : n = l.headD ll := Option.some.inj (hn.symm.trans hnext)
  have hw : ∃ w, m.next (l.headD ll) = some w := by
    rw [← next_links]
    cases l with
    | nil => exact hpath.2
    | cons y l => exact ⟨_, hpath.2.1⟩
  rcases hw with ⟨w, hw⟩
  refine ⟨w, hw, rfl, ?_⟩
  rw [forEachSafe, if_neg hnot, sweepAt_of_ne hsees]
  simp only [Option.bind_eq_bind, Option.bind_some, id_eq, hw]

lemma forEachSafe_sweepAt (hpath : Path m.links l ll) (hnot : ll ∉ l) (hfuel : l.length < fuel)
    (hn : m.next (l.headD ll) = some n)
    (hsees : ∀ x ∈ l, markAt rest m (containerOf x) ≠ 1) :
    forEachSafe id (sweepAt rest) ll fuel m (l.headD ll) n = some m := by
  induction l generalizing fuel n with
  | nil =>
    cases fuel with
    | zero => exact absurd hfuel (Nat.not_lt_zero _)
    | succ fuel => simp [forEachSafe]
  | cons x l ih =>
    cases fuel with
    | zero => exact absurd hfuel (Nat.not_lt_zero _)
    | succ fuel =>
      rw [List.mem_cons, not_or] at hnot
      rw [List.forall_mem_cons] at hsees
      rcases forEachSafe_sweepAt_cons fuel hpath (Ne.symm hnot.1) hsees.1 hn with
        ⟨w, hw, rfl, hstep⟩
      rw [List.headD_cons, hstep]
      exact ih hpath.2 hnot.2 (Nat.lt_of_succ_lt_succ hfuel) hw hsees.2

lemma forEachSafe_sweepAt_freed (hpath : Path m.links l ll) (hnot : ll ∉ l)
    (hn : m.next (l.headD ll) = some n) (hsees : ∃ x ∈ l, markAt rest m (containerOf x) = 1)
    (hrun : forEachSafe id (sweepAt rest) ll fuel m (l.headD ll) n = some m') :
    ∃ x ∈ l, m (containerOf x) ≠ none ∧ m' (containerOf x) = none := by
  induction l generalizing fuel n with
  | nil => simp at hsees
  | cons x l ih =>
    cases fuel with
    | zero => cases hrun
    | succ fuel =>
      rw [List.mem_cons, not_or] at hnot
      by_cases hx : markAt rest m (containerOf x) = 1
      · -- the first word that reads 1; what is freed here stays freed
        rw [List.headD_cons, forEachSafe, if_neg (Ne.symm hnot.1), sweepAt_of_eq hx] at hrun
        simp only [Option.bind_eq_bind, Option.bind_eq_some_iff] at hrun
        rcases hrun with ⟨m₁, hfree, next, -, hrest⟩
        have hfreed := gcFree_freed hfree
        rw [containerOf_dataOf_containerOf] at hfreed
        refine ⟨x, List.mem_cons_self, hfreed.1, ?_⟩
        refine forEachSafe_invariant (P := fun m => m (containerOf x) = none) ?_ hrest hfreed.2
        intro s y s' hbody hs
        exact none_of_sweepAt hbody hs
      · have hlater : ∃ y ∈ l, markAt rest m (containerOf y) = 1 := by
          rcases hsees with ⟨y, hy, hmark⟩
          rcases List.mem_cons.mp hy with rfl | hy
          · exact absurd hmark hx
          · exact ⟨y, hy, hmark⟩
        rcases forEachSafe_sweepAt_cons fuel hpath (Ne.symm hnot.1) hx hn with
          ⟨w, hw, rfl, hstep⟩
        rw [List.headD_cons, hstep] at hrun
        rcases ih hpath.2 hnot.2 hw hlater hrun with ⟨y, hy, hfreed⟩
        exact ⟨y, List.mem_cons_of_mem x hy, hfreed⟩

/-- A walk that sees no mark changes nothing. -/
theorem listForEachSafe_sweepAt (hr : IsRing m.links ll l) (hfuel : l.length < fuel)
    (hsees : ∀ x ∈ l, markAt rest m (containerOf x) ≠ 1) :
    gcSweep rest ll fuel m = some m := by
  rcases exists_second hr with ⟨w, hfirst, hw⟩
  rw [gcSweep, listForEachSafe]
  simp only [id_eq, hfirst, hw, Option.bind_eq_bind, Option.bind_some]
  exact forEachSafe_sweepAt hr.path (List.nodup_cons.mp hr.nodup).1 hfuel hw hsees

/-- A walk that sees a mark, and ends, has freed a block in front of a node. -/
theorem listForEachSafe_sweepAt_freed (hr : IsRing m.links ll l)
    (hsees : ∃ x ∈ l, markAt rest m (containerOf x) = 1)
    (hrun : gcSweep rest ll fuel m = some m') :
    ∃ x ∈ l, m (containerOf x) ≠ none ∧ m' (containerOf x) = none := by
  rcases exists_second hr with ⟨w, hfirst, hw⟩
  rw [gcSweep, listForEachSafe] at hrun
  simp only [id_eq, hfirst, hw, Option.bind_eq_bind, Option.bind_some] at hrun
  exact forEachSafe_sweepAt_freed hr.path (List.nodup_cons.mp hr.nodup).1 hw hsees hrun

end Walk

/-! ## What a sweep does -/

section Sweep

variable {m : Memory} {rest : ℕ → ℕ} {ll fuel : ℕ} {live : List Alloc} {a b : Alloc} {t : List Call}

/-- No block lies a header in front of another: `malloc` returns multiples of 16, and a header has
72 bytes. -/
lemma containerOf_ne_of_aligned (ha : 16 ∣ a.node) (hb : 16 ∣ b.node) :
    containerOf a.node ≠ b.node := by
  unfold containerOf sub64 sizeofNode
  omega

/-- What `malloc` returned is what is on the list. -/
lemma aligned_foldl_after (ht : ∀ c ∈ t, ∀ a ∈ c.alloc, 16 ∣ a.node)
    (hlive : ∀ a ∈ live, 16 ∣ a.node) : ∀ a ∈ t.foldl after live, 16 ∣ a.node := by
  induction t generalizing live with
  | nil => exact hlive
  | cons c t ih =>
    rw [List.forall_mem_cons] at ht
    refine ih ht.2 ?_
    intro a ha
    cases c with
    | free ptr => exact hlive a (List.mem_of_mem_filter ha)
    | destroy => cases ha
    | _ =>
      rcases List.mem_append.mp ha with hnew | hold
      · exact ht.1 a (Option.mem_toList.mp hnew)
      · exact hlive a hold

theorem sweep_iff_of_represents (h : Represents ll m live) (haligned : ∀ a ∈ live, 16 ∣ a.node)
    (hfuel : live.length < fuel) :
    SweepExact rest ll fuel live m ↔
      (∀ a ∈ live, ¬Marked m a.node) ∧
      ∀ a ∈ live, markAt rest m (containerOf a.node) ≠ 1 := by
  constructor
  · rintro ⟨m', hrun, hswept⟩
    have hsees : ∀ a ∈ live, markAt rest m (containerOf a.node) ≠ 1 := by
      intro a ha hmark
      rcases listForEachSafe_sweepAt_freed h.ring ⟨a.node, List.mem_map_of_mem ha, hmark⟩ hrun with
        ⟨x, hx, hsome, hnone⟩
      rcases List.mem_map.mp hx with ⟨b, hb, rfl⟩
      rcases (hswept.freed _).mp hnone with habsent | ⟨c, hc, hat, -⟩
      · exact hsome habsent
      · exact containerOf_ne_of_aligned (haligned b hb) (haligned c hc) hat.symm
    have hsame : gcSweep rest ll fuel m = some m := by
      refine listForEachSafe_sweepAt h.ring (by simpa using hfuel) ?_
      intro x hx
      rcases List.mem_map.mp hx with ⟨b, hb, rfl⟩
      exact hsees b hb
    obtain rfl : m = m' := Option.some.inj (hsame.symm.trans hrun)
    refine ⟨?_, hsees⟩
    -- a marked node would have been freed, but nothing has
    intro a ha hmarked
    have hnone := (hswept.freed a.node).mpr (Or.inr ⟨a, ha, rfl, hmarked⟩)
    rcases h.exists_node ha with ⟨n, hn, -⟩
    rw [hnone] at hn
    cases hn
  · rintro ⟨hmarked, hsees⟩
    refine ⟨m, listForEachSafe_sweepAt h.ring (by simpa using hfuel) ?_, ?_, ?_⟩
    · intro x hx
      rcases List.mem_map.mp hx with ⟨b, hb, rfl⟩
      exact hsees b hb
    · rw [List.filter_eq_self.mpr (by simpa using hmarked)]
      exact h.ring
    · intro c
      constructor
      · exact Or.inl
      · rintro (hnone | ⟨a, ha, rfl, hmark⟩)
        · exact hnone
        · exact absurd hmark (hmarked a ha)

/-- **When a sweep removes exactly the marked nodes.** After `gc_list_init` and any allowed calls,
it does if and only if no node is marked, and no word that lies where the mark of a header in front
of a node would be is 1. -/
theorem sweepExact_iff {m₀ : Memory} {head : Node} (hhead : m₀ ll = some head)
    (hspace : ll + sizeofNode ≤ 2 ^ 64)
    (hc : Along (fun live c => some (after live c)) (Allowed ll) [] t)
    (haligned : ∀ c ∈ t, ∀ a ∈ c.alloc, 16 ∣ a.node) (hfuel : t.length < fuel) :
    ∃ m₁ m, gcListInit ll m₀ = some m₁ ∧ run (step ll fuel) m₁ t = some m ∧
      ∀ rest, SweepExact rest ll fuel (t.foldl after []) m ↔
        (∀ a ∈ t.foldl after [], ¬Marked m a.node) ∧
        ∀ a ∈ t.foldl after [], markAt rest m (containerOf a.node) ≠ 1 := by
  rcases gcListInit_represents hhead hspace with ⟨m₁, hinit, h₁⟩
  rcases run_represents h₁ hc (by simpa using hfuel) with ⟨m, hrun, h⟩
  refine ⟨m₁, m, hinit, hrun, ?_⟩
  intro rest
  refine sweep_iff_of_represents h (aligned_foldl_after haligned (by simp)) ?_
  exact lt_of_le_of_lt (length_foldl_after_le ..) (by simpa using hfuel)

end Sweep

/-- Two allocations, the first of them marked. -/
theorem sweepExact_iff_two :
    ∃ m₁ m,
      gcListInit 0x1000 (Function.update (fun _ => none) 0x1000 (some (filled 72))) = some m₁ ∧
      run (step 0x1000 4) m₁ [.malloc (some 0x2000) 32, .malloc (some 0x3000) 16, .mark 0x2048] =
        some m ∧
      ∀ rest, SweepExact rest 0x1000 4 [⟨0x3000, 16⟩, ⟨0x2000, 32⟩] m ↔
        (∀ a ∈ [⟨0x3000, 16⟩, ⟨0x2000, 32⟩], ¬Marked m (Alloc.node a)) ∧
        ∀ a ∈ [⟨0x3000, 16⟩, ⟨0x2000, 32⟩], markAt rest m (containerOf (Alloc.node a)) ≠ 1 :=
  sweepExact_iff (t := [.malloc (some 0x2000) 32, .malloc (some 0x3000) 16, .mark 0x2048])
    (Function.update_self ..) (by decide) (by decide) (by decide) (by decide)

/-- The marked one of two allocations outlives the sweep, when there are zeros in front of both. -/
theorem sweep_misses_marked :
    ∃ m₁ m,
      gcListInit 0x1000 (Function.update (fun _ => none) 0x1000 (some (filled 72))) = some m₁ ∧
      run (step 0x1000 4) m₁ [.malloc (some 0x2000) 32, .malloc (some 0x3000) 16, .mark 0x2048] =
        some m ∧
      Marked m 0x2000 ∧ gcSweep (fun _ => 0) 0x1000 4 m = some m ∧
      ¬SweepExact (fun _ => 0) 0x1000 4 [⟨0x3000, 16⟩, ⟨0x2000, 32⟩] m := by
  have hmarks : ((gcListInit 0x1000
      (Function.update (fun _ => none) 0x1000 (some (filled 72)))).bind fun m =>
        (run (step 0x1000 4) m [.malloc (some 0x2000) 32, .malloc (some 0x3000) 16,
          .mark 0x2048]).map fun m =>
            decide (Marked m 0x2000 ∧ ∀ a ∈ ([0x3000, 0x2000] : List ℕ),
              markAt (fun _ => 0) m (containerOf a) ≠ 1)) = some true := by
    decide
  have hhead : Function.update (fun _ => none) 0x1000 (some (filled 72)) 0x1000 =
      some (filled 72) := Function.update_self ..
  rcases gcListInit_represents hhead (by decide) with ⟨m₁, hinit, h₁⟩
  have hallowed : Along (fun live c => some (after live c)) (Allowed 0x1000) []
      [.malloc (some 0x2000) 32, .malloc (some 0x3000) 16, .mark 0x2048] := by
    decide
  have hfuel : ([] : List Alloc).length + 3 < 4 := by decide
  rcases run_represents h₁ hallowed hfuel with ⟨m, hrun, h⟩
  rw [hinit, Option.bind_some, hrun, Option.map_some, Option.some.injEq, decide_eq_true_eq]
    at hmarks
  refine ⟨m₁, m, hinit, hrun, hmarks.1, ?_, ?_⟩
  · exact listForEachSafe_sweepAt h.ring (by decide) hmarks.2
  · intro hexact
    have hmarked := ((sweep_iff_of_represents h (by decide) (by decide)).mp hexact).1
    exact hmarked ⟨0x2000, 32⟩ (by decide) hmarks.1

end KanekFs.Gc
