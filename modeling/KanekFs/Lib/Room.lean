import Mathlib.Data.Finset.Interval
import Mathlib.Order.Interval.Finset.Nat
import Mathlib.Tactic.Lemma

/-!
# Blocks in an address space

A block is a stretch of addresses. `Packed N l` says that the blocks `l` lie below `N` and do not
overlap, and `Packed.sum_length_le` that their lengths then add up to at most `N`.
-/

namespace Room

/-- The addresses from `start` on, `length` of them. -/
structure Block where
  start : ℕ
  length : ℕ
deriving DecidableEq

/-- No address is in both. -/
def Block.Apart (a b : Block) : Prop :=
  a.start + a.length ≤ b.start ∨ b.start + b.length ≤ a.start

instance (a b : Block) : Decidable (a.Apart b) :=
  inferInstanceAs (Decidable (a.start + a.length ≤ b.start ∨ b.start + b.length ≤ a.start))

/-- The blocks `l` lie side by side below `N`. -/
structure Packed (N : ℕ) (l : List Block) : Prop where
  apart : l.Pairwise Block.Apart
  below : ∀ b ∈ l, b.start + b.length ≤ N

variable {N : ℕ} {b : Block} {l l' : List Block}

namespace Block

/-- The addresses of a block. -/
def cells (b : Block) : Finset ℕ := Finset.Ico b.start (b.start + b.length)

@[simp] lemma card_cells : b.cells.card = b.length := by
  simp [cells]

lemma Apart.disjoint {a b : Block} (h : a.Apart b) : Disjoint a.cells b.cells := by
  rw [Finset.disjoint_left]
  intro i ha hb
  simp only [cells, Finset.mem_Ico] at ha hb
  rcases h with h | h <;> omega

end Block

/-- The addresses of all the blocks. -/
def cells (l : List Block) : Finset ℕ := l.foldr (fun b s => b.cells ∪ s) ∅

lemma mem_cells {i : ℕ} : i ∈ cells l ↔ ∃ b ∈ l, i ∈ b.cells := by
  induction l with
  | nil => simp [cells]
  | cons b l ih =>
    rw [show cells (b :: l) = b.cells ∪ cells l from rfl, Finset.mem_union, ih]
    simp

lemma card_cells (h : l.Pairwise Block.Apart) : (cells l).card = (l.map Block.length).sum := by
  induction h with
  | nil => rfl
  | @cons b l hb _ ih =>
    have hdisj : Disjoint b.cells (cells l) := by
      rw [Finset.disjoint_right]
      intro i hi
      rcases mem_cells.mp hi with ⟨c, hc, hic⟩
      exact Finset.disjoint_right.mp (hb c hc).disjoint hic
    rw [show cells (b :: l) = b.cells ∪ cells l from rfl, Finset.card_union_of_disjoint hdisj,
      Block.card_cells, ih, List.map_cons, List.sum_cons]

namespace Packed

lemma cons (h : Packed N l) (hb : b.start + b.length ≤ N) (hapart : ∀ c ∈ l, b.Apart c) :
    Packed N (b :: l) :=
  ⟨List.pairwise_cons.mpr ⟨hapart, h.apart⟩, List.forall_mem_cons.mpr ⟨hb, h.below⟩⟩

lemma sublist (h : Packed N l) (hsub : l'.Sublist l) : Packed N l' :=
  ⟨h.apart.sublist hsub, fun b hb => h.below b (hsub.subset hb)⟩

/-- **Blocks that do not overlap fill at most the space they are in.** -/
theorem sum_length_le (h : Packed N l) : (l.map Block.length).sum ≤ N := by
  rw [← card_cells h.apart]
  have hsub : cells l ⊆ Finset.range N := by
    intro i hi
    rcases mem_cells.mp hi with ⟨b, hb, hib⟩
    have hbelow := h.below b hb
    simp only [Block.cells, Finset.mem_Ico] at hib
    exact Finset.mem_range.mpr (by omega)
  simpa using Finset.card_le_card hsub

end Packed

end Room
