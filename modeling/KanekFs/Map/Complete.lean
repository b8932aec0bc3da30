import KanekFs.Map.Find

/-!
# The search finds every gap

When a gap lies inside the window, `bm_find` does not pass it. The scan may end earlier, at a byte
that holds as many clear bits as are still missing, but it does not give up and it does not look
behind the gap.

* `findLoop_append`: the bytes behind the one where the scan ends make no difference.
* `exists_hit_of_gap`: as the scan goes through the bytes of a gap, what it still misses never
  exceeds the rest of the gap.
* `find_misses_no_gap` is the result.
-/

namespace KanekFs.Map

open Bytes Word

/-- A scan that has ended does not see the bytes that follow. -/
lemma findLoop_append {gap_size : ℕ} {rest : List Byte} {st : FindSt} {r : ℤ × ℕ}
    (more : List Byte) (h : findLoop gap_size rest st = some r) :
    findLoop gap_size (rest ++ more) st = some r := by
  induction rest generalizing st with
  | nil => simp [findLoop] at h
  | cons byte rest ih =>
    rw [List.cons_append]
    unfold findLoop at h ⊢
    dsimp only at h ⊢
    -- the byte is the same, so the scan takes the same branch
    split_ifs at h ⊢ with h₁ h₂ h₃ h₄ h₅
    all_goals first | exact h | exact ih h

lemma bmFind_append {bm : List Byte} {total_bits bit_address count gap_size found_address : ℕ}
    {r : ℤ × ℕ} (more : List Byte)
    (h : bmFind bm total_bits bit_address count gap_size found_address = some r) :
    bmFind (bm ++ more) total_bits bit_address count gap_size found_address = some r := by
  unfold bmFind at h ⊢
  by_cases hargs : bit_address ≥ total_bits ∨ gap_size = 0 ∨ count = 0 ∨ gap_size > count
  · rwa [if_pos hargs] at h ⊢
  · rw [if_neg hargs] at h ⊢
    rw [List.drop_append]
    exact findLoop_append _ h

section Gap

variable {bm : List Byte} {bit_address gap_size stop g : ℕ}

/-- A gap that reaches into byte `j` and beyond it is the end of byte `j`. -/
lemma le_tailLen_of_gap {j : ℕ} (hg : bit_address ≤ g)
    (hclear : ClearBits bm g gap_size) (hbefore : g < 8 * (j + 1))
    (hbeyond : 8 * (j + 1) ≤ g + gap_size) :
    8 * (j + 1) - max g (8 * j) ≤ tailLen bm bit_address j := by
  apply le_tailLen
  · unfold scanStart
    omega
  · exact hclear.mono (by omega) (by omega)

/-- Up to the byte in which a gap ends, the scan has ended or what it misses is no more than the
rest of the gap. -/
lemma carried_of_gap (hgap : 1 ≤ gap_size) (hg : bit_address ≤ g) (hend : g + gap_size ≤ stop)
    (hclear : ClearBits bm g gap_size) {j : ℕ} (hj : bit_address / 8 ≤ j)
    (hlast : 8 * j < g + gap_size) :
    (∃ s j' n, j' < j ∧ Carried bm bit_address gap_size stop s j' n ∧
        HasRun bm bit_address j' n) ∨
      ∃ s n, Carried bm bit_address gap_size stop s j n ∧
        (g < 8 * j → 8 * j + n ≤ g + gap_size) := by
  induction j, hj using Nat.le_induction with
  | base => exact .inr ⟨_, _, Carried.start, fun h => by omega⟩
  | succ j hj ih =>
    rcases ih (by omega) with ⟨s, j', n, hlt, hit⟩ | ⟨s, n, h, hmiss⟩
    · exact .inl ⟨s, j', n, by omega, hit⟩
    by_cases hrun : HasRun bm bit_address j n
    · exact .inl ⟨s, j, n, by omega, h, hrun⟩
    have hn := h.missing_pos hgap
    have hlt := tailLen_lt_of_not_hasRun hj hrun
    by_cases htail : tailLen bm bit_address j = 0
    · -- the byte ends in a set bit: the gap is behind it, so there is room for it
      have hbehind : 8 * (j + 1) ≤ g := by
        by_contra hbefore
        have htaillen := le_tailLen_of_gap (j := j) hg hclear (by omega) (by omega)
        omega
      have hroom : 8 * (j + 1) + gap_size ≤ stop := by omega
      exact .inr ⟨_, _, Carried.reset h hrun htail hroom, fun hlt => by omega⟩
    · -- the clear bits at its end include those of the gap
      refine .inr ⟨_, _, Carried.carry h hrun (by omega), ?_⟩
      intro hbefore
      have htaillen := le_tailLen_of_gap hg hclear hbefore (by omega)
      by_cases hin : g < 8 * j
      · have := hmiss hin
        omega
      · omega

/-- At or before the byte in which a gap ends, a byte holds what the scan misses. -/
lemma exists_hit_of_gap (hgap : 1 ≤ gap_size) (hg : bit_address ≤ g) (hend : g + gap_size ≤ stop)
    (hclear : ClearBits bm g gap_size) :
    ∃ s j n, j ≤ (g + gap_size - 1) / 8 ∧ Carried bm bit_address gap_size stop s j n ∧
      HasRun bm bit_address j n := by
  obtain ⟨s, j, n, hlt, hit⟩ | ⟨s, n, h, hmiss⟩ := carried_of_gap hgap hg hend hclear
    (j := (g + gap_size - 1) / 8) (by omega) (by omega)
  · exact ⟨s, j, n, by omega, hit⟩
  · refine ⟨s, _, n, le_rfl, h, ?_⟩
    have hn := h.missing_pos hgap
    by_cases hin : g < 8 * ((g + gap_size - 1) / 8)
    · -- the last bits of the gap are at the beginning of the byte
      have hrest := hmiss hin
      refine ⟨8 * ((g + gap_size - 1) / 8), by unfold scanStart; omega, by omega, ?_⟩
      exact hclear.mono (by omega) (by omega)
    · -- the whole gap is in the byte
      exact ⟨g, by unfold scanStart; omega, by omega, hclear.mono le_rfl (by omega)⟩

end Gap

/-- A search that meets a gap in the buffer ends with 0. -/
lemma exists_bmFind_of_gap {bm : List Byte} {total_bits bit_address count gap_size g : ℕ}
    (found_address : ℕ) (hin : bit_address < total_bits) (hgap : 1 ≤ gap_size)
    (hfit : gap_size ≤ count) (hgap31 : gap_size < 2 ^ 31) (h64 : bit_address + count < 2 ^ 64)
    (hg : bit_address ≤ g) (hend : g + gap_size ≤ min (bit_address + count) total_bits)
    (hclear : ClearBits bm g gap_size) (hlen : (g + gap_size - 1) / 8 < bm.length) :
    ∃ addr, bmFind bm total_bits bit_address count gap_size found_address = some (0, addr) := by
  obtain ⟨s, j, n, hj, h, hrun⟩ := exists_hit_of_gap hgap hg hend hclear
  obtain ⟨addr, haddr⟩ : ∃ addr, ScanAddr bm bit_address s j n addr := exists_scanAddr hrun
  refine ⟨addr, (bmFind_eq_iff found_address addr hin hgap hfit h64 hgap31).mpr ?_⟩
  exact ⟨s, j, n, by have := h.le; omega, by omega, h, hrun, haddr⟩

/-- **No gap is missed**: if `gap_size` clear bits lie together in the window, the search returns
0, and it does so on the part of the buffer that ends with the byte where these bits end. -/
theorem find_misses_no_gap (bm : List Byte)
    (total_bits bit_address count gap_size found_address g : ℕ)
    (hcov : total_bits ≤ 8 * bm.length) (hin : bit_address < total_bits) (hgap : 1 ≤ gap_size)
    (hfit : gap_size ≤ count) (hgap31 : gap_size < 2 ^ 31) (h64 : bit_address + count < 2 ^ 64)
    (hg : bit_address ≤ g) (hend : g + gap_size ≤ min (bit_address + count) total_bits)
    (hclear : ClearBits bm g gap_size) :
    ∃ addr, bmFind bm total_bits bit_address count gap_size found_address = some (0, addr) ∧
      bmFind (bm.take ((g + gap_size - 1) / 8 + 1)) total_bits bit_address count gap_size
        found_address = some (0, addr) := by
  have hlen : (g + gap_size - 1) / 8 < bm.length := by omega
  -- the bits up to the end of the gap are those of the whole buffer
  have hclear' : ClearBits (bm.take ((g + gap_size - 1) / 8 + 1)) g gap_size := by
    intro i h₁ h₂
    rw [bitAt_take_of_lt bm (by omega)]
    exact hclear i h₁ h₂
  obtain ⟨addr, hret⟩ := exists_bmFind_of_gap found_address hin hgap hfit hgap31 h64 hg hend
    hclear' (by rw [List.length_take]; omega)
  refine ⟨addr, ?_, hret⟩
  have hall := bmFind_append (bm.drop ((g + gap_size - 1) / 8 + 1)) hret
  rwa [List.take_append_drop] at hall

/-- Four clear bits across a byte boundary. -/
theorem find_misses_no_gap_two_bytes : ∃ addr,
    bmFind [0x3f#8, 0xfc#8, 0x00#8] 24 0 24 4 0 = some (0, addr) ∧
      bmFind ([0x3f#8, 0xfc#8, 0x00#8].take ((6 + 4 - 1) / 8 + 1)) 24 0 24 4 0 = some (0, addr) :=
  find_misses_no_gap [0x3f#8, 0xfc#8, 0x00#8] 24 0 24 4 0 6 (by decide) (by decide) (by decide)
    (by decide) (by decide) (by decide) (by decide) (by decide)
    (by intro i h₁ h₂; have hi : i = 6 ∨ i = 7 ∨ i = 8 ∨ i = 9 := by omega
        rcases hi with rfl | rfl | rfl | rfl <;> decide)

end KanekFs.Map
