import KanekFs.Cache.Table

/-!
# Room in a full cache

When no slot is empty, `cache_element_map` evicts the element that was used least among those that
are not pinned. The counters have 64 bits, and the least one so far is kept in an `int` that starts
at `INT_MAX`: an element whose counter is not below `INT_MAX` is never chosen.

* `Searched` is the invariant of the search, `Searched.step` one iteration and `lruLoop_spec` the
  run over all slots.
* `lruVictim_cases` is what the search ends with.
* `fullMaps_iff` says when a call on a full cache does what it is for.
-/

namespace KanekFs.Cache

open Word

variable {α ω : Type*}

/-! ## The search -/

/-- The element in slot `i` is not pinned, was not used more than any other such element, and less
than those before it. -/
structure FirstLeast (xs : List (Option (Element α))) (i : ℕ) (el : Element α) : Prop where
  self : xs[i]? = some (some el)
  unpinned : el.ce_flags.pin = false
  least : ∀ j el', xs[j]? = some (some el') → el'.ce_flags.pin = false →
    el.ce_access_count ≤ el'.ce_access_count ∧
      (j < i → el.ce_access_count < el'.ce_access_count)

/-- The state of the search when it has seen the slots `xs`. -/
inductive Searched (xs : List (Option (Element α))) : Lru → Prop
  | nothing (hhigh : ∀ (j : ℕ) (el : Element α), xs[j]? = some (some el) →
      el.ce_flags.pin = false → 2 ^ 31 - 1 ≤ el.ce_access_count) : Searched xs Lru.start
  | found {i : ℕ} {el : Element α} (hleast : FirstLeast xs i el)
      (hlow : el.ce_access_count < 2 ^ 31 - 1) :
      Searched xs ⟨el.ce_access_count, some i⟩

section Search

variable {xs : List (Option (Element α))} {el el' : Element α} {i : ℕ}

/-- A slot of a longer list is an old one or the new one. -/
lemma getElem?_snoc {j : ℕ} {o : Option (Element α)}
    (h : (xs ++ [some el])[j]? = some o) : (j < xs.length ∧ xs[j]? = some o) ∨
      (j = xs.length ∧ o = some el) := by
  rcases Nat.lt_trichotomy j xs.length with hlt | rfl | hlt
  · rw [List.getElem?_append_left hlt] at h
    exact .inl ⟨hlt, h⟩
  · rw [List.getElem?_concat_length, Option.some.injEq] at h
    exact .inr ⟨rfl, h.symm⟩
  · rw [List.getElem?_append_right hlt.le, List.getElem?_singleton, if_neg (by omega)] at h
    simp at h

lemma FirstLeast.lt_length (h : FirstLeast xs i el) : i < xs.length :=
  (List.getElem?_eq_some_iff.mp h.self).1

/-- An element that is pinned, or was used at least as much, changes nothing. -/
lemma FirstLeast.keep (h : FirstLeast xs i el)
    (hel' : el'.ce_flags.pin = false → el.ce_access_count ≤ el'.ce_access_count) :
    FirstLeast (xs ++ [some el']) i el where
  self := by rw [List.getElem?_append_left h.lt_length, h.self]
  unpinned := h.unpinned
  least j e hj hpin := by
    have hi := h.lt_length
    rcases getElem?_snoc hj with ⟨-, hj⟩ | ⟨rfl, heq⟩
    · exact h.least j e hj hpin
    · obtain rfl : e = el' := by simpa using heq
      exact ⟨hel' hpin, fun hlt => by omega⟩

/-- An unpinned element that was used less than all before it is the new choice. -/
lemma firstLeast_snoc (hpin : el.ce_flags.pin = false)
    (hless : ∀ (j : ℕ) (el' : Element α), xs[j]? = some (some el') →
      el'.ce_flags.pin = false → el.ce_access_count < el'.ce_access_count) :
    FirstLeast (xs ++ [some el]) xs.length el where
  self := List.getElem?_concat_length
  unpinned := hpin
  least j e hj hpin' := by
    rcases getElem?_snoc hj with ⟨-, hj⟩ | ⟨rfl, heq⟩
    · have hlt := hless j e hj hpin'
      exact ⟨hlt.le, fun _ => hlt⟩
    · obtain rfl : e = el := by simpa using heq
      exact ⟨le_rfl, fun hlt => absurd hlt (Nat.lt_irrefl _)⟩

/-- One iteration of the search. -/
lemma Searched.step {l : Lru} (h : Searched xs l) (el : Element α) :
    Searched (xs ++ [some el]) (l.step xs.length el.ce_flags el.ce_access_count) := by
  cases h with
  | nothing hhigh =>
    have hmin : (Lru.start.min % 2 ^ 64).toNat = 2 ^ 31 - 1 := by decide
    rw [Lru.step, hmin]
    by_cases hchoose : el.ce_flags.pin = false ∧ el.ce_access_count < 2 ^ 31 - 1
    · rw [if_pos hchoose, toInt32_of_lt (by omega)]
      refine .found (firstLeast_snoc hchoose.1 fun j el' hj hpin => ?_) hchoose.2
      have hhigh' := hhigh j el' hj hpin
      omega
    · rw [if_neg hchoose]
      refine .nothing ?_
      intro j el' hj hpin
      rcases getElem?_snoc hj with ⟨-, hj⟩ | ⟨rfl, heq⟩
      · exact hhigh j el' hj hpin
      · obtain rfl : el' = el := by simpa using heq
        by_contra hlow
        exact hchoose ⟨hpin, by omega⟩
  | @found i best hleast hlow =>
    -- the least count so far is below `INT_MAX`, so the comparison is that of the counts
    have hmin : ((best.ce_access_count : ℤ) % 2 ^ 64).toNat = best.ce_access_count := by omega
    rw [Lru.step]
    dsimp only
    rw [hmin]
    by_cases hchoose : el.ce_flags.pin = false ∧ el.ce_access_count < best.ce_access_count
    · rw [if_pos hchoose, toInt32_of_lt (by omega)]
      refine .found (firstLeast_snoc hchoose.1 fun j el' hj hpin => ?_) (by omega)
      have hle := (hleast.least j el' hj hpin).1
      omega
    · rw [if_neg hchoose]
      refine .found (hleast.keep fun hpin => ?_) hlow
      by_contra hlt
      exact hchoose ⟨hpin, by omega⟩

/-- The run of the search over the slots `rest`, when it has seen `xs`. -/
lemma lruLoop_spec {l : Lru} (rest : List (Option (Element α))) (hfull : ∀ o ∈ rest, o ≠ none)
    (h : Searched xs l) :
    ∃ l', lruLoop rest xs.length l = some l' ∧ Searched (xs ++ rest) l' := by
  induction rest generalizing xs l with
  | nil => exact ⟨l, rfl, by rwa [List.append_nil]⟩
  | cons o rest ih =>
    cases o with
    | none => exact absurd rfl (hfull none (by simp))
    | some el =>
      obtain ⟨l', hl', hsearched⟩ := ih (fun o ho => hfull o (by simp [ho])) (h.step el)
      rw [List.length_append, List.length_singleton] at hl'
      exact ⟨l', hl', by simpa using hsearched⟩

end Search

/-! ## A full cache -/

section Full

variable {cb : Callbacks α ω} {env : AllocEnv} {blank : α} {c : Table α ω}

/-- The element in slot `i` is the one to evict. -/
def Table.FirstLeast (c : Table α ω) (i : ℕ) (el : Element α) : Prop :=
  Cache.FirstLeast c.ca_elements_ptr i el

/-- What the search in a full cache ends with: nothing, where every unpinned element was used
`INT_MAX` times or more, or the element to evict. -/
lemma lruVictim_cases (hfull : firstEmpty c = none) :
    (lruVictim c = none ∧ ∀ i el, c.slot i = some el → el.ce_flags.pin = false →
        2 ^ 31 - 1 ≤ el.ce_access_count) ∨
      ∃ i el, lruVictim c = some i ∧ c.FirstLeast i el ∧ el.ce_access_count < 2 ^ 31 - 1 := by
  have hnone : ∀ o ∈ c.ca_elements_ptr, o ≠ none := by
    intro o ho
    have hsome := List.findIdx?_eq_none_iff.mp hfull o ho
    rintro rfl
    simp at hsome
  have hstart : Searched ([] : List (Option (Element α))) Lru.start := .nothing (by simp)
  obtain ⟨l, hl, hsearched⟩ := lruLoop_spec c.ca_elements_ptr hnone hstart
  rw [List.length_nil] at hl
  rw [List.nil_append] at hsearched
  have hvictim : lruVictim c = l.sub := by rw [lruVictim, hl, Option.bind_some]
  rw [hvictim]
  cases hsearched with
  | nothing hhigh => exact .inl ⟨rfl, fun i el hel => hhigh i el (getElem?_of_slot hel)⟩
  | found hleast hlow => exact .inr ⟨_, _, rfl, hleast, hlow⟩

lemma Table.FirstLeast.slot {i : ℕ} {el : Element α} (h : c.FirstLeast i el) :
    c.slot i = some el := by
  rw [Table.slot, Cache.FirstLeast.self h]
  rfl

/-- The element to evict is unique. -/
lemma Table.FirstLeast.unique {i j : ℕ} {el el' : Element α} (h : c.FirstLeast i el)
    (h' : c.FirstLeast j el') : i = j ∧ el = el' := by
  have h₁ := Cache.FirstLeast.least h j el' h'.self h'.unpinned
  have h₂ := Cache.FirstLeast.least h' i el h.self h.unpinned
  obtain rfl : i = j := by omega
  exact ⟨rfl, slot_inj h.slot h'.slot⟩

variable (cb env blank c) in
/-- A call of `cache_element_map` on a full cache does what it is for: if some element is not
pinned, one that was used least is evicted and a new element takes its slot, the others stay; and
there is no result without an element unless all are pinned. -/
def FullMaps : Prop :=
  ((∃ i el, c.slot i = some el ∧ el.ce_flags.pin = false) →
    ∃ sub el p c₁ c', c.slot sub = some el ∧ el.ce_flags.pin = false ∧
      (∀ j el', c.slot j = some el' → el'.ce_flags.pin = false →
        el.ce_access_count ≤ el'.ce_access_count) ∧
      cacheElementEvictByIdx cb sub c = some c₁ ∧
      cacheElementMap cb env blank c = some (c', some sub) ∧
      c'.slot sub = some (newElement p blank) ∧ ∀ j ≠ sub, c'.slot j = c.slot j) ∧
  ∀ c', cacheElementMap cb env blank c = some (c', none) →
    ∀ i el, c.slot i = some el → el.ce_flags.pin = true

/-- The call, when the search has found the element in slot `sub`. -/
lemma cacheElementMap_victim {sub : ℕ} (hfull : firstEmpty c = none)
    (hvictim : lruVictim c = some sub) :
    cacheElementMap cb env blank c =
      (cacheElementEvictByIdx cb sub c).map (fillSlot env blank sub) := by
  rw [cacheElementMap, hfull]
  simp only [hvictim]

/-- The eviction of an element whose mutex is free. -/
lemma exists_evictByIdx {i : ℕ} {el : Element α} (hel : c.slot i = some el)
    (hlock : el.ce_locked = false) :
    ∃ c₁, cacheElementEvictByIdx cb i c = some c₁ ∧ i < c₁.capacity ∧
      ∀ j ≠ i, c₁.slot j = c.slot j := by
  have hev : cacheElementEvictByIdx cb i c =
      some (dropSlot cb i (flushIfDirty cb el c.world).1 (flushIfDirty cb el c.world).2 c) := by
    simp only [cacheElementEvictByIdx, hel, hlock, Bool.false_eq_true, if_false]
  rcases evictByIdx_slot hev with ⟨hcap, hlt, -, hother⟩
  exact ⟨_, hev, hcap ▸ hlt, hother⟩

/-- An element that is left locked cannot be evicted. -/
lemma evictByIdx_locked {i : ℕ} {el : Element α} (hel : c.slot i = some el)
    (hlock : el.ce_locked = true) : cacheElementEvictByIdx cb i c = none := by
  simp only [cacheElementEvictByIdx, hel, hlock, if_true]

/-- The call, when the mutex of the element to evict is free. -/
lemma cacheElementMap_evicts {i : ℕ} {el : Element α} (hfull : firstEmpty c = none)
    (hvictim : lruVictim c = some i) (hel : c.slot i = some el) (hlock : el.ce_locked = false)
    (henv : env.Ok) :
    ∃ p c₁ c', cacheElementEvictByIdx cb i c = some c₁ ∧
      cacheElementMap cb env blank c = some (c', some i) ∧
      c'.slot i = some (newElement p blank) ∧ ∀ j ≠ i, c'.slot j = c.slot j := by
  obtain ⟨c₁, hev, hlt, hother⟩ : ∃ c₁, cacheElementEvictByIdx cb i c = some c₁ ∧
      i < c₁.capacity ∧ ∀ j ≠ i, c₁.slot j = c.slot j := exists_evictByIdx hel hlock
  obtain ⟨p, hp⟩ := Option.isSome_iff_exists.mp henv.1
  refine ⟨p, c₁, { c₁.setSlot i (some (newElement p blank)) with
    ca_elements_in_use := incInUse c₁.ca_elements_in_use }, hev, ?_, slot_setSlot_self hlt, ?_⟩
  · rw [cacheElementMap_victim hfull hvictim, hev, Option.map_some, fillSlot, hp, henv.2]
  · intro j hj
    exact (slot_setSlot_ne hj).trans (hother j hj)

/-- A call that finds no element to evict returns NULL: that is right where all are pinned. -/
lemma fullMaps_of_no_victim (hfull : firstEmpty c = none) (hvictim : lruVictim c = none) :
    FullMaps cb env blank c ↔ ∀ i el, c.slot i = some el → el.ce_flags.pin = true := by
  have hret : cacheElementMap cb env blank c = some (c, none) := by
    rw [cacheElementMap, hfull]
    simp only [hvictim]
  constructor
  · rintro ⟨-, hpinned⟩
    exact hpinned c hret
  · intro hpinned
    refine ⟨?_, fun _ _ => hpinned⟩
    rintro ⟨i, el, hel, hpin⟩
    rw [hpinned i el hel] at hpin
    simp at hpin

/-- A call that finds an element to evict makes room where the mutex of that one is free. -/
lemma fullMaps_of_victim {i : ℕ} {el : Element α} (hfull : firstEmpty c = none)
    (hvictim : lruVictim c = some i) (hleast : c.FirstLeast i el) (henv : env.Ok) :
    FullMaps cb env blank c ↔ el.ce_locked = false := by
  constructor
  · rintro ⟨hmaps, -⟩
    obtain ⟨sub, el', p, c₁, c', -, -, -, -, hret, -⟩ := hmaps ⟨i, el, hleast.slot, hleast.unpinned⟩
    by_contra hlock
    rw [Bool.not_eq_false] at hlock
    rw [cacheElementMap_victim hfull hvictim, evictByIdx_locked hleast.slot hlock] at hret
    simp at hret
  · intro hlock
    obtain ⟨p, c₁, c', hev, hret, hnew, hother⟩ :=
      cacheElementMap_evicts hfull hvictim hleast.slot hlock henv
    refine ⟨fun _ => ⟨i, el, p, c₁, c', hleast.slot, hleast.unpinned, ?_, hev, hret, hnew,
      hother⟩, ?_⟩
    · intro j el' hj hpin
      exact (hleast.least j el' (getElem?_of_slot hj) hpin).1
    · intro c₂ hnull
      rw [hret] at hnull
      simp at hnull

/-- **A full cache makes room** exactly when no element is unpinned, or the least used of the
unpinned ones was used fewer than `INT_MAX` times and its mutex is free. -/
theorem fullMaps_iff (cb : Callbacks α ω) (env : AllocEnv) (blank : α) (c : Table α ω)
    (hfull : firstEmpty c = none) (henv : env.Ok) :
    FullMaps cb env blank c ↔
      ((∃ i el, c.slot i = some el ∧ el.ce_flags.pin = false) →
        ∃ i el, c.FirstLeast i el ∧ el.ce_access_count < 2 ^ 31 - 1 ∧ el.ce_locked = false) := by
  rcases lruVictim_cases hfull with ⟨hnone, hhigh⟩ | ⟨i, el, hvictim, hleast, hlow⟩
  · rw [fullMaps_of_no_victim hfull hnone]
    constructor
    · rintro hpinned ⟨i, el, hel, hpin⟩
      rw [hpinned i el hel] at hpin
      simp at hpin
    · intro h i el hel
      by_contra hpin
      obtain ⟨j, el', hfirst, hlow, -⟩ := h ⟨i, el, hel, by simpa using hpin⟩
      have hcount := hhigh j el' hfirst.slot hfirst.unpinned
      omega
  · rw [fullMaps_of_victim hfull hvictim hleast henv]
    constructor
    · intro hlock _
      exact ⟨i, el, hleast, hlow, hlock⟩
    · intro h
      obtain ⟨j, el', hfirst, -, hlock⟩ := h ⟨i, el, hleast.slot, hleast.unpinned⟩
      obtain ⟨rfl, rfl⟩ := hleast.unique hfirst
      exact hlock

end Full

/-- A cache of one slot, with an unpinned element that was used `count` times. -/
def oneSlot (count : ℕ) : Table Unit Unit :=
  ⟨[some ⟨7, .mapped, count, false, ()⟩], 1, ()⟩

/-- The element was used five times: it is evicted. -/
theorem fullMaps_oneSlot : FullMaps ⟨none, none⟩ ⟨some 9, true⟩ () (oneSlot 5) := by
  refine (fullMaps_iff _ _ _ _ (by decide) (by decide)).mpr ?_
  intro _
  refine ⟨0, ⟨7, .mapped, 5, false, ()⟩, ⟨rfl, rfl, ?_⟩, by decide, rfl⟩
  intro j el' hj _
  -- there is no other slot
  rcases List.getElem?_eq_some_iff.mp hj with ⟨hlt, hel⟩
  obtain rfl : j = 0 := Nat.lt_one_iff.mp hlt
  obtain rfl : ⟨7, .mapped, 5, false, ()⟩ = el' := Option.some.inj hel
  exact ⟨le_rfl, fun h => absurd h (Nat.lt_irrefl 0)⟩

/-- After `2 ^ 31 - 1` uses the only element, which is not pinned, is in the way for ever. -/
theorem full_cache_stuck : ¬ FullMaps ⟨none, none⟩ ⟨some 9, true⟩ () (oneSlot (2 ^ 31 - 1)) := by
  rintro ⟨-, hpinned⟩
  have hret : cacheElementMap ⟨none, none⟩ ⟨some 9, true⟩ () (oneSlot (2 ^ 31 - 1)) =
      some (oneSlot (2 ^ 31 - 1), none) := rfl
  have hpin := hpinned _ hret 0 _ rfl
  revert hpin
  decide

end KanekFs.Cache
