import KanekFs.Page.Lifetime

/-!
# Mapping returns the blocks asked for

An element answers a call when it starts at the address asked for, counts at least the blocks
asked for, and has the memory for them (`HasBlocks`).

* `Durable` is a property of elements that only a map call can end, and `Durable.step` says so.
* `AllIntact` is what makes every hit right: an element starts at its key, and its memory is as
  large as it says. A call that fails on the way leaves an element without a page in the table,
  under a key of its own or with its old size; `Supplied` says that no step does so.
* `allIntact_step` and `allIntact_run`: such steps keep the table intact.
* `sync_hasBlocks_iff`: `pgcache_element_map_sync` forwards neither of its arguments, and answers a
  call if and only if block 0 was asked for (`AsksForFirst`).
* `mapping_right` puts the two together for every state of a run, and `failed_growth_is_returned`
  is why it needs `Supplied`.
-/

namespace KanekFs.Page

open Bytes Cache Run

/-! ## Definitions -/

/-- The bytes allocated for a page. -/
def PageMem.bytes : PageMem → ℕ
  | .mem l => kfsBlocksize * l.length
  | _ => 0

/-- An extent from block `addr` on, of at least `n` blocks and with the memory for them. -/
structure PageData.Answers (p : PageData) (addr : ℕ) (n : ℤ) : Prop where
  addr : p.pe_block_addr = addr
  blocks : n ≤ p.pe_num_blocks
  bytes : n * kfsBlocksize ≤ p.pe_mem_ptr.bytes

/-- There is an element in slot `i`, and it answers a call for `n` blocks from `addr` on. -/
def HasBlocks (c : PgCache) (i addr : ℕ) (n : ℤ) : Prop :=
  ∃ el, c.slot i = some el ∧ el.data.Answers addr n

/-- Both variants of a call return the blocks asked for, and the same element. -/
structure MapsRight (env : MapEnv) (w : Wait) (addr : ℕ) (n : ℤ) (c : PgCache) : Prop where
  map : ∀ c' i, pgcacheElementMap env addr n c = some (c', some i) → HasBlocks c' i addr n
  sync : ∀ c' i, pgcacheElementMapSync env w addr n c = some (c', some i) → HasBlocks c' i addr n
  same : ∀ c₁ c₂ i j, pgcacheElementMap env addr n c = some (c₁, some i) →
    pgcacheElementMapSync env w addr n c = some (c₂, some j) → i = j

/-- Every page that the call brings in gets its memory, of the size asked for. A page that is to
grow may fail to where it has no blocks yet. -/
def Supplied (c : PgCache) : Op → Prop
  | .map env addr n =>
    (findKey addr c = none → (mapSlot c).isSome → env.el.Ok →
      env.page_alloc = true ∧ env.read = true ∧ (0 < n → FitsInt n)) ∧
    ∀ i el, findKey addr c = some i → c.slot i = some el → el.data.pe_num_blocks < n →
      if env.page_alloc = true ∧ env.read = true then 0 < n → FitsInt n
      else el.data.pe_num_blocks ≤ 0
  | .mapZero env addr n =>
    findKey addr c = none → (mapSlot c).isSome → env.el.Ok →
      env.page_alloc = true ∧ (0 < n → FitsInt n)
  | _ => True

/-- Block 0 is what the call asks for: alone, or with blocks that are in the cache. -/
def AsksForFirst (addr : ℕ) (n : ℤ) (c : PgCache) : Prop :=
  addr = 0 ∧ (n ≤ 1 ∨
    ∃ i el, findKey 0 c = some i ∧ c.slot i = some el ∧ n ≤ el.data.pe_num_blocks)

/-- The next pass of the thread evicts the element. -/
def Leaving (el : PgElement) : Prop :=
  el.ce_flags.active = true ∧ el.ce_locked = false ∧ el.ce_flags.evict = true

/-- The passes of the thread during the wait leave the page of block 0 in the cache. -/
def FirstStays (w : Wait) (c : PgCache) : Prop :=
  w.passes = 0 ∨ ∀ i el, findKey 0 c = some i → c.slot i = some el → ¬ Leaving el

/-! ## What lasts -/

/-- A property of elements that access counts, flags and writes into a page do not end, as long as
a mark for eviction stays. -/
structure Durable (P : PgElement → Prop) : Prop where
  count : ∀ el k, P el → P { el with ce_access_count := k }
  flags : ∀ el (f : ElFlags), (el.ce_flags.evict = true → f.evict = true) → P el →
    P { el with ce_flags := f }
  write : ∀ el l ws, el.data.pe_mem_ptr = .mem l → P el →
    P { el with data := { el.data with pe_mem_ptr := .mem (writePage l ws) } }

@[simp] lemma length_writePage (l : List (List Byte)) (ws : List (ℕ × List Byte)) :
    (writePage l ws).length = l.length := by
  induction ws generalizing l with
  | nil => rfl
  | cons w ws ih => exact (ih _).trans (List.length_set ..)

section Durable

variable {P : PgElement → Prop} {i : ℕ} {c c' : PgCache} {op : Op}

lemma Durable.kept (hP : Durable P) : Kept callbacks (Each P) := by
  refine kept_each ?_
  intro el d h
  exact hP.flags _ _ id (hP.count el _ h)

lemma Durable.room (hP : Durable P) (h : Each P c)
    (hroom : c' = c ∨ ∃ sub, Room callbacks c sub c') : Each P c' := by
  rcases hroom with rfl | ⟨sub, hroom⟩
  · exact h
  · exact Room.kept hP.kept hroom h

lemma Durable.markFlags {f : ElFlags → ElFlags} (hP : Durable P) (h : Each P c)
    (hmark : markFlags f i c = some c')
    (hf : ∀ flags, flags.evict = true → (f flags).evict = true) : Each P c' :=
  h.markFlags (fun el => hP.flags el (f el.ce_flags) (hf el.ce_flags)) hmark

lemma Durable.clientWrite (hP : Durable P) {ws : List (ℕ × List Byte)} (h : Each P c)
    (hwrite : clientWrite i ws c = some c') : Each P c' := by
  unfold Page.clientWrite at hwrite
  cases hel : c.slot i with
  | none => simp [hel] at hwrite
  | some el =>
    cases hmem : el.data.pe_mem_ptr with
    | null => simp [hel, hmem] at hwrite
    | freed => simp [hel, hmem] at hwrite
    | mem l =>
      simp only [hel, hmem] at hwrite
      split_ifs at hwrite
      have hwritten := hP.write el l ws hmem (h i el hel)
      have hset := h.setSlot (lt_capacity_of_slot hel) hwritten
      exact hP.markFlags hset hwrite fun _ hevict => hevict

/-- Every step that is no map call. -/
theorem Durable.step (hP : Durable P) (h : Each P c)
    (hmap : ∀ env addr n r, op = .map env addr n →
      pgcacheElementMap env addr n c = some (c', r) → Each P c')
    (hzero : ∀ env addr n r, op = .mapZero env addr n →
      pgcacheElementMapZero env addr n c = some (c', r) → Each P c')
    (hstep : step c op = some c') : Each P c' := by
  cases op with
  | map env addr n =>
    rcases Option.map_eq_some_iff.mp hstep with ⟨⟨c₁, r⟩, hcall, rfl⟩
    exact hmap env addr n r rfl hcall
  | mapZero env addr n =>
    rcases Option.map_eq_some_iff.mp hstep with ⟨⟨c₁, r⟩, hcall, rfl⟩
    exact hzero env addr n r rfl hcall
  | write i ws => exact hP.clientWrite h hstep
  | markDirty i =>
    have hmark : cacheElementMarkDirty i c = some c' := hstep
    exact hP.markFlags h hmark fun _ hevict => hevict
  | markEviction i =>
    have hmark : cacheElementMarkEviction i c = some c' := hstep
    exact hP.markFlags h hmark fun _ _ => rfl
  | pin i =>
    have hmark : cacheElementPin i c = some c' := hstep
    exact hP.markFlags h hmark fun _ hevict => hevict
  | unpin i =>
    have hmark : cacheElementMarkUnpin i c = some c' := hstep
    exact hP.markFlags h hmark fun _ hevict => hevict
  | evict key => exact hP.kept.evict h hstep
  | pass => exact Option.some.inj hstep ▸ hP.kept.threadPass h

end Durable

/-! ## Intact elements -/

/-- An element starts at its key, and its memory is as large as it says. -/
structure Intact (el : PgElement) : Prop where
  addr : el.data.pe_block_addr = el.ce_id
  bytes : el.data.pe_num_blocks * kfsBlocksize ≤ el.data.pe_mem_ptr.bytes

def AllIntact (c : PgCache) : Prop := ∀ i el, c.slot i = some el → Intact el

lemma durable_intact : Durable Intact where
  count _ _ h := ⟨h.addr, h.bytes⟩
  flags _ _ _ h := ⟨h.addr, h.bytes⟩
  write el l ws hmem h := by
    refine ⟨h.addr, ?_⟩
    have hbytes := h.bytes
    rw [hmem] at hbytes
    simpa [PageMem.bytes] using hbytes

section Invariant

variable {env : MapEnv} {w : Wait} {addr i : ℕ} {n : ℤ} {c c' : PgCache} {el : PgElement}
  {op : Op} {r : Option ℕ}

lemma AllIntact.each (h : AllIntact c) : Each Intact c := h

lemma bytes_of_nonpos {m : PageMem} (hn : n ≤ 0) : n * kfsBlocksize ≤ m.bytes := by
  have hnonpos : n * (kfsBlocksize : ℤ) ≤ 0 :=
    mul_nonpos_of_nonpos_of_nonneg hn (Int.natCast_nonneg _)
  exact hnonpos.trans (Int.natCast_nonneg _)

/-- A page of the size that was computed for it has the blocks. -/
lemma le_bytes_of_length {l : List (List Byte)} (hl : l.length = intBlocks n)
    (hfits : 0 < n → FitsInt n) : n * kfsBlocksize ≤ (PageMem.mem l).bytes := by
  by_cases hn : 0 < n
  · simp only [PageMem.bytes, hl]
    push_cast
    rw [intBlocks_of_fits (hfits hn), Int.toNat_of_nonneg hn.le, mul_comm]
  · exact bytes_of_nonpos (not_lt.mp hn)

/-! ## Steps -/

/-- A call that finds its element fails only where the element is to grow. -/
lemma lt_of_map_none (hkey : findKey addr c = some i) (hel : c.slot i = some el)
    (h : pgcacheElementMap env addr n c = some (c', none)) : el.data.pe_num_blocks < n := by
  simp only [pgcacheElementMap, hkey, mapHit, hel] at h
  by_contra hn
  simp [not_lt.mp hn] at h

/-- Without a new element there is nothing to fill. -/
lemma room_of_noElement {o : Option ℕ} (hno : ¬ ((mapSlot c).isSome ∧ env.el.Ok))
    (h : cacheElementMap callbacks env.el PageData.zero c = some (c', o)) :
    o = none ∧ (c' = c ∨ ∃ sub, Room callbacks c sub c') := by
  cases o with
  | none => exact ⟨rfl, (cacheElementMap_none h).2⟩
  | some sub =>
    rcases cacheElementMap_new h with ⟨hel, -, -, hsub, -⟩
    exact absurd ⟨by simp [hsub], hel⟩ hno

lemma room_of_map (hkey : findKey addr c = none) (hno : ¬ ((mapSlot c).isSome ∧ env.el.Ok))
    (h : pgcacheElementMap env addr n c = some (c', r)) :
    c' = c ∨ ∃ sub, Room callbacks c sub c' := by
  simp only [pgcacheElementMap, hkey] at h
  rcases hmap : cacheElementMap callbacks env.el PageData.zero c with _ | ⟨c₁, o⟩
  · simp [hmap] at h
  · rcases room_of_noElement hno hmap with ⟨rfl, hroom⟩
    simp only [hmap, Option.some.injEq, Prod.mk.injEq] at h
    exact h.1 ▸ hroom

lemma room_of_mapZero (hkey : findKey addr c = none)
    (hno : ¬ ((mapSlot c).isSome ∧ env.el.Ok))
    (h : pgcacheElementMapZero env addr n c = some (c', r)) :
    c' = c ∨ ∃ sub, Room callbacks c sub c' := by
  simp only [pgcacheElementMapZero, hkey] at h
  rcases hmap : cacheElementMap callbacks env.el PageData.zero c with _ | ⟨c₁, o⟩
  · simp [hmap] at h
  · rcases room_of_noElement hno hmap with ⟨rfl, hroom⟩
    simp only [hmap, Option.some.injEq, Prod.mk.injEq] at h
    exact h.1 ▸ hroom

theorem allIntact_map (h : AllIntact c) (hc : Supplied c (.map env addr n))
    (hmap : pgcacheElementMap env addr n c = some (c', r)) : AllIntact c' := by
  cases pgcacheElementMap_effect hmap with
  | hit hkey hel hn =>
    exact h.each.setSlot (lt_capacity_of_slot hel) ⟨(h _ _ hel).addr, (h _ _ hel).bytes⟩
  | grown hkey hel hn hlock hok hself hother hworld =>
    have hsize := hc.2 _ _ hkey hel hn
    rw [if_pos hok] at hsize
    refine h.each.put ?_ hother
    intro e he
    obtain rfl := slot_inj hself he
    exact ⟨(h _ _ hel).addr, le_bytes_of_length (length_extentRead ..) hsize⟩
  | growFailed m hkey hel hfail hself hother =>
    have hnone := hc.2 _ _ hkey hel (lt_of_map_none hkey hel hmap)
    rw [if_neg hfail] at hnone
    refine h.each.put ?_ hother
    intro e he
    obtain rfl := slot_inj hself he
    -- there were no blocks, and whatever the pointer is now is enough
    exact ⟨(h _ _ hel).addr, bytes_of_nonpos hnone⟩
  | noElement hkey hno hroom => exact durable_intact.room h hroom
  | filled hkey hsub hroom hok hself hother hworld =>
    have hsize := (hc.1 hkey (by simp [hsub]) hok.1).2.2
    refine (durable_intact.room h (.inr ⟨_, hroom⟩)).put ?_ hother
    intro e he
    obtain rfl := slot_inj hself he
    exact ⟨rfl, le_bytes_of_length (length_extentRead ..) hsize⟩
  | fillFailed f hkey hroom hfail hself hother =>
    by_cases hnew : (mapSlot c).isSome ∧ env.el.Ok
    · rcases hc.1 hkey hnew.1 hnew.2 with ⟨halloc, hread, -⟩
      exact absurd ⟨halloc, hread⟩ hfail
    · exact durable_intact.room h (room_of_map hkey hnew hmap)

theorem allIntact_mapZero (h : AllIntact c) (hc : Supplied c (.mapZero env addr n))
    (hmap : pgcacheElementMapZero env addr n c = some (c', r)) : AllIntact c' := by
  cases pgcacheElementMapZero_effect hmap with
  | hit hkey hel =>
    exact h.each.setSlot (lt_capacity_of_slot hel) ⟨(h _ _ hel).addr, (h _ _ hel).bytes⟩
  | noElement hkey hno hroom => exact durable_intact.room h hroom
  | filled hkey hsub hroom hok hself hother =>
    have hsize := (hc hkey (by simp [hsub]) hok.1).2
    refine (durable_intact.room h (.inr ⟨_, hroom⟩)).put ?_ hother
    intro e he
    obtain rfl := slot_inj hself he
    exact ⟨rfl, le_bytes_of_length List.length_replicate hsize⟩
  | fillFailed hkey hroom hfail hself hother =>
    by_cases hnew : (mapSlot c).isSome ∧ env.el.Ok
    · have halloc := (hc hkey hnew.1 hnew.2).1
      simp [hfail] at halloc
    · exact durable_intact.room h (room_of_mapZero hkey hnew hmap)

/-- **One step.** -/
theorem allIntact_step (h : AllIntact c) (hc : Supplied c op) (hstep : step c op = some c') :
    AllIntact c' := by
  refine durable_intact.step h ?_ ?_ hstep
  · rintro env addr n r rfl hmap
    exact allIntact_map h hc hmap
  · rintro env addr n r rfl hmap
    exact allIntact_mapZero h hc hmap

/-- **Every run.** -/
theorem allIntact_run {cap : ℕ} {d : Disk} {t : List Op}
    (hC : Along step Supplied (pgcacheAlloc cap d) t) :
    Throughout step AllIntact (pgcacheAlloc cap d) t :=
  run_invariant (fun _ _ _ hs hc h => allIntact_step h hc hs) (each_cacheInit cap d) hC

/-! ## Results -/

/-- An intact element answers the calls for its key and for no more blocks than it has. -/
lemma Intact.answers_iff (h : Intact el) :
    el.data.Answers addr n ↔ addr = el.ce_id ∧ n ≤ el.data.pe_num_blocks := by
  constructor
  · intro ha
    exact ⟨ha.addr.symm.trans h.addr, ha.blocks⟩
  · rintro ⟨rfl, hn⟩
    exact ⟨h.addr, hn, (mul_le_mul_of_nonneg_right hn (Int.natCast_nonneg _)).trans h.bytes⟩

/-- `pgcache_element_map` returns the blocks asked for: found, grown or read. -/
theorem map_hasBlocks (h : AllIntact c) (hfits : FitsInt n)
    (hmap : pgcacheElementMap env addr n c = some (c', some i)) : HasBlocks c' i addr n := by
  cases pgcacheElementMap_effect hmap with
  | @hit _ el hkey hel hn =>
    rcases slot_of_findKey hkey with ⟨_, hel', rfl⟩
    obtain rfl := slot_inj hel hel'
    exact ⟨countHit el, slot_setSlot_self (lt_capacity_of_slot hel),
      (h i el hel).answers_iff.mpr ⟨rfl, hn⟩⟩
  | grown hkey hel hn hlock hok hself hother hworld =>
    rcases slot_of_findKey hkey with ⟨_, hel', rfl⟩
    obtain rfl := slot_inj hel hel'
    exact ⟨_, hself, (h i _ hel).addr, le_rfl,
      le_bytes_of_length (length_extentRead ..) fun _ => hfits⟩
  | filled hkey hsub hroom hok hself hother hworld =>
    exact ⟨_, hself, rfl, le_rfl, le_bytes_of_length (length_extentRead ..) fun _ => hfits⟩

/-- The slot of a result is where the key is, or where room is made for it. -/
lemma slot_of_map (hmap : pgcacheElementMap env addr n c = some (c', some i)) :
    ((findKey addr c).or (mapSlot c)) = some i := by
  cases pgcacheElementMap_effect hmap with
  | hit hkey hel hn => rw [hkey, Option.some_or]
  | grown hkey hel hn hlock hok hself hother hworld => rw [hkey, Option.some_or]
  | filled hkey hsub hroom hok hself hother hworld => rw [hkey, Option.none_or, hsub]

/-! ## The wait -/

/-- The element in slot `i` has the data `p`, and is not leaving. -/
def Stays (i : ℕ) (p : PageData) (c : PgCache) : Prop :=
  ∃ el, c.slot i = some el ∧ ¬ Leaving el ∧ el.data = p

lemma stays_threadSlot {p : PageData} (j : ℕ) (h : Stays i p c) :
    Stays i p (threadSlot callbacks c j) := by
  rcases h with ⟨el, hel, hstay, hdata⟩
  by_cases hij : i = j
  · subst hij
    simp only [threadSlot, hel]
    split_ifs with hskip hevict
    · exact ⟨el, hel, hstay, hdata⟩
    · simp only [not_or, Bool.not_eq_false, Bool.not_eq_true] at hskip
      exact absurd ⟨hskip.1, hskip.2, hevict⟩ hstay
    · refine ⟨_, slot_setSlot_self (lt_capacity_of_slot hel), fun hleave => hevict ?_, ?_⟩
      · exact (flushIfDirty_evict el c.world) ▸ hleave.2.2
      · rw [← hdata]
        unfold flushIfDirty
        split <;> rfl
  · -- the iteration is about another slot
    refine ⟨el, ?_, hstay, hdata⟩
    unfold threadSlot
    cases hj : c.slot j with
    | none => exact hel
    | some e =>
      dsimp only
      split_ifs
      · exact hel
      · exact (slot_dropSlot_ne hij).trans hel
      · exact (slot_setSlot_ne hij).trans hel

lemma stays_threadPasses {p : PageData} (k : ℕ) (h : Stays i p c) :
    Stays i p (threadPasses k c) := by
  induction k generalizing c with
  | zero => exact h
  | succ k ih => exact ih (threadPass_induction (fun _ j => stays_threadSlot j) h)

/-- What `pgcache_element_map_sync` returns is what mapping block 0 returned, after the wait. -/
lemma map_of_sync (hsync : pgcacheElementMapSync env w addr n c = some (c', some i)) :
    ∃ c₁, pgcacheElementMap env 0 1 c = some (c₁, some i) ∧ c' = threadPasses w.passes c₁ := by
  unfold pgcacheElementMapSync at hsync
  rcases hmap : pgcacheElementMap env 0 1 c with _ | ⟨c₁, _ | k⟩
  · simp [hmap] at hsync
  · simp [hmap] at hsync
  · simp only [hmap] at hsync
    split_ifs at hsync
    · simp [Option.map_eq_some_iff] at hsync
    · simp only [Option.some.injEq, Prod.mk.injEq] at hsync
      rcases hsync with ⟨rfl, rfl⟩
      exact ⟨c₁, rfl, rfl⟩

/-- The page of block 0, as it is mapped, answers the calls for block 0 and for what there is. -/
lemma first_answers (h : AllIntact c)
    (hmap : pgcacheElementMap env 0 1 c = some (c', some i)) :
    ∃ el, c'.slot i = some el ∧ (∀ addr n, el.data.Answers addr n ↔ AsksForFirst addr n c) ∧
      (Leaving el → ∃ old, findKey 0 c = some i ∧ c.slot i = some old ∧ Leaving old) := by
  have hone : 0 < (1 : ℤ) → FitsInt 1 := fun _ => by
    unfold FitsInt kfsBlocksize
    omega
  cases pgcacheElementMap_effect hmap with
  | @hit _ el hkey hel hn =>
    rcases slot_of_findKey hkey with ⟨_, hel', hid⟩
    obtain rfl := slot_inj hel hel'
    have hintact : Intact (countHit el) := ⟨(h i el hel).addr, (h i el hel).bytes⟩
    refine ⟨countHit el, slot_setSlot_self (lt_capacity_of_slot hel), ?_,
      fun hleave => ⟨el, hkey, hel, hleave⟩⟩
    intro addr n
    rw [hintact.answers_iff]
    refine and_congr (by rw [← hid]; rfl) ⟨fun hle => .inr ⟨i, el, hkey, hel, hle⟩, ?_⟩
    rintro (hle | ⟨j, e, hj, he, hle⟩)
    · exact hle.trans hn
    · obtain rfl := Option.some.inj (hkey.symm.trans hj)
      obtain rfl := slot_inj hel he
      exact hle
  | @grown _ el _ hkey hel hn hlock hok hself hother hworld =>
    rcases slot_of_findKey hkey with ⟨_, hel', hid⟩
    obtain rfl := slot_inj hel hel'
    have hintact : Intact { countHit el with data := { el.data with
        pe_mem_ptr := .mem (extentRead (growDisk el c.world) 0 1), pe_num_blocks := 1 } } :=
      ⟨(h i el hel).addr, le_bytes_of_length (length_extentRead ..) hone⟩
    refine ⟨_, hself, ?_, fun hleave => ⟨el, hkey, hel, hleave⟩⟩
    intro addr n
    rw [hintact.answers_iff]
    refine and_congr (by rw [← hid]; rfl) ⟨.inl, ?_⟩
    rintro (hle | ⟨j, e, hj, he, hle⟩)
    · exact hle
    · -- it had fewer blocks than one
      obtain rfl := Option.some.inj (hkey.symm.trans hj)
      obtain rfl := slot_inj hel he
      exact hle.trans hn.le
  | @filled _ c₁ _ p hkey hsub hroom hok hself hother hworld =>
    have hintact : Intact { newElement p PageData.zero with
        ce_id := 0, data := ⟨.mem (extentRead c₁.world 0 1), 0, 1⟩ } :=
      ⟨rfl, le_bytes_of_length (length_extentRead ..) hone⟩
    refine ⟨_, hself, ?_, fun hleave => absurd hleave.2.2 Bool.false_ne_true⟩
    intro addr n
    rw [hintact.answers_iff]
    refine and_congr Iff.rfl ⟨.inl, ?_⟩
    rintro (hle | ⟨j, e, hj, -⟩)
    · exact hle
    · simp [hkey] at hj

/-- **`pgcache_element_map_sync` answers a call if and only if block 0 was asked for**, unless the
page is evicted during the wait. -/
theorem sync_hasBlocks_iff (h : AllIntact c) (hstay : FirstStays w c)
    (hsync : pgcacheElementMapSync env w addr n c = some (c', some i)) :
    HasBlocks c' i addr n ↔ AsksForFirst addr n c := by
  rcases map_of_sync hsync with ⟨c₁, hmap, rfl⟩
  rcases first_answers h hmap with ⟨el, hel, hanswers, hleave⟩
  have hafter : ∃ el', (threadPasses w.passes c₁).slot i = some el' ∧ el'.data = el.data := by
    rcases hstay with hzero | hstay
    · rw [hzero]
      exact ⟨el, hel, rfl⟩
    · have hnot : ¬ Leaving el := fun hl => by
        rcases hleave hl with ⟨old, hkey, hold, hlold⟩
        exact hstay i old hkey hold hlold
      rcases stays_threadPasses w.passes ⟨el, hel, hnot, rfl⟩ with ⟨el', hel', -, hdata⟩
      exact ⟨el', hel', hdata⟩
  rcases hafter with ⟨el', hel', hdata⟩
  rw [← hanswers, ← hdata]
  constructor
  · rintro ⟨e, he, ha⟩
    exact slot_inj he hel' ▸ ha
  · intro ha
    exact ⟨el', hel', ha⟩

/-- Both variants find the first page in the same slot. -/
lemma same_slot {c₁ c₂ : PgCache} {j : ℕ} (hmap : pgcacheElementMap env 0 n c = some (c₁, some i))
    (hsync : pgcacheElementMapSync env w addr n c = some (c₂, some j)) : i = j := by
  rcases map_of_sync hsync with ⟨c₃, hmap', -⟩
  exact Option.some.inj ((slot_of_map hmap).symm.trans (slot_of_map hmap'))

/-- Both variants are right exactly when `pgcache_element_map_sync`, if it returns an element, was
asked for block 0. -/
theorem AllIntact.mapsRight_iff (h : AllIntact c) (hfits : FitsInt n) (hstay : FirstStays w c) :
    MapsRight env w addr n c ↔
      ((∃ c' i, pgcacheElementMapSync env w addr n c = some (c', some i)) →
        AsksForFirst addr n c) := by
  constructor
  · rintro hright ⟨c', i, hsync⟩
    exact (sync_hasBlocks_iff h hstay hsync).mp (hright.sync c' i hsync)
  · intro hask
    constructor
    · intro _ _ hmap
      exact map_hasBlocks h hfits hmap
    · intro c' i hsync
      exact (sync_hasBlocks_iff h hstay hsync).mpr (hask ⟨c', i, hsync⟩)
    · intro c₁ c₂ i j hmap hsync
      obtain rfl := (hask ⟨c₂, j, hsync⟩).1
      exact same_slot hmap hsync

lemma supplied_of_succeeds (henv : env.Succeeds) (hfits : FitsInt n) :
    Supplied c (.map env addr n) := by
  refine ⟨fun _ _ _ => ⟨henv.2.1, henv.2.2, fun _ => hfits⟩, ?_⟩
  intro i el _ _ _
  rw [if_pos henv.2]
  intro _
  exact hfits

end Invariant

/-- `pgcache_element_map` answers every call. Unless the page of block 0 is evicted during the wait,
both variants do exactly where the element that `pgcache_element_map_sync` returns, if any, is the
one asked for. -/
def AnswersCalls (c : PgCache) : Prop :=
  ∀ env w addr n, FitsInt n →
    (∀ c' i, pgcacheElementMap env addr n c = some (c', some i) → HasBlocks c' i addr n) ∧
      (FirstStays w c → (MapsRight env w addr n c ↔
        ((∃ c' i, pgcacheElementMapSync env w addr n c = some (c', some i)) →
          AsksForFirst addr n c)))

/-- **Mapping returns the blocks asked for**, in every state of a run whose steps supply the pages
they bring in. -/
theorem mapping_right {cap : ℕ} {d : Disk} {t : List Op}
    (hC : Along step Supplied (pgcacheAlloc cap d) t) :
    Throughout step AnswersCalls (pgcacheAlloc cap d) t := by
  refine (allIntact_run hC).mono ?_
  intro c h env w addr n hfits
  exact ⟨fun _ _ hmap => map_hasBlocks h hfits hmap, h.mapsRight_iff hfits⟩

/-- Two pages, and a pass of the thread between them. -/
theorem mapping_right_two : Throughout step AnswersCalls (pgcacheAlloc 2 fun _ => [])
    [.map (.ok 4096) 0 2, .pass, .map (.ok 8192) 5 1] := by
  refine mapping_right (along_of_forall fun op hop c => ?_)
  have hfits : FitsInt 2 ∧ FitsInt 1 := by
    unfold FitsInt kfsBlocksize
    omega
  simp only [List.mem_cons, List.not_mem_nil, or_false] at hop
  rcases hop with rfl | rfl | rfl
  · exact supplied_of_succeeds (MapEnv.ok_succeeds 4096) hfits.1
  · trivial
  · exact supplied_of_succeeds (MapEnv.ok_succeeds 8192) hfits.2

/-- Asked for block 5 of a new page cache, `pgcache_element_map_sync` returns block 0. -/
theorem sync_maps_block_zero :
    ¬ MapsRight (.ok 4096) ⟨[true], 0⟩ 5 1 (pgcacheAlloc 2 fun _ => []) := by
  intro h
  rcases h.sync _ _ rfl with ⟨el, hel, ha⟩
  obtain rfl := Option.some.inj hel
  exact absurd ha.addr (by decide)

/-! ## A growth that fails -/

/-- A search does not see a change that its test does not see. -/
lemma findIdx?_set {α : Type} {p : α → Bool} {l : List α} {i : ℕ} {x : α} (hi : i < l.length)
    (hx : p x = p l[i]) : (l.set i x).findIdx? p = l.findIdx? p := by
  induction l generalizing i with
  | nil => exact absurd hi (Nat.not_lt_zero i)
  | cons a l ih =>
    cases i with
    | zero =>
      rw [List.getElem_cons_zero] at hx
      rw [List.set_cons_zero, List.findIdx?_cons, List.findIdx?_cons, hx]
    | succ i =>
      rw [List.set_cons_succ, List.findIdx?_cons, List.findIdx?_cons,
        ih (Nat.lt_of_succ_lt_succ hi) hx]

/-- An element that changes, but keeps its key, is found where it was. -/
lemma findKey_setSlot {c : PgCache} {i key : ℕ} {el el' : PgElement} (hel : c.slot i = some el)
    (hid : el'.ce_id = el.ce_id) : findKey key (c.setSlot i (some el')) = findKey key c := by
  rcases List.getElem?_eq_some_iff.mp (getElem?_of_slot hel) with ⟨hlt, hget⟩
  refine findIdx?_set hlt ?_
  rw [hget]
  simp only [hid]

/-- Why `Supplied` asks for it: an element with blocks whose growth has failed is returned to the
next call for these blocks, and has no memory. -/
theorem failed_growth_is_returned {env env' : MapEnv} {addr i : ℕ} {n : ℤ} {c c' : PgCache}
    {el : PgElement} {r : Option ℕ} (hkey : findKey addr c = some i) (hel : c.slot i = some el)
    (hpos : 0 < el.data.pe_num_blocks) (hn : el.data.pe_num_blocks < n)
    (hfail : ¬ (env.page_alloc = true ∧ env.read = true))
    (hmap : pgcacheElementMap env addr n c = some (c', r)) :
    ∃ c₁, pgcacheElementMap env' addr el.data.pe_num_blocks c' = some (c₁, some i) ∧
      ¬ HasBlocks c₁ i addr el.data.pe_num_blocks := by
  have hfind : ∀ (e : PgElement) (d : Disk), e.ce_id = el.ce_id →
      findKey addr { c.setSlot i (some e) with world := d } = some i :=
    fun _ _ hid => (findKey_setSlot hel hid).trans hkey
  have hlost : ∃ e : PgElement, c'.slot i = some e ∧ findKey addr c' = some i ∧
      e.data.pe_num_blocks = el.data.pe_num_blocks ∧ e.data.pe_mem_ptr.bytes = 0 := by
    simp only [pgcacheElementMap, hkey, mapHit, hel, if_neg (not_le.mpr hn), growElement] at hmap
    -- `realloc` has failed, or the read, or neither
    split_ifs at hmap with hlock halloc hread
    · simp only [Option.some.injEq, Prod.mk.injEq] at hmap
      rcases hmap with ⟨rfl, rfl⟩
      exact ⟨_, slot_setSlot_self (lt_capacity_of_slot hel), hfind _ _ rfl, rfl, rfl⟩
    · simp only [Option.some.injEq, Prod.mk.injEq] at hmap
      rcases hmap with ⟨rfl, rfl⟩
      exact ⟨_, slot_setSlot_self (lt_capacity_of_slot hel), hfind _ _ rfl, rfl, rfl⟩
    · exact absurd ⟨by simpa using halloc, by simpa using hread⟩ hfail
  rcases hlost with ⟨e, hslot, hfound, hblocks, hbytes⟩
  have hhit : pgcacheElementMap env' addr el.data.pe_num_blocks c' =
      some (c'.setSlot i (some (countHit e)), some i) := by
    simp only [pgcacheElementMap, hfound, mapHit, hslot, hblocks, le_refl, if_true]
  refine ⟨_, hhit, ?_⟩
  rintro ⟨e', he', ha⟩
  rw [slot_setSlot_self (lt_capacity_of_slot hslot)] at he'
  obtain rfl := Option.some.inj he'
  have hsize : el.data.pe_num_blocks * kfsBlocksize ≤ e.data.pe_mem_ptr.bytes := ha.bytes
  rw [hbytes] at hsize
  exact absurd hsize (by unfold kfsBlocksize; omega)

end KanekFs.Page
