import KanekFs.Page.PageCache

/-!
# The page cache is transparent

The abstract device is an array of blocks that only client writes change: `lastWritten` replays
a run of the page cache on it. When all requested extents with different start addresses are
disjoint and every allocation and read succeeds, the cache with its device behaves like this
array.

* `Sim` relates the two: every page holds what the array holds on its extent, and the device is
  current on every block that no dirty page covers.
* `kept_sim`, `Sim.grown`, `Sim.filled` and `Sim.write` are the steps that move data between
  the copies, and `Sim.step` puts them together.
* `map_transparent` is the result: a successful `pgcache_element_map` returns the last data
  written.
-/

namespace KanekFs.Page

open Bytes Cache Run

/-! ## The abstract device -/

/-- The array after a client wrote blocks of the extent that starts at block `start`. -/
def writeArray (start : ℕ) (ws : List (ℕ × List Byte)) (d : Disk) : Disk :=
  ws.foldl (fun d w => Function.update d (start + w.1) w.2) d

/-- What one operation does to the array: only client writes change it. -/
def arrayStep (c : PgCache) (op : Op) (d : Disk) : Disk :=
  match op with
  | .write i ws => match c.slot i with
    | some el => writeArray (blockIndex el.data.pe_block_addr) ws d
    | none => d
  | _ => d

/-- The last data written to each block in the run `t` from `c`, or its content in `d`. -/
def lastWritten (c : PgCache) (t : List Op) (d : Disk) : Disk := replay step arrayStep c t d

lemma writeArray_of_ne {start b : ℕ} {ws : List (ℕ × List Byte)} {d : Disk}
    (h : ∀ w ∈ ws, b ≠ start + w.1) : writeArray start ws d b = d b := by
  induction ws generalizing d with
  | nil => rfl
  | cons w ws ih =>
    have hw : b ≠ start + w.1 := h w (by simp)
    have hrest := ih (d := Function.update d (start + w.1) w.2) fun w' hw' => h w' (by simp [hw'])
    exact hrest.trans (Function.update_of_ne hw _ _)

/-- One block written to the array is one block written to the page. -/
lemma extentRead_update {d : Disk} {addr : ℕ} {n : ℤ} {k : ℕ} {x : List Byte} :
    extentRead (Function.update d (blockIndex addr + k) x) addr n =
      (extentRead d addr n).set k x := by
  apply List.ext_getElem (by simp)
  intro j hj hj'
  -- block `k` of the page is the one that changes
  by_cases hk : k = j
  · subst hk
    simp [extentRead]
  · have hne : blockIndex addr + j ≠ blockIndex addr + k := by omega
    simp [extentRead, List.getElem_set_ne hk, Function.update_of_ne hne]

/-- Client writes do the same to the page and to the array. -/
lemma extentRead_writeArray {d : Disk} {addr : ℕ} {n : ℤ} {ws : List (ℕ × List Byte)} :
    extentRead (writeArray (blockIndex addr) ws d) addr n = writePage (extentRead d addr n) ws := by
  induction ws generalizing d with
  | nil => rfl
  | cons w ws ih =>
    have hrest := ih (d := Function.update d (blockIndex addr + w.1) w.2)
    rw [extentRead_update] at hrest
    exact hrest

/-! ## Requests -/

/-- The extent an operation asks for. -/
def Op.request : Op → Option (ℕ × ℤ)
  | .map _ addr n => some (addr, n)
  | .mapZero _ addr n => some (addr, n)
  | _ => none

def requests (t : List Op) : List (ℕ × ℤ) := t.filterMap Op.request

/-- Every requested size fits an `int`, and extents with different starts are disjoint. -/
structure Requests (rs : List (ℕ × ℤ)) : Prop where
  fits : ∀ r ∈ rs, FitsInt r.2
  disjoint : ∀ r ∈ rs, ∀ r' ∈ rs, r.1 ≠ r'.1 →
    Disjoint (extentBlocks r.1 r.2) (extentBlocks r'.1 r'.2)

/-- The operation is none of `pgcache_element_map_zero`, and nothing it calls fails. -/
def Op.Succeeds : Op → Prop
  | .map env _ _ => env.Succeeds
  | .mapZero _ _ _ => False
  | _ => True

/-! ## The simulation -/

/-- The blocks of the device that the page of an element holds. -/
def pageBlocks (el : PgElement) : Set ℕ := extentBlocks el.ce_id el.data.pe_num_blocks

/-- A live element: its extent was requested, and its page is what the array holds there. -/
structure PageOk (rs : List (ℕ × ℤ)) (a : Disk) (el : PgElement) : Prop where
  active : el.ce_flags.active = true
  unlocked : el.ce_locked = false
  addr : el.data.pe_block_addr = el.ce_id
  requested : (el.ce_id, el.data.pe_num_blocks) ∈ rs
  page : el.data.pe_mem_ptr = .mem (extentRead a el.ce_id el.data.pe_num_blocks)

/-- The cache `c` with its device represents the array `a`: the pages and the keys are right,
and the device is current on every block that no dirty element covers. -/
structure Sim (rs : List (ℕ × ℤ)) (c : PgCache) (a : Disk) : Prop where
  page : ∀ i el, c.slot i = some el → PageOk rs a el
  distinct : ∀ i j el el', c.slot i = some el → c.slot j = some el' → el.ce_id = el'.ce_id → i = j
  current : ∀ b, c.world b = a b ∨
    ∃ j el, c.slot j = some el ∧ el.ce_flags.dirty = true ∧ b ∈ pageBlocks el

section Steps

variable {rs : List (ℕ × ℤ)} {c c' : PgCache} {a a' : Disk} {i : ℕ} {el : PgElement}

lemma sim_pgcacheAlloc (capacity : ℕ) (d : Disk) : Sim rs (pgcacheAlloc capacity d) d where
  page i el h := by simp [pgcacheAlloc, slot_cacheInit] at h
  distinct i j el el' h := by simp [pgcacheAlloc, slot_cacheInit] at h
  current b := .inl rfl

lemma PageOk.fits (h : PageOk rs a el) (hrs : Requests rs) : FitsInt el.data.pe_num_blocks :=
  hrs.fits _ h.requested

/-- The page of a live element does not see a change of the array elsewhere. -/
lemma PageOk.congr (h : PageOk rs a el) (hrs : Requests rs)
    (heq : ∀ b ∈ pageBlocks el, a b = a' b) : PageOk rs a' el :=
  { h with page := h.page.trans (congrArg PageMem.mem (extentRead_congr (h.fits hrs) heq)) }

/-- Two live elements hold disjoint sets of blocks. -/
lemma Sim.disjoint (h : Sim rs c a) (hrs : Requests rs) {i j : ℕ} {el el' : PgElement}
    (hi : c.slot i = some el) (hj : c.slot j = some el') (hne : i ≠ j) :
    Disjoint (pageBlocks el) (pageBlocks el') := by
  have hkeys : el.ce_id ≠ el'.ce_id := fun hid => hne (h.distinct i j el el' hi hj hid)
  have hdisj := hrs.disjoint _ (h.page i el hi).requested _ (h.page j el' hj).requested hkeys
  exact hdisj

/-- The rule for a step that changes slot `i` only: what has to be shown is that the new element
and the others are right, and that the device is current but for the dirty pages. -/
lemma Sim.put (h : Sim rs c a) (hself : c'.slot i = some el)
    (hother : ∀ j ≠ i, c'.slot j = c.slot j) (hel : PageOk rs a' el)
    (hpages : ∀ j ≠ i, ∀ el', c.slot j = some el' → PageOk rs a' el')
    (hid : ∀ j ≠ i, ∀ el', c.slot j = some el' → el'.ce_id ≠ el.ce_id)
    (hcur : ∀ b, c'.world b = a' b ∨ (el.ce_flags.dirty = true ∧ b ∈ pageBlocks el) ∨
      ∃ j el', j ≠ i ∧ c.slot j = some el' ∧ el'.ce_flags.dirty = true ∧ b ∈ pageBlocks el') :
    Sim rs c' a' where
  page j el' hj := by
    -- slot `i` holds the new element, the others what they held
    by_cases hji : j = i
    · subst hji
      exact slot_inj hself hj ▸ hel
    · exact hpages j hji el' (hother j hji ▸ hj)
  distinct j k e e' hj hk heq := by
    by_cases hji : j = i <;> by_cases hki : k = i
    · exact hji.trans hki.symm
    · obtain rfl : el = e := slot_inj hself (hji ▸ hj)
      exact absurd heq.symm (hid k hki e' (hother k hki ▸ hk))
    · obtain rfl : el = e' := slot_inj hself (hki ▸ hk)
      exact absurd heq (hid j hji e (hother j hji ▸ hj))
    · exact h.distinct j k e e' (hother j hji ▸ hj) (hother k hki ▸ hk) heq
  current b := by
    -- a dirty page after the step is the new one or one of the others
    rcases hcur b with hdev | ⟨hdirty, hb⟩ | ⟨j, el', hji, hj, hdirty, hb⟩
    · exact .inl hdev
    · exact .inr ⟨i, el, hself, hdirty, hb⟩
    · exact .inr ⟨j, el', (hother j hji).trans hj, hdirty, hb⟩

/-- The rule for a step that changes neither a page nor the device: only flags and counters of
the element in slot `i` change, and a dirty element stays dirty. -/
lemma Sim.touch (h : Sim rs c a) {el' : PgElement} (hel : c.slot i = some el)
    (hself : c'.slot i = some el') (hother : ∀ j ≠ i, c'.slot j = c.slot j)
    (hworld : c'.world = c.world) (hid : el'.ce_id = el.ce_id) (hdata : el'.data = el.data)
    (hactive : el'.ce_flags.active = true) (hlock : el'.ce_locked = false)
    (hdirty : el.ce_flags.dirty = true → el'.ce_flags.dirty = true) : Sim rs c' a := by
  have hok := h.page i el hel
  have hblocks : pageBlocks el' = pageBlocks el := by rw [pageBlocks, pageBlocks, hid, hdata]
  refine h.put hself hother
    ⟨hactive, hlock, by rw [hdata, hid, hok.addr], by rw [hdata, hid]; exact hok.requested,
      by rw [hdata, hid, hok.page]⟩
    (fun j _ e hj => h.page j e hj) (fun j hj e he heq => ?_) fun b => ?_
  · exact hj (h.distinct j i e el he hel (heq.trans hid))
  · rw [hworld, hblocks]
    rcases h.current b with hdev | ⟨j, e, hj, hd, hb⟩
    · exact .inl hdev
    · by_cases hji : j = i
      · -- the element itself stays dirty
        obtain rfl : el = e := slot_inj hel (hji ▸ hj)
        exact .inr (.inl ⟨hdirty hd, hb⟩)
      · exact .inr (.inr ⟨j, e, hji, hj, hd, hb⟩)

/-- What the device holds after the flush of a live element. -/
lemma Sim.flushed (h : Sim rs c a) (hrs : Requests rs) (hel : c.slot i = some el) (b : ℕ) :
    (b ∈ pageBlocks el → pgcacheOnFlush el c.world b = a b) ∧
      (b ∉ pageBlocks el → pgcacheOnFlush el c.world b = c.world b) := by
  have hok := h.page i el hel
  have hfits := hok.fits hrs
  have hflush : pgcacheOnFlush el c.world =
      extentWrite c.world (extentRead a el.ce_id el.data.pe_num_blocks) el.ce_id
        el.data.pe_num_blocks := by
    rw [pgcacheOnFlush, hok.page, hok.addr]
  rw [hflush]
  exact ⟨fun hb => extentWrite_of_mem hfits hb, fun hb => extentWrite_of_notMem hfits hb⟩

/-- Flushing a live element makes its blocks current; the other blocks are as they were. -/
lemma Sim.current_flushed (h : Sim rs c a) (hrs : Requests rs) (hel : c.slot i = some el) (b : ℕ) :
    pgcacheOnFlush el c.world b = a b ∨
      ∃ j el', j ≠ i ∧ c.slot j = some el' ∧ el'.ce_flags.dirty = true ∧ b ∈ pageBlocks el' := by
  rcases h.flushed hrs hel b with ⟨hin, hout⟩
  -- inside its extent the flush writes the page, outside it changes nothing
  by_cases hb : b ∈ pageBlocks el
  · exact .inl (hin hb)
  · rcases h.current b with hdev | ⟨j, e, hj, hd, hbj⟩
    · exact .inl ((hout hb).trans hdev)
    · refine .inr ⟨j, e, ?_, hj, hd, hbj⟩
      intro hji
      obtain rfl : el = e := slot_inj hel (hji ▸ hj)
      exact hb hbj

/-- What the cache does by itself, flushing and dropping clean elements, keeps the relation. -/
theorem kept_sim (hrs : Requests rs) : Kept callbacks (fun c => Sim rs c a) where
  flush {c i el} hel hdirty h := by
    have hok := h.page i el hel
    refine h.put (slot_flushSlot_self hel) (fun j hj => slot_setSlot_ne hj)
      { hok with active := hok.active } (fun j _ e hj => h.page j e hj)
      (fun j hj e he heq => hj (h.distinct j i e el he hel heq)) ?_
    intro b
    rcases h.current_flushed hrs hel b with hdev | hcov
    · exact .inl hdev
    · exact .inr (.inr hcov)
  drop {c i el} hel hclean h := by
    -- no slot gains an element
    have hslot : ∀ {j e}, (dropSlot callbacks i el c.world c).slot j = some e →
        c.slot j = some e := by
      intro j e hj
      by_cases hji : j = i
      · simp [hji, slot_dropSlot_self hel] at hj
      · exact slot_dropSlot_ne hji ▸ hj
    refine ⟨fun j e hj => h.page j e (hslot hj), fun j k e e' hj hk => ?_, fun b => ?_⟩
    · exact h.distinct j k e e' (hslot hj) (hslot hk)
    · rcases h.current b with hdev | ⟨j, e, hj, hd, hb⟩
      · exact .inl hdev
      · -- the dropped element is clean, so a dirty one is in another slot
        have hji : j ≠ i := by
          rintro rfl
          obtain rfl : el = e := slot_inj hel hj
          simp [hclean] at hd
        exact .inr ⟨j, e, (slot_dropSlot_ne hji).trans hj, hd, hb⟩

/-- The flag operations keep the relation: they leave the pages alone, and `CACHE_EL_DIRTY`
where it is set. -/
theorem Sim.markFlags (h : Sim rs c a) {f : ElFlags → ElFlags}
    (hmark : markFlags f i c = some c') (hactive : ∀ fl, (f fl).active = fl.active)
    (hdirty : ∀ fl : ElFlags, fl.dirty = true → (f fl).dirty = true) : Sim rs c' a := by
  unfold Cache.markFlags at hmark
  cases hel : c.slot i with
  | none => simp [hel] at hmark
  | some el =>
    have hok := h.page i el hel
    rw [hel] at hmark
    dsimp only at hmark
    rw [if_neg (by simp [hok.active]), if_neg (by simp [hok.unlocked]), Option.some.injEq] at hmark
    subst hmark
    exact h.touch hel (slot_setSlot_self (lt_capacity_of_slot hel))
      (fun j hj => slot_setSlot_ne hj) rfl rfl rfl ((hactive _).trans hok.active) hok.unlocked
      (hdirty _)

/-- A device that is current but for pages with other keys reads as the array does. -/
lemma Sim.extentRead_eq (h : Sim rs c a) (hrs : Requests rs) {d : Disk} {addr : ℕ} {n : ℤ}
    (hreq : (addr, n) ∈ rs)
    (hd : ∀ b, d b = a b ∨ ∃ j el, c.slot j = some el ∧ el.ce_id ≠ addr ∧ b ∈ pageBlocks el) :
    extentRead d addr n = extentRead a addr n := by
  apply extentRead_congr (hrs.fits _ hreq)
  intro b hb
  rcases hd b with heq | ⟨j, el, hj, hkey, hbj⟩
  · exact heq
  · -- the other page was requested under another address, so it is disjoint from this extent
    have hdisj := hrs.disjoint _ (h.page j el hj).requested _ hreq hkey
    exact absurd hb (Set.disjoint_left.mp hdisj hbj)

/-- The growth path: after the flush only other elements can hold newer blocks. -/
lemma Sim.current_growDisk (h : Sim rs c a) (hrs : Requests rs) (hel : c.slot i = some el) (b : ℕ) :
    growDisk el c.world b = a b ∨
      ∃ j el', j ≠ i ∧ c.slot j = some el' ∧ el'.ce_flags.dirty = true ∧ b ∈ pageBlocks el' := by
  unfold growDisk
  -- the page of a clean element is no newer than the device
  split_ifs with hdirty
  · exact h.current_flushed hrs hel b
  · rcases h.current b with hdev | ⟨j, e, hj, hd, hb⟩
    · exact .inl hdev
    · refine .inr ⟨j, e, ?_, hj, hd, hb⟩
      intro hji
      obtain rfl : el = e := slot_inj hel (hji ▸ hj)
      exact hdirty hd

/-- Growing an element keeps the relation: the larger page is read from a current device. -/
theorem Sim.grown (h : Sim rs c a) (hrs : Requests rs) {addr : ℕ} {n : ℤ} (hreq : (addr, n) ∈ rs)
    (hel : c.slot i = some el) (hid : el.ce_id = addr)
    (hself : c'.slot i = some { countHit el with data := { el.data with
      pe_mem_ptr := .mem (extentRead (growDisk el c.world) addr n), pe_num_blocks := n } })
    (hother : ∀ j ≠ i, c'.slot j = c.slot j) (hworld : c'.world = growDisk el c.world) :
    Sim rs c' a := by
  subst hid
  have hok := h.page i el hel
  -- this element was flushed, so only other pages can be ahead of the device
  have hread : extentRead (growDisk el c.world) el.ce_id n = extentRead a el.ce_id n := by
    apply h.extentRead_eq hrs hreq
    intro b
    rcases h.current_growDisk hrs hel b with hdev | ⟨j, e, hji, hj, -, hb⟩
    · exact .inl hdev
    · exact .inr ⟨j, e, hj, fun hk => hji (h.distinct j i e el hj hel hk), hb⟩
  refine h.put hself hother ⟨hok.active, hok.unlocked, hok.addr, hreq, congrArg PageMem.mem hread⟩
    (fun j _ e hj => h.page j e hj) (fun j hji e hj hk => hji (h.distinct j i e el hj hel hk))
    ?_
  intro b
  rw [hworld]
  rcases h.current_growDisk hrs hel b with hdev | hcov
  · exact .inl hdev
  · exact .inr (.inr hcov)

/-- Filling a new element keeps the relation: no page in the cache has its address, so its
blocks are current on the device. -/
theorem Sim.filled (h : Sim rs c a) (hrs : Requests rs) {addr p : ℕ} {n : ℤ}
    (hreq : (addr, n) ∈ rs) (hkey : ∀ j e, c.slot j = some e → e.ce_id ≠ addr)
    (hself : c'.slot i = some { newElement p PageData.zero with
      ce_id := addr, data := ⟨.mem (extentRead c.world addr n), addr, n⟩ })
    (hother : ∀ j ≠ i, c'.slot j = c.slot j) (hempty : c.slot i = none)
    (hworld : c'.world = c.world) : Sim rs c' a := by
  -- no element has the address, so no page is ahead of the device on the extent
  have hread : extentRead c.world addr n = extentRead a addr n := by
    apply h.extentRead_eq hrs hreq
    intro b
    rcases h.current b with hdev | ⟨j, e, hj, -, hb⟩
    · exact .inl hdev
    · exact .inr ⟨j, e, hj, hkey j e hj, hb⟩
  refine h.put hself hother ⟨rfl, rfl, rfl, hreq, congrArg PageMem.mem hread⟩
    (fun j _ e hj => h.page j e hj) (fun j _ e hj => hkey j e hj) ?_
  intro b
  rw [hworld]
  rcases h.current b with hdev | ⟨j, e, hj, hd, hb⟩
  · exact .inl hdev
  · have hji : j ≠ i := by
      rintro rfl
      simp [hempty] at hj
    exact .inr (.inr ⟨j, e, hji, hj, hd, hb⟩)

/-- A client write goes to one page and to the same blocks of the array, and makes the page
dirty. -/
theorem Sim.write (h : Sim rs c a) (hrs : Requests rs) {ws : List (ℕ × List Byte)}
    (hwrite : clientWrite i ws c = some c') : Sim rs c' (arrayStep c (.write i ws) a) := by
  unfold clientWrite at hwrite
  cases hel : c.slot i with
  | none => simp [hel] at hwrite
  | some el =>
    have hok := h.page i el hel
    have hlt := lt_capacity_of_slot hel
    simp only [hel, hok.page] at hwrite
    split_ifs at hwrite with hbounds
    rw [length_extentRead] at hbounds
    -- the mark goes through, since the element is active and unlocked
    rw [cacheElementMarkDirty, Cache.markFlags, slot_setSlot_self hlt] at hwrite
    dsimp only at hwrite
    rw [if_neg (by simp [hok.active]), if_neg (by simp [hok.unlocked]),
      Option.some.injEq] at hwrite
    subst hwrite
    have harray : arrayStep c (.write i ws) a = writeArray (blockIndex el.ce_id) ws a := by
      simp only [arrayStep, hel, hok.addr]
    -- the array changes in the blocks of the page only
    have houtside : ∀ b ∉ pageBlocks el, writeArray (blockIndex el.ce_id) ws a b = a b := by
      intro b hb
      apply writeArray_of_ne
      rintro w hw rfl
      exact hb ((mem_extentBlocks (hok.fits hrs)).mpr
        ⟨Nat.le_add_right _ _, Nat.add_lt_add_left (hbounds w hw) _⟩)
    rw [harray]
    refine h.put (slot_setSlot_self (by simpa using hlt))
      (fun j hj => (slot_setSlot_ne hj).trans (slot_setSlot_ne hj))
      ⟨hok.active, hok.unlocked, hok.addr, hok.requested, congrArg PageMem.mem
        extentRead_writeArray.symm⟩
      (fun j hji e hj => (h.page j e hj).congr hrs fun b hb => ?_)
      (fun j hji e hj hk => hji (h.distinct j i e el hj hel hk)) fun b => ?_
    · exact (houtside b (Set.disjoint_left.mp (h.disjoint hrs hj hel hji) hb)).symm
    · by_cases hb : b ∈ pageBlocks el
      · exact .inr (.inl ⟨rfl, hb⟩)
      · rw [houtside b hb]
        rcases h.current b with hdev | ⟨j, e, hj, hd, hbj⟩
        · exact .inl hdev
        · refine .inr (.inr ⟨j, e, ?_, hj, hd, hbj⟩)
          intro hji
          obtain rfl : el = e := slot_inj hel (hji ▸ hj)
          exact hb hbj

/-- A call of `pgcache_element_map` keeps the relation, and the element it returns has the
address asked for and at least as many blocks. -/
theorem Sim.map (h : Sim rs c a) (hrs : Requests rs) {env : MapEnv} {addr : ℕ} {n : ℤ}
    {r : Option ℕ} (henv : env.Succeeds) (hreq : (addr, n) ∈ rs)
    (hmap : pgcacheElementMap env addr n c = some (c', r)) :
    Sim rs c' a ∧ ∀ sub, r = some sub →
      ∃ el, c'.slot sub = some el ∧ el.ce_id = addr ∧ n ≤ el.data.pe_num_blocks := by
  have hsucceeds : env.page_alloc = true ∧ env.read = true := henv.2
  cases pgcacheElementMap_effect hmap with
  | hit hkey hel hn =>
    rename_i i el
    rcases slot_of_findKey hkey with ⟨e, he, hid⟩
    obtain rfl : e = el := slot_inj he hel
    have hok := h.page i e hel
    have hself := slot_setSlot_self (o := some (countHit e)) (lt_capacity_of_slot hel)
    refine ⟨h.touch hel hself (fun j hj => slot_setSlot_ne hj) rfl rfl rfl hok.active hok.unlocked
      (fun hd => hd), ?_⟩
    rintro sub ⟨⟩
    exact ⟨_, hself, hid, hn⟩
  | grown hkey hel hn hlock hok hself hother hworld =>
    rename_i i el
    rcases slot_of_findKey hkey with ⟨e, he, hid⟩
    obtain rfl : e = el := slot_inj he hel
    refine ⟨h.grown hrs hreq hel hid hself hother hworld, ?_⟩
    rintro sub ⟨⟩
    exact ⟨_, hself, hid, le_rfl⟩
  | growFailed m hkey hel hfail => exact absurd hsucceeds hfail
  | noElement hkey hno hroom =>
    refine ⟨?_, fun sub hr => by simp at hr⟩
    -- no element was mapped, but an eviction may have taken place
    rcases hroom with rfl | ⟨sub, hroom⟩
    · exact h
    · exact hroom.kept (kept_sim hrs) h
  | filled hkey hsub hroom hok hself hother hworld =>
    rename_i sub c₁ p
    rcases hroom.slot with ⟨-, hempty, hsame⟩
    -- no element had the address before the eviction, so none has it after
    have hkeys : ∀ j e, c₁.slot j = some e → e.ce_id ≠ addr := by
      intro j e hj
      have hne : j ≠ sub := by
        rintro rfl
        simp [hempty] at hj
      exact ne_key_of_findKey hkey (hsame j hne ▸ hj)
    refine ⟨(hroom.kept (kept_sim hrs) h).filled hrs hreq hkeys hself hother hempty hworld, ?_⟩
    rintro sub ⟨⟩
    exact ⟨_, hself, rfl, le_rfl⟩
  | fillFailed f hkey hroom hfail => exact absurd hsucceeds hfail

/-- Every operation keeps the relation. -/
theorem Sim.step (h : Sim rs c a) (hrs : Requests rs) {op : Op} (hop : op.Succeeds)
    (hreq : ∀ r, op.request = some r → r ∈ rs) (hstep : step c op = some c') :
    Sim rs c' (arrayStep c op a) := by
  cases op with
  | map env addr n =>
    rcases Option.map_eq_some_iff.mp hstep with ⟨⟨c'', r⟩, hmap, rfl⟩
    exact (h.map hrs hop (hreq _ rfl) hmap).1
  | mapZero env addr n => exact hop.elim
  | write i ws => exact h.write hrs hstep
  | markDirty i =>
    have hmark : cacheElementMarkDirty i c = some c' := hstep
    exact h.markFlags hmark (fun _ => rfl) (fun _ _ => rfl)
  | markEviction i =>
    have hmark : cacheElementMarkEviction i c = some c' := hstep
    exact h.markFlags hmark (fun _ => rfl) (fun _ hd => hd)
  | pin i =>
    have hmark : cacheElementPin i c = some c' := hstep
    exact h.markFlags hmark (fun _ => rfl) (fun _ hd => hd)
  | unpin i =>
    have hmark : cacheElementMarkUnpin i c = some c' := hstep
    exact h.markFlags hmark (fun _ => rfl) (fun _ hd => hd)
  | evict key => exact (kept_sim hrs).evict h hstep
  | pass =>
    have hpass := Option.some.inj hstep
    exact hpass ▸ (kept_sim hrs).threadPass h

end Steps

/-! ## Runs -/

/-- In a run of successful operations with disjoint requests, what `pgcache_element_map` returns
holds, block by block, the last data written through the cache. -/
theorem map_transparent {capacity sub addr : ℕ} {d : Disk} {t : List Op} {c c' : PgCache}
    {env : MapEnv} {n : ℤ} (hops : ∀ op ∈ t, op.Succeeds) (henv : env.Succeeds)
    (hreq : Requests (requests (t ++ [.map env addr n])))
    (hrun : run step (pgcacheAlloc capacity d) t = some c)
    (hmap : pgcacheElementMap env addr n c = some (c', some sub)) :
    ∃ el l, c'.slot sub = some el ∧ el.data.pe_mem_ptr = .mem l ∧ ∀ i < n.toNat,
      l[i]? = some (lastWritten (pgcacheAlloc capacity d) t d (blockIndex addr + i)) := by
  have hmem : (addr, n) ∈ requests (t ++ [.map env addr n]) := by simp [requests, Op.request]
  have hreqs : ∀ op ∈ t, ∀ r, op.request = some r → r ∈ requests (t ++ [.map env addr n]) :=
    fun op hop r hr => List.mem_filterMap.mpr ⟨op, List.mem_append_left _ hop, hr⟩
  generalize requests (t ++ [.map env addr n]) = rs at hreq hmem hreqs
  -- the step rule, with the condition on an operation and its request
  have hkeep : ∀ c op c' a, step c op = some c' →
      (op.Succeeds ∧ ∀ r, op.request = some r → r ∈ rs) → Sim rs c a →
      Sim rs c' (arrayStep c op a) :=
    fun _ _ _ _ hs hC h => h.step hreq hC.1 hC.2 hs
  have hsteps : Along step (fun _ op => op.Succeeds ∧ ∀ r, op.request = some r → r ∈ rs)
      (pgcacheAlloc capacity d) t :=
    along_of_forall fun op hop _ => ⟨hops op hop, hreqs op hop⟩
  have hsim := run_simulates hkeep (sim_pgcacheAlloc capacity d) hsteps hrun
  rcases hsim.map hreq henv hmem hmap with ⟨hsim', hret⟩
  rcases hret sub rfl with ⟨el, hel, hid, hn⟩
  have hok := hsim'.page sub el hel
  refine ⟨el, _, hel, hok.page, ?_⟩
  intro i hi
  -- the element has at least the blocks asked for
  have hlt : i < intBlocks el.data.pe_num_blocks := by
    rw [intBlocks_of_fits (hok.fits hreq)]
    omega
  rw [extentRead, List.getElem?_map, List.getElem?_range hlt, Option.map_some, hid]
  rfl

/-- A cache of one element: block 0 is written, then evicted by the mapping of block 10. -/
def writeThenEvict : List Op :=
  [.map (.ok 4096) 0 1, .write 0 [(0, [5#8])], .map (.ok 8192) 10 1]

/-- Mapping block 0 again returns what was written. -/
theorem map_transparent_evicted :
    ∃ c c' el l, run step (pgcacheAlloc 1 fun _ => [0#8]) writeThenEvict = some c ∧
      pgcacheElementMap (.ok 4096) 0 1 c = some (c', some 0) ∧ c'.slot 0 = some el ∧
      el.data.pe_mem_ptr = .mem l ∧ l[0]? = some [5#8] := by
  have hops : ∀ op ∈ writeThenEvict, op.Succeeds := by
    simp [writeThenEvict, Op.Succeeds, MapEnv.ok_succeeds]
  have hreq : Requests [(0, 1), (10, 1), (0, 1)] := by
    have hdisj : Disjoint (extentBlocks 0 1) (extentBlocks 10 1) := by
      rw [extentBlocks, extentBlocks, blockIndex_of_lt (by decide), blockIndex_of_lt (by decide),
        Set.disjoint_left]
      rintro b ⟨-, hlt⟩ ⟨hge, -⟩
      simp only [Int.toNat_one] at hlt
      omega
    constructor
    · simp only [List.mem_cons, List.not_mem_nil, or_false, FitsInt, kfsBlocksize]
      rintro r (rfl | rfl | rfl) <;> decide
    · simp only [List.mem_cons, List.not_mem_nil, or_false]
      rintro r (rfl | rfl | rfl) r' (rfl | rfl | rfl) hne
      all_goals first
        | exact absurd rfl hne
        | exact hdisj
        | exact hdisj.symm
  have hrun : run step (pgcacheAlloc 1 fun _ => [0#8]) writeThenEvict = some _ := rfl
  rcases map_transparent hops (MapEnv.ok_succeeds 4096) hreq hrun rfl with ⟨el, l, hel, hl, h⟩
  exact ⟨_, _, el, l, rfl, rfl, hel, hl, h 0 (by decide)⟩

end KanekFs.Page
