import Mathlib.Data.List.Basic
import Mathlib.Tactic.Lemma
import Mathlib.Tactic.Ring
import Mathlib.Tactic.Linarith

/-!
# Byte buffers

A buffer is a list of bytes. Two views of it are used by a program that keeps bitmaps and
C structures in the same memory:

* **bits** — `bitAt bm k` is bit `k % 8` of byte `k / 8`; `ext_bitAt` says a buffer is
  determined by its length and its bits;
* **fields** — `storeLE w p off v` stores the `w` low bytes of `v` at `off`, least
  significant first, and `loadLE w p off` reads them back. A store past the end of the
  buffer is lost.

Reading past the end gives `0` here; a caller that must not read there says so itself.
-/

namespace Bytes

/-- One byte of memory. -/
abbrev Byte := BitVec 8

/-! ## Bits -/

/-- Bit `k` of a buffer, least significant bit of byte `0` first. -/
def bitAt (bm : List Byte) (k : ℕ) : Bool :=
  (bm.getD (k / 8) 0#8).getLsbD (k % 8)

/-- The bits of byte `j`. -/
theorem bitAt_getElem {bm : List Byte} {j i : ℕ} (hj : j < bm.length) (hi : i < 8) :
    bitAt bm (8 * j + i) = bm[j].getLsbD i := by
  have hdiv : (8 * j + i) / 8 = j := by omega
  have hmod : (8 * j + i) % 8 = i := by omega
  simp [bitAt, hdiv, hmod, hj]

/-- A buffer is determined by its length and its bits. -/
theorem ext_bitAt {bm bm' : List Byte} (hlen : bm.length = bm'.length)
    (hbits : ∀ k, bitAt bm k = bitAt bm' k) : bm = bm' := by
  apply List.ext_getElem hlen
  intro i h h'
  apply BitVec.eq_of_getLsbD_eq
  intro j hj
  -- bit `j` of byte `i`
  have hk := hbits (8 * i + j)
  have hdiv : (8 * i + j) / 8 = i := by omega
  have hmod : (8 * i + j) % 8 = j := by omega
  simpa [bitAt, hdiv, hmod, h, h'] using hk

/-- Replacing byte `i` changes the eight bits of byte `i` only. -/
theorem bitAt_set (bm : List Byte) {i : ℕ} (hi : i < bm.length) (b : Byte) (k : ℕ) :
    bitAt (bm.set i b) k = if k / 8 = i then b.getLsbD (k % 8) else bitAt bm k := by
  by_cases h : k / 8 = i
  · subst h
    simp [bitAt, hi]
  · have hne : i ≠ k / 8 := fun e => h e.symm
    simp [bitAt, h, hne]

theorem bitAt_eq_false_of_le {bm : List Byte} {k : ℕ} (h : 8 * bm.length ≤ k) :
    bitAt bm k = false := by
  have hk : bm.length ≤ k / 8 := by omega
  simp [bitAt, hk]

@[simp] theorem bitAt_replicate_zero (n k : ℕ) : bitAt (List.replicate n 0#8) k = false := by
  unfold bitAt
  rw [List.getD_eq_getElem?_getD, List.getElem?_replicate]
  split <;> simp

/-- A bitmap that starts `n` bytes into a buffer is the buffer's bits from `8 * n` on. -/
theorem bitAt_drop (p : List Byte) (n k : ℕ) : bitAt (p.drop n) k = bitAt p (8 * n + k) := by
  have hdiv : (8 * n + k) / 8 = n + k / 8 := by omega
  have hmod : (8 * n + k) % 8 = k % 8 := by omega
  simp [bitAt, hdiv, hmod]

/-- A bit of the part of a buffer that is kept is the bit of the buffer. -/
theorem bitAt_take_of_lt (p : List Byte) {n k : ℕ} (h : k < 8 * n) :
    bitAt (p.take n) k = bitAt p k := by
  have hk : k / 8 < n := by omega
  simp [bitAt, List.getElem?_take_of_lt hk]

/-! ## Fills -/

/-- `memset`: the `n` bytes from `off` on become `v`. -/
def fill (p : List Byte) (off n : ℕ) (v : Byte) : List Byte :=
  p.mapIdx fun i b => if off ≤ i ∧ i < off + n then v else b

@[simp] theorem length_fill (p : List Byte) (off n : ℕ) (v : Byte) :
    (fill p off n v).length = p.length := by
  simp [fill]

/-- `memcpy`: the bytes from `off` on become those of `src`. -/
def memcpy (p : List Byte) (off : ℕ) (src : List Byte) : List Byte :=
  p.mapIdx fun i b => if off ≤ i ∧ i < off + src.length then src.getD (i - off) 0#8 else b

@[simp] theorem length_memcpy (p : List Byte) (off : ℕ) (src : List Byte) :
    (memcpy p off src).length = p.length := by
  simp [memcpy]

theorem getD_fill (p : List Byte) (off n : ℕ) (v : Byte) {i : ℕ} (hi : i < p.length) :
    (fill p off n v).getD i 0#8 = if off ≤ i ∧ i < off + n then v else p.getD i 0#8 := by
  simp [fill, hi]

theorem bitAt_fill (p : List Byte) {off n : ℕ} (h : off + n ≤ p.length) (v : Byte) (k : ℕ) :
    bitAt (fill p off n v) k =
      if 8 * off ≤ k ∧ k < 8 * (off + n) then v.getLsbD (k % 8) else bitAt p k := by
  by_cases hk : k / 8 < p.length
  · have hiff : (off ≤ k / 8 ∧ k / 8 < off + n) ↔ (8 * off ≤ k ∧ k < 8 * (off + n)) := by omega
    unfold bitAt
    rw [getD_fill p off n v hk]
    by_cases hin : 8 * off ≤ k ∧ k < 8 * (off + n)
    · rw [if_pos (hiff.mpr hin), if_pos hin]
    · rw [if_neg (fun h => hin (hiff.mp h)), if_neg hin]
  · have hout : ¬ (8 * off ≤ k ∧ k < 8 * (off + n)) := by omega
    have hlen : 8 * p.length ≤ k := by omega
    rw [if_neg hout, bitAt_eq_false_of_le hlen, bitAt_eq_false_of_le (by simpa using hlen)]

/-! ## Bit ranges

`SetRange bm bm' lo hi c` relates a buffer to the one in which exactly the bits of
`[lo, hi)` were given the value `c`. It composes along adjacent ranges, and it determines
the resulting buffer, so two ways of setting a range are compared by their ranges. -/

/-- `bm'` is `bm` with the bits of `[lo, hi)` set to `c` and nothing else changed. -/
structure SetRange (bm bm' : List Byte) (lo hi : ℕ) (c : Bool) : Prop where
  length_eq : bm'.length = bm.length
  bit : ∀ k, bitAt bm' k = if lo ≤ k ∧ k < hi then c else bitAt bm k

namespace SetRange

variable {bm bm' bm'' : List Byte} {lo mid hi : ℕ} {c : Bool}

lemma refl (bm : List Byte) (lo : ℕ) (c : Bool) : SetRange bm bm lo lo c where
  length_eq := rfl
  bit k := by rw [if_neg (by omega)]

lemma trans (h₁ : SetRange bm bm' lo mid c) (h₂ : SetRange bm' bm'' mid hi c)
    (hlo : lo ≤ mid) (hhi : mid ≤ hi) : SetRange bm bm'' lo hi c where
  length_eq := h₂.length_eq.trans h₁.length_eq
  bit k := by
    rw [h₂.bit, h₁.bit]
    by_cases hmid : mid ≤ k ∧ k < hi
    · rw [if_pos hmid, if_pos (by omega)]
    · rw [if_neg hmid]
      by_cases hlow : lo ≤ k ∧ k < mid
      · rw [if_pos hlow, if_pos (by omega)]
      · rw [if_neg hlow, if_neg (by omega)]

/-- The range and the value determine the resulting buffer. -/
lemma unique (h₁ : SetRange bm bm' lo hi c) (h₂ : SetRange bm bm'' lo hi c) : bm' = bm'' :=
  ext_bitAt (h₁.length_eq.trans h₂.length_eq.symm) fun k => by rw [h₁.bit, h₂.bit]

/-- Replacing one byte by a byte whose bits `[a, b)` are `c` and whose other bits are as
before sets one range of the buffer. -/
lemma set {i a b : ℕ} {v : Byte} (hi : i < bm.length) (hb : b ≤ 8)
    (hv : ∀ j < 8, v.getLsbD j = if a ≤ j ∧ j < b then c else (bm.getD i 0#8).getLsbD j) :
    SetRange bm (bm.set i v) (8 * i + a) (8 * i + b) c where
  length_eq := by simp
  bit k := by
    rw [bitAt_set bm hi v k]
    by_cases hk : k / 8 = i
    · have hiff : (a ≤ k % 8 ∧ k % 8 < b) ↔ (8 * i + a ≤ k ∧ k < 8 * i + b) := by omega
      rw [if_pos hk, hv (k % 8) (by omega)]
      by_cases hin : a ≤ k % 8 ∧ k % 8 < b
      · rw [if_pos hin, if_pos (hiff.mp hin)]
      · rw [if_neg hin, if_neg (fun h => hin (hiff.mpr h)), bitAt, hk]
    · rw [if_neg hk, if_neg (by omega)]

/-- Filling whole bytes sets the range of their bits. -/
lemma fill {off n : ℕ} {v : Byte} (h : off + n ≤ bm.length) (hv : ∀ j < 8, v.getLsbD j = c) :
    SetRange bm (fill bm off n v) (8 * off) (8 * (off + n)) c where
  length_eq := by simp
  bit k := by rw [bitAt_fill bm h v k, hv (k % 8) (by omega)]

end SetRange

/-! ## Fields -/

/-- Read a `w`-byte little-endian field. -/
def loadLE : ℕ → List Byte → ℕ → ℕ
  | 0, _, _ => 0
  | w + 1, p, off => (p.getD off 0#8).toNat + 256 * loadLE w p (off + 1)

/-- Write a `w`-byte little-endian field; the bytes of `v` above the field are dropped. -/
def storeLE (w : ℕ) (p : List Byte) (off v : ℕ) : List Byte :=
  p.mapIdx fun i b => if off ≤ i ∧ i < off + w then BitVec.ofNat 8 (v / 256 ^ (i - off)) else b

@[simp] theorem length_storeLE (w : ℕ) (p : List Byte) (off v : ℕ) :
    (storeLE w p off v).length = p.length := by
  simp [storeLE]

theorem getD_storeLE (w : ℕ) (p : List Byte) (off v : ℕ) {i : ℕ} (hi : i < p.length) :
    (storeLE w p off v).getD i 0#8 =
      if off ≤ i ∧ i < off + w then BitVec.ofNat 8 (v / 256 ^ (i - off)) else p.getD i 0#8 := by
  simp [storeLE, hi]

/-- Outside the field a store changes nothing. -/
theorem getD_storeLE_of_disjoint (w : ℕ) (p : List Byte) (off v : ℕ) {i : ℕ}
    (h : i < off ∨ off + w ≤ i) : (storeLE w p off v).getD i 0#8 = p.getD i 0#8 := by
  by_cases hi : i < p.length
  · rw [getD_storeLE w p off v hi, if_neg (by omega)]
  · have hlen : p.length ≤ i := by omega
    simp [hlen]

theorem loadLE_congr {p q : List Byte} {w off : ℕ}
    (h : ∀ i, off ≤ i → i < off + w → p.getD i 0#8 = q.getD i 0#8) :
    loadLE w p off = loadLE w q off := by
  induction w generalizing off with
  | zero => rfl
  | succ w ih =>
    have hhead := h off (by omega) (by omega)
    have htail : loadLE w p (off + 1) = loadLE w q (off + 1) :=
      ih fun i hi hlt => h i (by omega) (by omega)
    simp only [loadLE, hhead, htail]

/-- A field that holds the bytes of `v` reads as `v` truncated to the field. -/
theorem loadLE_of_bytes {p : List Byte} {w off v : ℕ}
    (h : ∀ i, i < w → p.getD (off + i) 0#8 = BitVec.ofNat 8 (v / 256 ^ i)) :
    loadLE w p off = v % 256 ^ w := by
  induction w generalizing off v with
  | zero => simp [loadLE, Nat.mod_one]
  | succ w ih =>
    have hhead : p.getD off 0#8 = BitVec.ofNat 8 v := by simpa using h 0 (by omega)
    have htail : loadLE w p (off + 1) = (v / 256) % 256 ^ w := by
      apply ih
      intro i hi
      have hi' := h (i + 1) (by omega)
      rw [show off + 1 + i = off + (i + 1) by omega, hi', Nat.div_div_eq_div_mul, pow_succ,
        Nat.mul_comm]
    rw [loadLE, hhead, htail, pow_succ, Nat.mul_comm (256 ^ w) 256, Nat.mod_mul]
    simp

/-- Reading back the field just stored. -/
theorem loadLE_storeLE_same {w : ℕ} {p : List Byte} {off : ℕ} (v : ℕ) (h : off + w ≤ p.length) :
    loadLE w (storeLE w p off v) off = v % 256 ^ w := by
  apply loadLE_of_bytes
  intro i hi
  rw [getD_storeLE w p off v (by omega), if_pos (by omega), Nat.add_sub_cancel_left]

/-- Reading a field that the store does not overlap. -/
theorem loadLE_storeLE_of_disjoint {w w' : ℕ} (p : List Byte) {off off' : ℕ} (v : ℕ)
    (h : off + w ≤ off' ∨ off' + w' ≤ off) :
    loadLE w (storeLE w' p off' v) off = loadLE w p off := by
  apply loadLE_congr
  intro i hi hlt
  exact getD_storeLE_of_disjoint w' p off' v (by omega)

/-- A field holds no more than fits its width. -/
theorem loadLE_lt (w : ℕ) (p : List Byte) (off : ℕ) : loadLE w p off < 256 ^ w := by
  induction w generalizing off with
  | zero => simp [loadLE]
  | succ w ih =>
    have hbyte : (p.getD off 0#8).toNat < 256 := BitVec.isLt _
    have hrest := ih (off + 1)
    rw [loadLE, pow_succ]
    omega

/-- The bytes of a field. -/
theorem byte_loadLE {w k off : ℕ} {p : List Byte} (hk : k < w) :
    BitVec.ofNat 8 (loadLE w p off / 256 ^ k) = p.getD (off + k) 0#8 := by
  induction k generalizing w off with
  | zero =>
    obtain ⟨w, rfl⟩ := Nat.exists_eq_add_one.mpr hk
    rw [loadLE]
    apply BitVec.eq_of_toNat_eq
    simp
    omega
  | succ k ih =>
    obtain ⟨w, rfl⟩ := Nat.exists_eq_add_one.mpr (Nat.zero_lt_of_lt hk)
    have hbyte : (p.getD off 0#8).toNat < 256 := BitVec.isLt _
    have hdiv : loadLE (w + 1) p off / 256 ^ (k + 1) = loadLE w p (off + 1) / 256 ^ k := by
      rw [loadLE, pow_succ', ← Nat.div_div_eq_div_mul, Nat.add_mul_div_left _ _ (by decide),
        Nat.div_eq_of_lt hbyte, Nat.zero_add]
    rw [hdiv, ih (by omega)]
    congr 1
    omega

/-- A field has the same value exactly when it has the same bytes. -/
theorem loadLE_eq_iff {w off : ℕ} {p q : List Byte} :
    loadLE w p off = loadLE w q off ↔ ∀ k < w, p.getD (off + k) 0#8 = q.getD (off + k) 0#8 := by
  constructor
  · intro h k hk
    rw [← byte_loadLE hk, ← byte_loadLE hk, h]
  · intro h
    refine loadLE_congr fun i hi hlt => ?_
    have hk := h (i - off) (by omega)
    rwa [Nat.add_sub_cancel' hi] at hk

theorem loadLE_drop (w : ℕ) (p : List Byte) (n : ℕ) : loadLE w (p.drop n) 0 = loadLE w p n := by
  have hloop : ∀ w off, loadLE w (p.drop n) off = loadLE w p (n + off) := by
    intro w
    induction w with
    | zero => exact fun _ => rfl
    | succ w ih =>
      intro off
      rw [loadLE, loadLE, ih, List.getD_eq_getElem?_getD, List.getElem?_drop,
        ← List.getD_eq_getElem?_getD, Nat.add_assoc]
  exact hloop w 0

theorem loadLE_replicate_zero (w n off : ℕ) : loadLE w (List.replicate n 0#8) off = 0 := by
  induction w generalizing off with
  | zero => rfl
  | succ w ih =>
    have hzero : (List.replicate n 0#8).getD off 0#8 = 0 := by
      rw [List.getD_eq_getElem?_getD, List.getElem?_replicate]
      split <;> simp
    rw [loadLE, hzero, ih]
    rfl

/-! ## Structures

A C structure in a buffer is a set of disjoint fields. `putAll` is a sequence of assignments;
a field assigned once reads back as what was assigned, whatever else the sequence does. -/

/-- A field: its offset in the buffer and its width in bytes. -/
structure CField where
  off : ℕ
  width : ℕ
deriving DecidableEq

namespace CField

/-- The field of a structure that starts at `base`. -/
def shift (f : CField) (base : ℕ) : CField := ⟨base + f.off, f.width⟩

def get (f : CField) (p : List Byte) : ℕ := loadLE f.width p f.off

def put (f : CField) (p : List Byte) (v : ℕ) : List Byte := storeLE f.width p f.off v

/-- The two fields share no byte. -/
def Apart (f g : CField) : Prop := f.off + f.width ≤ g.off ∨ g.off + g.width ≤ f.off

instance (f g : CField) : Decidable (f.Apart g) :=
  inferInstanceAs (Decidable (_ ∨ _))

@[simp] lemma length_put (f : CField) (p : List Byte) (v : ℕ) : (f.put p v).length = p.length :=
  length_storeLE _ _ _ _

lemma get_lt (f : CField) (p : List Byte) : f.get p < 256 ^ f.width := loadLE_lt _ _ _

lemma get_put_same {f : CField} {p : List Byte} (v : ℕ) (h : f.off + f.width ≤ p.length) :
    f.get (f.put p v) = v % 256 ^ f.width :=
  loadLE_storeLE_same v h

lemma get_put_of_apart {f g : CField} (p : List Byte) (v : ℕ) (h : f.Apart g) :
    f.get (g.put p v) = f.get p :=
  loadLE_storeLE_of_disjoint p v h

/-- A sequence of assignments to fields. -/
def putAll (p : List Byte) (l : List (CField × ℕ)) : List Byte :=
  l.foldl (fun p fv => fv.1.put p fv.2) p

@[simp] lemma length_putAll (p : List Byte) (l : List (CField × ℕ)) :
    (putAll p l).length = p.length := by
  induction l generalizing p with
  | nil => rfl
  | cons fv l ih => exact (ih _).trans (length_put _ _ _)

/-- A field that no assignment overlaps keeps its value. -/
lemma get_putAll_of_apart {f : CField} (p : List Byte) {l : List (CField × ℕ)}
    (h : ∀ g ∈ l.map Prod.fst, f.Apart g) : f.get (putAll p l) = f.get p := by
  induction l generalizing p with
  | nil => rfl
  | cons fv l ih =>
    have hhead : f.Apart fv.1 := h _ (by simp)
    have htail := ih (fv.1.put p fv.2) fun g hg => h g (by simp [hg])
    exact htail.trans (get_put_of_apart p fv.2 hhead)

/-- Among assignments to disjoint fields, each field reads back as what it was given. -/
theorem get_putAll {f : CField} {v : ℕ} {p : List Byte} {l : List (CField × ℕ)}
    (hapart : (l.map Prod.fst).Pairwise Apart) (hmem : (f, v) ∈ l)
    (hfit : f.off + f.width ≤ p.length) : f.get (putAll p l) = v % 256 ^ f.width := by
  induction l generalizing p with
  | nil => simp at hmem
  | cons fv l ih =>
    rw [List.map_cons, List.pairwise_cons] at hapart
    rcases List.mem_cons.mp hmem with rfl | hmem
    · have hrest := get_putAll_of_apart (f.put p v) hapart.1
      exact hrest.trans (get_put_same v hfit)
    · exact ih hapart.2 hmem (by rwa [length_put])

/-- A field is given the value it has. -/
lemma put_get (f : CField) (p : List Byte) : f.put p (f.get p) = p := by
  have hbyte : ∀ i, (f.put p (f.get p)).getD i 0#8 = p.getD i 0#8 := by
    intro i
    by_cases hi : i < p.length
    · rw [put, getD_storeLE _ _ _ _ hi]
      split_ifs with hin
      · obtain ⟨k, rfl⟩ := Nat.exists_eq_add_of_le hin.1
        rw [Nat.add_sub_cancel_left]
        exact byte_loadLE (by omega)
      · rfl
    · simp only [List.getD_eq_getElem?_getD]
      rw [List.getElem?_eq_none (by simpa using hi), List.getElem?_eq_none (by simpa using hi)]
  refine List.ext_getElem (length_put _ _ _) fun i hi hi' => ?_
  simpa [List.getD_eq_getElem?_getD, List.getElem?_eq_getElem hi, List.getElem?_eq_getElem hi']
    using hbyte i

/-! ### Buffers that differ in some fields -/

/-- `q` is `p` but for the fields `vs`: every field that shares no byte with them reads the
same. -/
structure SameBut (vs : List CField) (p q : List Byte) : Prop where
  length : q.length = p.length
  get : ∀ f : CField, (∀ g ∈ vs, f.Apart g) → f.get q = f.get p

lemma SameBut.refl (vs : List CField) (p : List Byte) : SameBut vs p p := ⟨rfl, fun _ _ => rfl⟩

lemma SameBut.trans {vs : List CField} {p q r : List Byte} (h : SameBut vs p q)
    (h' : SameBut vs q r) : SameBut vs p r :=
  ⟨h'.length.trans h.length, fun f hf => (h'.get f hf).trans (h.get f hf)⟩

/-- Assignments to fields of `vs`, or of the values that the fields have. -/
theorem SameBut.putAll {vs : List CField} {p : List Byte} {l : List (CField × ℕ)}
    (hapart : (l.map Prod.fst).Pairwise Apart)
    (hl : ∀ fv ∈ l, fv.1 ∈ vs ∨ fv.2 = fv.1.get p) : SameBut vs p (putAll p l) := by
  refine ⟨length_putAll p l, fun f hf => ?_⟩
  induction l generalizing p with
  | nil => rfl
  | cons fv l ih =>
    rw [List.map_cons, List.pairwise_cons] at hapart
    -- the other fields still have their values
    have hrest : ∀ gv ∈ l, gv.1 ∈ vs ∨ gv.2 = gv.1.get (fv.1.put p fv.2) := by
      intro gv hgv
      refine (hl gv (by simp [hgv])).imp_right fun hval => ?_
      have hsep : gv.1.Apart fv.1 := (hapart.1 gv.1 (List.mem_map_of_mem hgv)).symm
      rw [get_put_of_apart p fv.2 hsep, hval]
    refine (ih hapart.2 hrest).trans ?_
    rcases hl fv (by simp) with hvs | hval
    · exact get_put_of_apart p fv.2 (hf fv.1 hvs)
    · rw [hval, put_get]

end CField

end Bytes
