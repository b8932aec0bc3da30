import KanekFs.Lib.Bytes
import KanekFs.Lib.Mixing
import Mathlib.Data.Fin.VecNotation
import Mathlib.Tactic.FinCases

/-!
# Hashing bytes

`xxh32` and `xxh64` of `hash.c`. A pointer into the input is the list of the bytes from there on.

* The input is taken in lanes: words and, at the end, single bytes. `xxh32_eq` and `xxh64_eq` are
  the loops as folds over the lanes, and `OneLane` relates inputs that differ in one of them.
* `xxh32_detects`: a change inside one lane, wherever it is, changes the hash. `xxh64_detects` says
  so of the lanes behind the last whole stripe; the stripes go into the result twice.
* `xxh32_bijective` and `xxh64_bijective`: for a short input the hash is a permutation of the seeds.
-/

namespace KanekFs.Hash

open Bytes Mixing Function

/-! ## Definitions -/

def prime32_1 : BitVec 32 := 2654435761
def prime32_2 : BitVec 32 := 2246822519
def prime32_3 : BitVec 32 := 3266489917
def prime32_4 : BitVec 32 := 668265263
def prime32_5 : BitVec 32 := 374761393

def prime64_1 : BitVec 64 := 11400714785074694791
def prime64_2 : BitVec 64 := 14029467366897019727
def prime64_3 : BitVec 64 := 1609587929392839161
def prime64_4 : BitVec 64 := 9650029242287828579
def prime64_5 : BitVec 64 := 2870177450012600261

/-- `xxh_rotl32` and `xxh_rotl64`. -/
def xxhRotl {w : ℕ} (x : BitVec w) (r : ℕ) : BitVec w := (x <<< r) ||| (x >>> (w - r))

def getUnalignedLe32 (p : List Byte) : BitVec 32 := BitVec.ofNat 32 (loadLE 4 p 0)

def getUnalignedLe64 (p : List Byte) : BitVec 64 := BitVec.ofNat 64 (loadLE 8 p 0)

/-- One iteration of the first loop, on `v1` to `v4`: four words of `n` bytes. -/
def xxhStripe {w : ℕ} (n : ℕ) (round : BitVec w → BitVec w → BitVec w)
    (read : List Byte → BitVec w) (v : Fin 4 → BitVec w) (p : List Byte) : Fin 4 → BitVec w :=
  fun i => round (v i) (read (p.drop (n * i)))

/-! ### 32 bits -/

def xxh32Round (seed input : BitVec 32) : BitVec 32 :=
  xxhRotl (seed + input * prime32_2) 13 * prime32_1

def xxh32Stripe : (Fin 4 → BitVec 32) → List Byte → Fin 4 → BitVec 32 :=
  xxhStripe 4 xxh32Round getUnalignedLe32

/-- One iteration of the second loop. -/
def xxh32Word (h32 input : BitVec 32) : BitVec 32 :=
  xxhRotl (h32 + input * prime32_3) 17 * prime32_4

/-- One iteration of the last loop. -/
def xxh32Byte (h32 : BitVec 32) (b : Byte) : BitVec 32 :=
  xxhRotl (h32 + b.setWidth 32 * prime32_5) 11 * prime32_1

/-- The last five statements. -/
def xxh32Final (h32 : BitVec 32) : BitVec 32 :=
  let h32 := h32 ^^^ (h32 >>> 15)
  let h32 := h32 * prime32_2
  let h32 := h32 ^^^ (h32 >>> 13)
  let h32 := h32 * prime32_3
  h32 ^^^ (h32 >>> 16)

/-- The stripes of `xxh32`: `h32` behind them, and `p`. -/
def xxh32Start (input : List Byte) (seed : BitVec 32) : BitVec 32 × List Byte :=
  if 16 ≤ input.length then
    let v := ![seed + prime32_1 + prime32_2, seed + prime32_2, seed + 0, seed - prime32_1]
    -- `do`: the first stripe is there
    let (v, p) := eat 16 xxh32Stripe (xxh32Stripe v input) (input.drop 16)
    (xxhRotl (v 0) 1 + xxhRotl (v 1) 7 + xxhRotl (v 2) 12 + xxhRotl (v 3) 18, p)
  else (seed + prime32_5, input)

def xxh32 (input : List Byte) (seed : BitVec 32) : BitVec 32 :=
  let (h32, p) := xxh32Start input seed
  let h32 := h32 + BitVec.ofNat 32 input.length
  let (h32, p) := eat 4 (fun h32 p => xxh32Word h32 (getUnalignedLe32 p)) h32 p
  let (h32, _) := eat 1 (fun h32 p => xxh32Byte h32 (p.headD 0#8)) h32 p
  xxh32Final h32

/-! ### 64 bits -/

def xxh64Round (acc input : BitVec 64) : BitVec 64 :=
  xxhRotl (acc + input * prime64_2) 31 * prime64_1

def xxh64MergeRound (acc val : BitVec 64) : BitVec 64 :=
  (acc ^^^ xxh64Round 0 val) * prime64_1 + prime64_4

def xxh64Stripe : (Fin 4 → BitVec 64) → List Byte → Fin 4 → BitVec 64 :=
  xxhStripe 8 xxh64Round getUnalignedLe64

/-- One iteration of the second loop. -/
def xxh64Word (h64 input : BitVec 64) : BitVec 64 :=
  xxhRotl (h64 ^^^ xxh64Round 0 input) 27 * prime64_1 + prime64_4

/-- The four bytes that may be left after it. -/
def xxh64Half (h64 : BitVec 64) (input : BitVec 32) : BitVec 64 :=
  xxhRotl (h64 ^^^ input.setWidth 64 * prime64_1) 23 * prime64_2 + prime64_3

/-- One iteration of the last loop. -/
def xxh64Byte (h64 : BitVec 64) (b : Byte) : BitVec 64 :=
  xxhRotl (h64 ^^^ b.setWidth 64 * prime64_5) 11 * prime64_1

/-- The last five statements. -/
def xxh64Final (h64 : BitVec 64) : BitVec 64 :=
  let h64 := h64 ^^^ (h64 >>> 33)
  let h64 := h64 * prime64_2
  let h64 := h64 ^^^ (h64 >>> 29)
  let h64 := h64 * prime64_3
  h64 ^^^ (h64 >>> 32)

/-- The stripes of `xxh64`: `h64` behind them, and `p`. -/
def xxh64Start (input : List Byte) (seed : BitVec 64) : BitVec 64 × List Byte :=
  if 32 ≤ input.length then
    let v := ![seed + prime64_1 + prime64_2, seed + prime64_2, seed + 0, seed - prime64_1]
    -- `do`: the first stripe is there
    let (v, p) := eat 32 xxh64Stripe (xxh64Stripe v input) (input.drop 32)
    let h64 := xxhRotl (v 0) 1 + xxhRotl (v 1) 7 + xxhRotl (v 2) 12 + xxhRotl (v 3) 18
    let h64 := xxh64MergeRound h64 (v 0)
    let h64 := xxh64MergeRound h64 (v 1)
    let h64 := xxh64MergeRound h64 (v 2)
    let h64 := xxh64MergeRound h64 (v 3)
    (h64, p)
  else (seed + prime64_5, input)

def xxh64 (input : List Byte) (seed : BitVec 64) : BitVec 64 :=
  let (h64, p) := xxh64Start input seed
  let h64 := h64 + BitVec.ofNat 64 input.length
  let (h64, p) := eat 8 (fun h64 p => xxh64Word h64 (getUnalignedLe64 p)) h64 p
  let (h64, p) := bite 4 (fun h64 p => xxh64Half h64 (getUnalignedLe32 p)) h64 p
  let (h64, _) := eat 1 (fun h64 p => xxh64Byte h64 (p.headD 0#8)) h64 p
  xxh64Final h64

/-! ## Steps -/

section Steps

variable {w r : ℕ} {a b : BitVec w}

lemma xxhRotl_eq (x : BitVec w) (hr : r < w) : xxhRotl x r = x.rotateLeft r := by
  rw [xxhRotl, BitVec.rotateLeft_def, Nat.mod_eq_of_lt hr]

lemma xxhRotl_injective (hr : r < w) : Injective fun x : BitVec w => xxhRotl x r := by
  simp only [xxhRotl_eq _ hr]
  exact rotateLeft_injective hr

lemma mul_injective (h : a * b = 1) : Injective fun x : BitVec w => x * a :=
  (IsUnit.of_mul_eq_one b h).mul_left_injective

/-- A rotation and a product. -/
lemma rotlMul_injective (hr : r < w) (h : a * b = 1) :
    Injective fun x : BitVec w => xxhRotl x r * a := (mul_injective h).comp (xxhRotl_injective hr)

lemma setWidth_injective {v : ℕ} (h : v ≤ w) : Injective fun x : BitVec v => x.setWidth w := by
  intro x y hxy
  have hback := congrArg (fun z => z.setWidth v) hxy
  simpa [BitVec.setWidth_setWidth_of_le _ h] using hback

/-- The primes are odd, so that each of them has an inverse. -/
lemma prime32_inverse : prime32_1 * 244002641 = 1 ∧ prime32_2 * 3066638151 = 1 ∧
    prime32_3 * 2828982549 = 1 ∧ prime32_4 * 2701016015 = 1 ∧ prime32_5 * 2923004241 = 1 := by
  decide

lemma prime64_inverse : prime64_1 * 614540362697595703 = 1 ∧
    prime64_2 * 839798700976720815 = 1 ∧ prime64_3 * 16855272203555305545 = 1 ∧
    prime64_5 * 14236653164957433613 = 1 := by
  decide

lemma mixes_xxh32Round : Mixes xxh32Round :=
  (mixes_add.of_input (mul_injective prime32_inverse.2.1)).andThen
    (rotlMul_injective (by decide) prime32_inverse.1)

lemma mixes_xxh32Word : Mixes xxh32Word :=
  (mixes_add.of_input (mul_injective prime32_inverse.2.2.1)).andThen
    (rotlMul_injective (by decide) prime32_inverse.2.2.2.1)

lemma mixes_xxh32Byte : Mixes xxh32Byte :=
  (mixes_add.of_input ((mul_injective prime32_inverse.2.2.2.2).comp
    (setWidth_injective (by decide)))).andThen (rotlMul_injective (by decide) prime32_inverse.1)

lemma xxh32Final_injective : Injective xxh32Final :=
  (xorShift_injective (by decide)).comp ((mul_injective prime32_inverse.2.2.1).comp
    ((xorShift_injective (by decide)).comp ((mul_injective prime32_inverse.2.1).comp
      (xorShift_injective (by decide)))))

lemma mixes_xxh64Round : Mixes xxh64Round :=
  (mixes_add.of_input (mul_injective prime64_inverse.2.1)).andThen
    (rotlMul_injective (by decide) prime64_inverse.1)

lemma mixes_xxh64Word : Mixes xxh64Word :=
  (mixes_xor.of_input (mixes_xxh64Round.input 0)).andThen
    ((add_left_injective prime64_4).comp (rotlMul_injective (by decide) prime64_inverse.1))

lemma mixes_xxh64Half : Mixes xxh64Half :=
  (mixes_xor.of_input ((mul_injective prime64_inverse.1).comp
    (setWidth_injective (by decide)))).andThen
    ((add_left_injective prime64_3).comp (rotlMul_injective (by decide) prime64_inverse.2.1))

lemma mixes_xxh64Byte : Mixes xxh64Byte :=
  (mixes_xor.of_input ((mul_injective prime64_inverse.2.2.2).comp
    (setWidth_injective (by decide)))).andThen (rotlMul_injective (by decide) prime64_inverse.1)

lemma xxh64Final_injective : Injective xxh64Final :=
  (xorShift_injective (by decide)).comp ((mul_injective prime64_inverse.2.2.1).comp
    ((xorShift_injective (by decide)).comp ((mul_injective prime64_inverse.2.1).comp
      (xorShift_injective (by decide)))))

end Steps

/-! ## Lanes -/

/-- The word of 4 bytes that is number `k` of the input. -/
def word32 (input : List Byte) (k : ℕ) : BitVec 32 := getUnalignedLe32 (input.drop (4 * k))

/-- The word of 8 bytes that is number `k` of the input. -/
def word64 (input : List Byte) (k : ℕ) : BitVec 64 := getUnalignedLe64 (input.drop (8 * k))

section Lanes

variable {d d' : List Byte} {k n : ℕ}

lemma ofNat_loadLE_inj {w off off' : ℕ} (h : 256 ^ n = 2 ^ w) :
    BitVec.ofNat w (loadLE n d off) = BitVec.ofNat w (loadLE n d' off') ↔
      loadLE n d off = loadLE n d' off' := by
  have hlt := h ▸ loadLE_lt n d off
  have hlt' := h ▸ loadLE_lt n d' off'
  rw [← BitVec.toNat_inj, BitVec.toNat_ofNat, BitVec.toNat_ofNat, Nat.mod_eq_of_lt hlt,
    Nat.mod_eq_of_lt hlt']

lemma word32_eq_iff :
    word32 d k = word32 d' k ↔ ∀ i < 4, d.getD (4 * k + i) 0#8 = d'.getD (4 * k + i) 0#8 := by
  rw [word32, word32, getUnalignedLe32, getUnalignedLe32, ofNat_loadLE_inj (by decide),
    loadLE_drop, loadLE_drop, loadLE_eq_iff]

lemma word64_eq_iff :
    word64 d k = word64 d' k ↔ ∀ i < 8, d.getD (8 * k + i) 0#8 = d'.getD (8 * k + i) 0#8 := by
  rw [word64, word64, getUnalignedLe64, getUnalignedLe64, ofNat_loadLE_inj (by decide),
    loadLE_drop, loadLE_drop, loadLE_eq_iff]

/-- Two inputs of the same length that are different at `i`, and the same outside the lane of
`i`. -/
structure OneLane (lane : ℕ → ℕ) (d d' : List Byte) (i : ℕ) : Prop where
  length_eq : d'.length = d.length
  ne : d[i]? ≠ d'[i]?
  same : ∀ j < d.length, lane j ≠ lane i → d[j]? = d'[j]?

namespace OneLane

variable {lane : ℕ → ℕ} {i j : ℕ} (h : OneLane lane d d' i)
include h

lemma lt : i < d.length := by
  by_contra hge
  have hne := h.ne
  rw [List.getElem?_eq_none (by omega), List.getElem?_eq_none (by rw [h.length_eq]; omega)] at hne
  exact hne rfl

lemma getD_ne : d.getD i 0#8 ≠ d'.getD i 0#8 := by
  intro heq
  have hlt := h.lt
  have hlt' : i < d'.length := h.length_eq ▸ hlt
  simp only [List.getD_eq_getElem?_getD, List.getElem?_eq_getElem hlt,
    List.getElem?_eq_getElem hlt', Option.getD_some] at heq
  refine h.ne ?_
  rw [List.getElem?_eq_getElem hlt, List.getElem?_eq_getElem hlt', heq]

lemma getD_eq (hj : lane j ≠ lane i) : d.getD j 0#8 = d'.getD j 0#8 := by
  rw [List.getD_eq_getElem?_getD, List.getD_eq_getElem?_getD]
  by_cases hlt : j < d.length
  · rw [h.same j hlt hj]
  · rw [List.getElem?_eq_none (by omega), List.getElem?_eq_none (by rw [h.length_eq]; omega)]

lemma word32_eq (hk : ∀ b < 4, lane (4 * k + b) ≠ lane i) : word32 d k = word32 d' k :=
  word32_eq_iff.mpr fun b hb => h.getD_eq (hk b hb)

lemma word32_ne : word32 d (i / 4) ≠ word32 d' (i / 4) := by
  intro heq
  have hbyte := word32_eq_iff.mp heq (i % 4) (Nat.mod_lt _ (by decide))
  rw [Nat.div_add_mod] at hbyte
  exact h.getD_ne hbyte

lemma word64_eq (hk : ∀ b < 8, lane (8 * k + b) ≠ lane i) : word64 d k = word64 d' k :=
  word64_eq_iff.mpr fun b hb => h.getD_eq (hk b hb)

lemma word64_ne : word64 d (i / 8) ≠ word64 d' (i / 8) := by
  intro heq
  have hbyte := word64_eq_iff.mp heq (i % 8) (Nat.mod_lt _ (by decide))
  rw [Nat.div_add_mod] at hbyte
  exact h.getD_ne hbyte

end OneLane

end Lanes

/-! ## The loops -/

section Loops

variable {d d' : List Byte}

/-- The loop over single bytes. -/
lemma eat_bytes {σ : Type*} (f : σ → Byte → σ) (s : σ) (m : ℕ) :
    (eat 1 (fun s p => f s (p.headD 0#8)) s (d.drop m)).1 =
      (List.range (d.length - m)).foldl (fun s k => f s (d.getD (m + k) 0#8)) s := by
  have hhead : ∀ k, ((d.drop m).drop (1 * k)).headD 0#8 = d.getD (m + k) 0#8 := by
    intro k
    rw [List.headD_eq_head?_getD, List.drop_drop, List.head?_drop, Nat.one_mul,
      List.getD_eq_getElem?_getD]
  rw [eat_eq (by decide), List.length_drop, Nat.div_one]
  simp only [hhead]

lemma le32_drop (m k : ℕ) : getUnalignedLe32 (d.drop (4 * m + 4 * k)) = word32 d (m + k) := by
  rw [word32, Nat.mul_add]

/-- `v1` to `v4` behind `m` stripes of the words `word`. -/
def stripes {w : ℕ} (round : BitVec w → BitVec w → BitVec w) (word : ℕ → BitVec w) (m : ℕ)
    (v : Fin 4 → BitVec w) (i : Fin 4) : BitVec w :=
  (List.range m).foldl (fun v k => round v (word (4 * k + i))) (v i)

/-- The first loop is a loop for each of `v1` to `v4`. -/
lemma eat_stripes {w n : ℕ} (hn : 0 < n) (round : BitVec w → BitVec w → BitVec w)
    (read : List Byte → BitVec w) (v : Fin 4 → BitVec w) :
    eat (4 * n) (xxhStripe n round read) v d =
      (stripes round (fun k => read (d.drop (n * k))) (d.length / (4 * n)) v,
        d.drop (4 * n * (d.length / (4 * n)))) := by
  have hstripe : (fun v k => xxhStripe n round read v (d.drop (4 * n * k))) =
      fun v k (i : Fin 4) => round (v i) (read (d.drop (n * (4 * k + i)))) := by
    funext v k i
    have hoff : 4 * n * k + n * i = n * (4 * k + i) := by ring
    rw [xxhStripe, List.drop_drop, hoff]
  rw [eat_eq (by omega), hstripe]
  refine Prod.ext (funext fun i => ?_) rfl
  exact foldl_pi (f := fun (i : Fin 4) v k => round v (read (d.drop (n * (4 * k + i))))) _ i

end Loops

/-! ## 32 bits -/

section Xxh32

variable {d d' : List Byte} {i : ℕ}

/-- `h32` behind the stripes. -/
def head32 (input : List Byte) (seed : BitVec 32) : BitVec 32 :=
  if 16 ≤ input.length then
    let v := stripes xxh32Round (word32 input) (input.length / 16)
      ![seed + prime32_1 + prime32_2, seed + prime32_2, seed + 0, seed - prime32_1]
    xxhRotl (v 0) 1 + xxhRotl (v 1) 7 + xxhRotl (v 2) 12 + xxhRotl (v 3) 18
  else seed + prime32_5

lemma xxh32Start_eq (seed : BitVec 32) :
    xxh32Start d seed = (head32 d seed, d.drop (16 * (d.length / 16))) := by
  unfold xxh32Start head32
  split
  · rename_i hlen
    dsimp only
    rw [eat_do (by decide) hlen, xxh32Stripe, eat_stripes (n := 4) (by decide)]
    rfl
  · have hzero : d.length / 16 = 0 := by omega
    rw [hzero, Nat.mul_zero, List.drop_zero]

/-- The hash, with each loop as a fold. -/
lemma xxh32_eq (seed : BitVec 32) : xxh32 d seed = xxh32Final
    ((List.range (d.length % 4)).foldl
      (fun h k => xxh32Byte h (d.getD (4 * (d.length / 4) + k) 0#8))
      ((List.range (d.length % 16 / 4)).foldl
        (fun h k => xxh32Word h (word32 d (4 * (d.length / 16) + k)))
        (head32 d seed + BitVec.ofNat 32 d.length))) := by
  have hstart : 16 * (d.length / 16) = 4 * (4 * (d.length / 16)) := by omega
  have hcount : (d.length - 4 * (4 * (d.length / 16))) / 4 = d.length % 16 / 4 := by omega
  have hrest : 4 * (4 * (d.length / 16)) + 4 * (d.length % 16 / 4) = 4 * (d.length / 4) := by omega
  have hbytes : d.length - 4 * (d.length / 4) = d.length % 4 := by omega
  simp only [xxh32, xxh32Start_eq, hstart]
  rw [eat_eq (n := 4) (by decide)]
  simp only [List.length_drop, hcount, List.drop_drop, le32_drop, hrest, eat_bytes, hbytes]

/-- The lane of byte `i`: a word of 4 bytes, or a single byte. -/
def xxh32Lane (len i : ℕ) : ℕ := if i < 4 * (len / 4) then i / 4 else i

lemma head32_congr (hlen : d'.length = d.length) (seed : BitVec 32)
    (h : ∀ k < 4 * (d.length / 16), word32 d k = word32 d' k) : head32 d seed = head32 d' seed := by
  have hstripes : ∀ v, stripes xxh32Round (word32 d) (d.length / 16) v =
      stripes xxh32Round (word32 d') (d.length / 16) v := by
    intro v
    funext i
    exact foldl_range_congr fun k hk => h _ (by omega)
  rw [head32, head32, hlen]
  simp only [hstripes]

/-- One of the four is different. -/
lemma sum_ne {v v' : Fin 4 → BitVec 32} {j : Fin 4} (hj : v j ≠ v' j) (h : ∀ i ≠ j, v i = v' i) :
    xxhRotl (v 0) 1 + xxhRotl (v 1) 7 + xxhRotl (v 2) 12 + xxhRotl (v 3) 18 ≠
      xxhRotl (v' 0) 1 + xxhRotl (v' 1) 7 + xxhRotl (v' 2) 12 + xxhRotl (v' 3) 18 := by
  intro hsum
  have hrotl : ∀ r < 32, xxhRotl (v j) r ≠ xxhRotl (v' j) r :=
    fun r hr => (xxhRotl_injective hr).ne hj
  fin_cases j
  · rw [h 1 (by decide), h 2 (by decide), h 3 (by decide)] at hsum
    exact hrotl 1 (by decide)
      (add_right_cancel (add_right_cancel (add_right_cancel hsum)))
  · rw [h 0 (by decide), h 2 (by decide), h 3 (by decide)] at hsum
    exact hrotl 7 (by decide) (add_left_cancel (add_right_cancel (add_right_cancel hsum)))
  · rw [h 0 (by decide), h 1 (by decide), h 3 (by decide)] at hsum
    exact hrotl 12 (by decide) (add_left_cancel (add_right_cancel hsum))
  · rw [h 0 (by decide), h 1 (by decide), h 2 (by decide)] at hsum
    exact hrotl 18 (by decide) (add_left_cancel hsum)

/-- A change in a stripe changes one of `v1` to `v4`. -/
lemma head32_ne (h : OneLane (xxh32Lane d.length) d d' i) (hi : i < 16 * (d.length / 16))
    (seed : BitVec 32) : head32 d seed ≠ head32 d' seed := by
  have hlong : 16 ≤ d.length := by omega
  have hword : ∀ k < 4 * (d.length / 16), k ≠ i / 4 → word32 d k = word32 d' k := by
    intro k hk hne
    refine h.word32_eq fun b hb => ?_
    rw [xxh32Lane, xxh32Lane, if_pos (by omega), if_pos (by omega)]
    omega
  have hat : 4 * (i / 16) + i / 4 % 4 = i / 4 := by omega
  rw [head32, head32, h.length_eq, if_pos hlong, if_pos hlong]
  refine sum_ne (j := ⟨i / 4 % 4, Nat.mod_lt _ (by decide)⟩) ?_ ?_
  · refine mixes_xxh32Round.foldl_ne (k := i / 16) (by omega) ?_ fun k hk hne => ?_
    · simpa only [hat] using h.word32_ne
    · exact hword _ (by dsimp only; omega) (by dsimp only; omega)
  · intro j hj
    have hj' : (j : ℕ) ≠ i / 4 % 4 := fun heq => hj (Fin.ext heq)
    exact foldl_range_congr fun k hk => hword _ (by omega) (by omega)

/-- **A change inside one lane changes `xxh32`**, wherever the lane is. -/
theorem xxh32_detects (h : OneLane (xxh32Lane d.length) d d' i) (seed : BitVec 32) :
    xxh32 d seed ≠ xxh32 d' seed := by
  have hlt := h.lt
  rw [xxh32_eq, xxh32_eq, h.length_eq]
  refine xxh32Final_injective.ne ?_
  have hword : ∀ k < d.length / 4, k ≠ i / 4 ∨ 4 * (d.length / 4) ≤ i →
      word32 d k = word32 d' k := by
    intro k hk hne
    refine h.word32_eq fun b hb => ?_
    rw [xxh32Lane, xxh32Lane, if_pos (by omega)]
    split_ifs <;> omega
  by_cases hbyte : 4 * (d.length / 4) ≤ i
  · -- a single byte
    have hat : 4 * (d.length / 4) + (i - 4 * (d.length / 4)) = i := by omega
    rw [head32_congr h.length_eq seed fun k hk => hword k (by omega) (.inr hbyte),
      foldl_range_congr fun k hk => hword _ (by omega) (.inr hbyte)]
    refine mixes_xxh32Byte.foldl_ne (k := i - 4 * (d.length / 4)) (by omega) ?_ fun k hk hne => ?_
    · simpa only [hat] using h.getD_ne
    · refine h.getD_eq ?_
      rw [xxh32Lane, xxh32Lane, if_neg (by omega), if_neg (by omega)]
      omega
  · have hbytes : ∀ k < d.length % 4, d.getD (4 * (d.length / 4) + k) 0#8 =
        d'.getD (4 * (d.length / 4) + k) 0#8 := by
      intro k hk
      refine h.getD_eq ?_
      rw [xxh32Lane, xxh32Lane, if_neg (by omega), if_pos (by omega)]
      omega
    rw [foldl_range_congr hbytes]
    refine (mixes_xxh32Byte.foldl_injective _).ne ?_
    by_cases hstripe : i < 16 * (d.length / 16)
    · rw [foldl_range_congr fun k hk => hword _ (by omega) (.inl (by omega))]
      refine (mixes_xxh32Word.foldl_injective _).ne ?_
      exact (add_left_injective _).ne (head32_ne h hstripe seed)
    · -- a word behind the stripes
      have hat : 4 * (d.length / 16) + (i / 4 - 4 * (d.length / 16)) = i / 4 := by omega
      rw [head32_congr h.length_eq seed fun k hk => hword k (by omega) (.inl (by omega))]
      refine mixes_xxh32Word.foldl_ne (k := i / 4 - 4 * (d.length / 16)) (by omega) ?_
        fun k hk hne => hword _ (by omega) (.inl (by omega))
      simpa only [hat] using h.word32_ne

/-- A byte of the first stripe. -/
theorem xxh32_detects_stripe : xxh32 (List.replicate 21 7#8) 1 ≠
    xxh32 ((List.replicate 21 7#8).set 5 8#8) 1 :=
  xxh32_detects (d := List.replicate 21 7#8) (i := 5) ⟨by decide, by decide, by decide⟩ 1

end Xxh32

/-! ## 64 bits -/

section Xxh64

variable {d d' : List Byte} {i : ℕ}

/-- `h64` behind the stripes. -/
def head64 (input : List Byte) (seed : BitVec 64) : BitVec 64 :=
  if 32 ≤ input.length then
    let v := stripes xxh64Round (word64 input) (input.length / 32)
      ![seed + prime64_1 + prime64_2, seed + prime64_2, seed + 0, seed - prime64_1]
    let h64 := xxhRotl (v 0) 1 + xxhRotl (v 1) 7 + xxhRotl (v 2) 12 + xxhRotl (v 3) 18
    let h64 := xxh64MergeRound (xxh64MergeRound h64 (v 0)) (v 1)
    xxh64MergeRound (xxh64MergeRound h64 (v 2)) (v 3)
  else seed + prime64_5

lemma xxh64Start_eq (seed : BitVec 64) :
    xxh64Start d seed = (head64 d seed, d.drop (32 * (d.length / 32))) := by
  unfold xxh64Start head64
  split
  · rename_i hlen
    dsimp only
    rw [eat_do (by decide) hlen, xxh64Stripe, eat_stripes (n := 8) (by decide)]
    rfl
  · have hzero : d.length / 32 = 0 := by omega
    rw [hzero, Nat.mul_zero, List.drop_zero]

lemma le64_drop (m k : ℕ) : getUnalignedLe64 (d.drop (8 * m + 8 * k)) = word64 d (m + k) := by
  rw [word64, Nat.mul_add]

/-- The hash, with each loop as a fold. -/
lemma xxh64_eq (seed : BitVec 64) : xxh64 d seed = xxh64Final
    ((List.range (d.length % 4)).foldl
      (fun h k => xxh64Byte h (d.getD (4 * (d.length / 4) + k) 0#8))
      ((List.range (d.length % 8 / 4)).foldl
        (fun h k => xxh64Half h (word32 d (2 * (d.length / 8) + k)))
        ((List.range (d.length % 32 / 8)).foldl
          (fun h k => xxh64Word h (word64 d (4 * (d.length / 32) + k)))
          (head64 d seed + BitVec.ofNat 64 d.length)))) := by
  have hstart : 32 * (d.length / 32) = 8 * (4 * (d.length / 32)) := by omega
  have hcount : (d.length - 8 * (4 * (d.length / 32))) / 8 = d.length % 32 / 8 := by omega
  have hrest : 8 * (4 * (d.length / 32)) + 8 * (d.length % 32 / 8) = 4 * (2 * (d.length / 8)) := by
    omega
  have hhalf : (d.length - 4 * (2 * (d.length / 8))) / 4 = d.length % 8 / 4 := by omega
  have hrest' : 4 * (2 * (d.length / 8)) + 4 * (d.length % 8 / 4) = 4 * (d.length / 4) := by omega
  have hbytes : d.length - 4 * (d.length / 4) = d.length % 4 := by omega
  have hshort : (d.drop (4 * (2 * (d.length / 8)))).length < 4 + 4 := by
    rw [List.length_drop]
    omega
  simp only [xxh64, xxh64Start_eq, hstart]
  rw [eat_eq (n := 8) (by decide)]
  simp only [List.length_drop, hcount, List.drop_drop, le64_drop, hrest]
  rw [bite_eq_eat (by decide) hshort, eat_eq (n := 4) (by decide)]
  simp only [List.length_drop, hhalf, List.drop_drop, le32_drop, hrest', eat_bytes, hbytes]

/-- The lane of byte `i`: a word of 8 bytes, the 4 bytes behind the words, or a single byte. -/
def xxh64Lane (len i : ℕ) : ℕ :=
  if i < 8 * (len / 8) then i / 8 else if i < 4 * (len / 4) then i / 4 else i

lemma head64_congr (hlen : d'.length = d.length) (seed : BitVec 64)
    (h : ∀ k < 4 * (d.length / 32), word64 d k = word64 d' k) : head64 d seed = head64 d' seed := by
  have hstripes : ∀ v, stripes xxh64Round (word64 d) (d.length / 32) v =
      stripes xxh64Round (word64 d') (d.length / 32) v := by
    intro v
    funext i
    exact foldl_range_congr fun k hk => h _ (by omega)
  rw [head64, head64, hlen]
  simp only [hstripes]

/-- **A change inside one lane behind the last whole stripe changes `xxh64`.** -/
theorem xxh64_detects (h : OneLane (xxh64Lane d.length) d d' i) (hi : 32 * (d.length / 32) ≤ i)
    (seed : BitVec 64) : xxh64 d seed ≠ xxh64 d' seed := by
  have hlt := h.lt
  rw [xxh64_eq, xxh64_eq, h.length_eq]
  refine xxh64Final_injective.ne ?_
  have hword : ∀ k < d.length / 8, k ≠ i / 8 ∨ 8 * (d.length / 8) ≤ i →
      word64 d k = word64 d' k := by
    intro k hk hne
    refine h.word64_eq fun b hb => ?_
    rw [xxh64Lane, xxh64Lane, if_pos (by omega)]
    split_ifs <;> omega
  have hhalf : ∀ k < d.length % 8 / 4, 4 * (d.length / 4) ≤ i ∨ i < 8 * (d.length / 8) →
      word32 d (2 * (d.length / 8) + k) = word32 d' (2 * (d.length / 8) + k) := by
    intro k hk hne
    refine h.word32_eq fun b hb => ?_
    rw [xxh64Lane, xxh64Lane, if_neg (by omega), if_pos (by omega)]
    split_ifs <;> omega
  have hbytes : ∀ k < d.length % 4, 4 * (d.length / 4) + k ≠ i →
      d.getD (4 * (d.length / 4) + k) 0#8 = d'.getD (4 * (d.length / 4) + k) 0#8 := by
    intro k hk hne
    refine h.getD_eq ?_
    rw [xxh64Lane, xxh64Lane, if_neg (by omega), if_neg (by omega)]
    split_ifs <;> omega
  rw [head64_congr h.length_eq seed fun k hk => hword k (by omega) (by omega)]
  by_cases hbyte : 4 * (d.length / 4) ≤ i
  · -- a single byte
    have hat : 4 * (d.length / 4) + (i - 4 * (d.length / 4)) = i := by omega
    rw [foldl_range_congr fun k hk => hword _ (by omega) (.inr (by omega)),
      foldl_range_congr fun k hk => hhalf k hk (.inl hbyte)]
    refine mixes_xxh64Byte.foldl_ne (k := i - 4 * (d.length / 4)) (by omega) ?_
      fun k hk hne => hbytes k hk (by omega)
    simpa only [hat] using h.getD_ne
  · rw [foldl_range_congr fun k hk => hbytes k hk (by omega)]
    refine (mixes_xxh64Byte.foldl_injective _).ne ?_
    by_cases hin : i < 8 * (d.length / 8)
    · -- a word of 8 bytes
      have hat : 4 * (d.length / 32) + (i / 8 - 4 * (d.length / 32)) = i / 8 := by omega
      rw [foldl_range_congr fun k hk => hhalf k hk (.inr hin)]
      refine (mixes_xxh64Half.foldl_injective _).ne ?_
      refine mixes_xxh64Word.foldl_ne (k := i / 8 - 4 * (d.length / 32)) (by omega) ?_
        fun k hk hne => hword _ (by omega) (.inl (by omega))
      simpa only [hat] using h.word64_ne
    · -- the 4 bytes behind the words
      have hat : 2 * (d.length / 8) + 0 = i / 4 := by omega
      rw [foldl_range_congr fun k hk => hword _ (by omega) (.inr (by omega))]
      refine mixes_xxh64Half.foldl_ne (k := 0) (by omega) ?_ fun k hk hne => by omega
      simpa only [hat] using h.word32_ne

/-- A byte of the word behind the stripe. -/
theorem xxh64_detects_word : xxh64 (List.replicate 45 7#8) 1 ≠
    xxh64 ((List.replicate 45 7#8).set 33 8#8) 1 :=
  xxh64_detects (d := List.replicate 45 7#8) (i := 33) ⟨by decide, by decide, by decide⟩
    (by decide) 1

end Xxh64

/-! ## Seeds -/

section Seeds

variable {d : List Byte}

/-- **Short inputs and `xxh32`**: below one stripe every value is the hash for exactly one seed. -/
theorem xxh32_bijective (h : d.length < 16) : Bijective (xxh32 d) := by
  refine bijective_of_injective ?_
  have hhead : ∀ seed, head32 d seed = seed + prime32_5 := fun seed => if_neg (by omega)
  have heq : xxh32 d = fun seed => xxh32Final _ := funext fun seed => xxh32_eq seed
  rw [heq]
  simp only [hhead]
  exact xxh32Final_injective.comp ((mixes_xxh32Byte.foldl_injective _).comp
    ((mixes_xxh32Word.foldl_injective _).comp
      ((add_left_injective _).comp (add_left_injective _))))

theorem xxh32_bijective_twoBytes : Bijective (xxh32 [1#8, 2#8]) := xxh32_bijective (by decide)

/-- **Short inputs and `xxh64`.** -/
theorem xxh64_bijective (h : d.length < 32) : Bijective (xxh64 d) := by
  refine bijective_of_injective ?_
  have hhead : ∀ seed, head64 d seed = seed + prime64_5 := fun seed => if_neg (by omega)
  have heq : xxh64 d = fun seed => xxh64Final _ := funext fun seed => xxh64_eq seed
  rw [heq]
  simp only [hhead]
  exact xxh64Final_injective.comp ((mixes_xxh64Byte.foldl_injective _).comp
    ((mixes_xxh64Half.foldl_injective _).comp ((mixes_xxh64Word.foldl_injective _).comp
      ((add_left_injective _).comp (add_left_injective _)))))

theorem xxh64_bijective_twoBytes : Bijective (xxh64 [1#8, 2#8]) := xxh64_bijective (by decide)

end Seeds

end KanekFs.Hash
