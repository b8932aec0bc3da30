import KanekFs.Lib.CString
import KanekFs.Lib.Digits
import KanekFs.Lib.Word
import Mathlib.Order.Interval.Set.Defs

/-!
# Hashing words

`hash_b79` of `hash.c` makes a 64-bit number of the first ten characters of a string: ten digits
in base 79, given by the table `hb79_r`.

* `hashB79_eq`: on ASCII strings nothing wraps, and the hash is the number with these digits.
* `hashB79_orders_words`: on words of the documented alphabet the hash has the order of
  `strcmp`.
* `hashB79_order`: on all ASCII strings it has the order of the digits. Several characters share
  a digit, and two strings that first differ in such characters can be out of order.
* `staysBelow_iff`: the table has no range for the negative values that the bytes from 128 on have
  as a `char`, and the hash wraps on them.
-/

namespace KanekFs.Hash

open Bytes Word CString Digits

/-! ## Definitions -/

/-- `hb79_r_t`. -/
structure Hb79R where
  lim : ℤ
  val : ℤ
  flag : ℤ

/-- `hb79_r`, with the entry that ends it. -/
def hb79R : List Hb79R :=
  [⟨1, 0, 0⟩, ⟨0x20, 1, 0⟩, ⟨0x22, 2, 1⟩, ⟨0x28, 4, 0⟩, ⟨0x2a, 5, 1⟩, ⟨0x2d, 7, 0⟩, ⟨0x3a, 8, 1⟩,
   ⟨0x41, 21, 0⟩, ⟨0x5b, 22, 1⟩, ⟨0x5e, 48, 0⟩, ⟨0x61, 49, 0⟩, ⟨0x7b, 50, 1⟩, ⟨0x7d, 76, 0⟩,
   ⟨0x7f, 77, 0⟩, ⟨256, 78, 0⟩, ⟨0, 0, 0⟩]

/-- The loop of `ascii_2_mx79`; `liminf` is the limit of the range before. -/
def mx79Loop (c : ℤ) : List Hb79R → ℤ → ℤ
  | [], _ => -1
  | r :: rs, liminf =>
    if r.lim = 0 then -1
    else if liminf ≤ c ∧ c < r.lim then
      if r.flag = 0 then r.val else c - liminf + r.val
    else mx79Loop c rs r.lim

def ascii2Mx79 (c : ℤ) : ℤ := mx79Loop c hb79R 0

/-- `cc` in iteration `i`; the length is kept in an `int`, and a `char` is signed. -/
def mx79At (s : CStr) (i : ℕ) : ℤ :=
  if i < toInt32 (strlen s) then ascii2Mx79 (s.chars.getD i 0#8).toInt else 0

/-- `h *= 79; h += cc;` -/
def hashStep (h : ℕ) (cc : ℤ) : ℕ := u64 (u64 (h * 79) + (cc % 2 ^ 64).toNat)

/-- `h` after the first `n` iterations. -/
def hashLoop (s : CStr) (n : ℕ) : ℕ :=
  (List.range n).foldl (fun h i => hashStep h (mx79At s i)) 0

def hashB79 (s : CStr) : ℕ := hashLoop s 10

/-! ## The table -/

/-- The digit of an ASCII character. -/
def digit (c : ℕ) : ℕ := (ascii2Mx79 c).toNat

/-- The string consists of ASCII characters. -/
def Ascii (s : CStr) : Prop := ∀ c ∈ s.codes, c < 128

instance (s : CStr) : Decidable (Ascii s) := inferInstanceAs (Decidable (∀ c ∈ s.codes, c < 128))

/-- The characters for which the hash has no collisions. -/
def alphabet : List ℕ :=
  " !()-./0123456789ABCDEFGHIJKLMNOPQRSTUVWXYZ_abcdefghijklmnopqrstuvwxyz".toList.map Char.toNat

/-- Every ASCII character has a digit. -/
lemma ascii2Mx79_range : ∀ c < 128, 0 ≤ ascii2Mx79 (c : ℕ) ∧ ascii2Mx79 (c : ℕ) < 79 := by
  decide +kernel

lemma ascii2Mx79_eq_digit {c : ℕ} (h : c < 128) : ascii2Mx79 c = digit c :=
  (Int.toNat_of_nonneg (ascii2Mx79_range c h).1).symm

lemma digit_lt {c : ℕ} (h : c < 128) : digit c < 79 := by
  have hrange := ascii2Mx79_range c h
  unfold digit
  omega

/-- The ranges of the table are in ascending order. -/
lemma digit_le_succ : ∀ c < 127, digit c ≤ digit (c + 1) := by decide +kernel

lemma monotoneOn_digit : MonotoneOn digit (Set.Iio 128) := by
  intro a ha b hb hab
  induction b, hab using Nat.le_induction with
  | base => exact le_rfl
  | succ b hab ih =>
    have hlt : b + 1 < 128 := hb
    have hb' : b ∈ Set.Iio 128 := Set.mem_Iio.mpr (by omega)
    exact (ih hb').trans (digit_le_succ b (by omega))

/-- Every character of the alphabet has a range of its own, or its own value in a range. -/
lemma strictMonoOn_digit : StrictMonoOn digit {c | c ∈ alphabet} := by
  have hchain : (alphabet.map digit).IsChain (· < ·) ∧ alphabet.IsChain (· < ·) := by
    decide +kernel
  have hdigits : alphabet.Pairwise fun a b => a < b → digit a < digit b := by
    refine (List.pairwise_map.mp (List.isChain_iff_pairwise.mp hchain.1)).imp ?_
    exact fun h _ => h
  have hcodes : alphabet.Pairwise (flip fun a b => a < b → digit a < digit b) := by
    refine (List.isChain_iff_pairwise.mp hchain.2).imp ?_
    exact fun h h' => absurd h' h.not_gt
  intro a ha b hb hab
  exact hdigits.forall_of_forall_of_flip (fun x _ h => absurd h (lt_irrefl x)) hcodes ha hb hab

lemma alphabet_range : ∀ a ∈ alphabet, 0 < digit a ∧ a < 128 := by decide +kernel

/-! ## The hash as a number -/

/-- What the loop takes for the string: all of it, unless its length does not fit an `int`. -/
def seen (s : CStr) : CStr := s.take (toInt32 (strlen s)).toNat

/-- The ten digits of a string. -/
def digits (s : CStr) : List ℕ := padded digit 10 (seen s).codes

section Number

variable {s t : CStr} {n : ℕ}

lemma seen_of_lt (h : strlen s < 2 ^ 31) : seen s = s := by
  rw [seen, toInt32_of_lt h, Int.toNat_natCast]
  exact CStr.take_of_length_le le_rfl

/-- The characters that the loop gets to. -/
lemma lt_seen_iff {i : ℕ} : i < (seen s).chars.length ↔ (i : ℤ) < toInt32 (strlen s) := by
  have hle := toInt32_le (strlen s)
  simp only [seen, CStr.take, List.length_take, strlen] at hle ⊢
  omega

lemma getElem_seen {i : ℕ} (hi : i < (seen s).chars.length) :
    (seen s).chars[i] = s.chars.getD i 0#8 := by
  have hlen : i < s.chars.length := by
    simp only [seen, CStr.take, List.length_take] at hi
    omega
  simp [seen, CStr.take, hlen]

lemma Ascii.seen (hs : Ascii s) : Ascii (seen s) := by
  intro c hc
  rcases List.mem_map.mp hc with ⟨b, hb, rfl⟩
  exact hs _ (List.mem_map_of_mem (List.mem_of_mem_take hb))

lemma lt_of_mem_padded (hs : Ascii s) : ∀ d ∈ padded digit n s.codes, d < 79 := by
  intro d hd
  rcases mem_padded hd with rfl | ⟨c, hc, rfl⟩
  · decide
  · exact digit_lt (hs c hc)

/-- What the loop adds are the digits. -/
lemma mx79At_eq (hs : Ascii s) {i : ℕ} (hi : i < (padded digit n (seen s).codes).length) :
    mx79At s i = (padded digit n (seen s).codes)[i] := by
  rw [getElem_padded, mx79At]
  by_cases hlt : i < (seen s).chars.length
  · have hcode : (seen s).codes[i]? = some ((seen s).chars[i]).toNat := by
      simp [CStr.codes, hlt]
    have hascii : ((seen s).chars[i]).toNat < 128 := hs.seen _ (List.mem_of_getElem? hcode)
    have hsigned : ((seen s).chars[i]).toInt = ((seen s).chars[i]).toNat := by
      rw [BitVec.toInt_eq_toNat_cond, if_pos (by omega)]
    rw [if_pos (lt_seen_iff.mp hlt), hcode, ← getElem_seen hlt, hsigned,
      ascii2Mx79_eq_digit hascii]
    rfl
  · have hnone : (seen s).codes[i]? = none := by simp [CStr.codes, not_lt.mp hlt]
    rw [if_neg (mt lt_seen_iff.mpr hlt), hnone]
    rfl

/-- The loop over the digits, with its wraps. -/
lemma hashLoop_eq_foldl (hs : Ascii s) (n : ℕ) :
    hashLoop s n =
      (padded digit n (seen s).codes).foldl (fun h d => u64 (u64 (h * 79) + d)) 0 := by
  have hlist : (List.range n).map (mx79At s) =
      (padded digit n (seen s).codes).map (Nat.cast : ℕ → ℤ) := by
    apply List.ext_getElem (by simp)
    intro i hi hi'
    rw [List.getElem_map, List.getElem_range, List.getElem_map]
    exact mx79At_eq hs _
  have hfold : hashLoop s n = ((List.range n).map (mx79At s)).foldl hashStep 0 := by
    rw [hashLoop, List.foldl_map]
  rw [hfold, hlist, List.foldl_map]
  apply List.foldl_ext
  intro h d hd
  have hlt := lt_of_mem_padded hs.seen d hd
  rw [hashStep, Int.emod_eq_of_lt (by omega) (by omega), Int.toNat_natCast]

/-- As long as the number with all its digits fits 64 bits, no step wraps. -/
lemma foldl_u64 {l : List ℕ} {h : ℕ} (hl : ∀ d ∈ l, d < 79)
    (hfit : (h + 1) * 79 ^ l.length ≤ 2 ^ 64) :
    l.foldl (fun h d => u64 (u64 (h * 79) + d)) h = l.foldl (fun h d => h * 79 + d) h := by
  induction l generalizing h with
  | nil => rfl
  | cons d l ih =>
    rw [List.forall_mem_cons] at hl
    rw [List.length_cons, pow_succ] at hfit
    have hpos : 1 ≤ 79 ^ l.length := Nat.one_le_pow _ _ (by decide)
    have hnext : (h * 79 + d + 1) * 79 ^ l.length ≤ 2 ^ 64 := by
      calc (h * 79 + d + 1) * 79 ^ l.length ≤ ((h + 1) * 79) * 79 ^ l.length :=
            Nat.mul_le_mul_right _ (by omega)
        _ = (h + 1) * (79 ^ l.length * 79) := by ring
        _ ≤ 2 ^ 64 := hfit
    have hlt : h * 79 + d + 1 ≤ 2 ^ 64 := (Nat.le_mul_of_pos_right _ hpos).trans hnext
    rw [List.foldl_cons, List.foldl_cons, u64_of_lt (n := h * 79) (by omega),
      u64_of_lt (by omega)]
    exact ih hl.2 hnext

lemma pow_le_of_le_ten {n : ℕ} (h : n ≤ 10) : 79 ^ n ≤ 79 ^ 10 :=
  Nat.pow_le_pow_right (by decide) h

/-- After `n` iterations the hash is the number with the first `n` digits. -/
theorem hashLoop_eq (hs : Ascii s) (hn : n ≤ 10) :
    hashLoop s n = ofWord 79 (padded digit n (seen s).codes) := by
  have hpow := pow_le_of_le_ten hn
  have hfit : 79 ^ 10 ≤ 2 ^ 64 := by decide
  rw [hashLoop_eq_foldl hs, foldl_u64 (lt_of_mem_padded hs.seen), foldl_eq_ofWord]
  · simp
  · rw [length_padded]
    omega

theorem hashB79_eq (hs : Ascii s) : hashB79 s = ofWord 79 (digits s) := hashLoop_eq hs le_rfl

end Number

/-! ## Wraps -/

section Wraps

variable {s : CStr} {n : ℕ}

/-- No product and no sum of the loop reaches 2^64, and nothing negative is added. -/
def NoWrap (s : CStr) : Prop :=
  ∀ i < 10, hashLoop s i * 79 < 2 ^ 64 ∧ 0 ≤ mx79At s i ∧
    (hashLoop s i * 79 : ℕ) + mx79At s i < 2 ^ 64

/-- The characters that the hash uses have codes, nothing wraps, and the hash is a number of ten
digits. -/
structure StaysBelow (s : CStr) : Prop where
  code : ∀ i : ℕ, i < 10 → (i : ℤ) < toInt32 (strlen s) →
    0 ≤ ascii2Mx79 (s.chars.getD i 0#8).toInt ∧ ascii2Mx79 (s.chars.getD i 0#8).toInt ≤ 78
  noWrap : NoWrap s
  hash_lt : hashB79 s < 79 ^ 10

lemma hashLoop_succ : hashLoop s (n + 1) = hashStep (hashLoop s n) (mx79At s n) := by
  rw [hashLoop, List.range_succ, List.foldl_append]
  rfl

/-- A code that is added to a number of `n` digits makes it one of `n + 1` digits. -/
lemma hashStep_lt {h : ℕ} {cc : ℤ} (hn : n < 10) (hh : h < 79 ^ n) (hcc : 0 ≤ cc ∧ cc < 79) :
    hashStep h cc < 79 ^ (n + 1) ∧ h * 79 < 2 ^ 64 ∧ (h * 79 : ℕ) + cc < 2 ^ 64 := by
  have hpow : 79 ^ n ≤ 79 ^ 9 := Nat.pow_le_pow_right (by decide) (by omega)
  obtain ⟨d, rfl⟩ := Int.eq_ofNat_of_zero_le hcc.1
  rw [hashStep, Int.emod_eq_of_lt (by omega) (by omega), Int.toNat_natCast,
    u64_of_lt (n := h * 79) (by omega), u64_of_lt (by omega), pow_succ]
  omega

lemma hashLoop_lt (hcodes : ∀ i < 10, 0 ≤ mx79At s i ∧ mx79At s i < 79) (hn : n ≤ 10) :
    hashLoop s n < 79 ^ n := by
  induction n with
  | zero => simp [hashLoop]
  | succ n ih =>
    rw [hashLoop_succ]
    exact (hashStep_lt (by omega) (ih (by omega)) (hcodes n (by omega))).1

theorem noWrap_of_codes (hcodes : ∀ i < 10, 0 ≤ mx79At s i ∧ mx79At s i < 79) : NoWrap s := by
  intro i hi
  have hlt := hashLoop_lt hcodes hi.le
  rcases hashStep_lt hi hlt (hcodes i hi) with ⟨-, hmul, hadd⟩
  exact ⟨hmul, (hcodes i hi).1, hadd⟩

theorem noWrap_of_ascii (hs : Ascii s) : NoWrap s := by
  apply noWrap_of_codes
  intro i hi
  have hmem : i < (padded digit 10 (seen s).codes).length := by
    rw [length_padded]
    exact hi
  have hdigit := lt_of_mem_padded hs.seen _ (List.getElem_mem hmem)
  rw [mx79At_eq hs hmem]
  omega

/-- The ranges of the table start at 0. -/
lemma mx79Loop_of_neg {c liminf : ℤ} {rs : List Hb79R} (hc : c < 0) (hliminf : 0 ≤ liminf)
    (hrs : ∀ r ∈ rs, 0 ≤ r.lim) : mx79Loop c rs liminf = -1 := by
  induction rs generalizing liminf with
  | nil => rfl
  | cons r rs ih =>
    rw [List.forall_mem_cons] at hrs
    have hout : ¬ (liminf ≤ c ∧ c < r.lim) := by omega
    rw [mx79Loop, if_neg hout, ih hrs.1 hrs.2, ite_self]

lemma ascii2Mx79_of_neg {c : ℤ} (hc : c < 0) : ascii2Mx79 c = -1 :=
  mx79Loop_of_neg hc le_rfl (by decide)

/-- A `char` has a code exactly when it is not negative. -/
lemma code_range_iff (b : Byte) :
    (0 ≤ ascii2Mx79 b.toInt ∧ ascii2Mx79 b.toInt ≤ 78) ↔ b.toNat < 128 := by
  have hsigned : b.toInt = if b.toNat < 128 then (b.toNat : ℤ) else b.toNat - 256 := by
    rw [BitVec.toInt_eq_toNat_cond]
    split_ifs <;> omega
  constructor
  · rintro ⟨hcode, -⟩
    by_contra hge
    have hneg : b.toInt < 0 := by
      rw [hsigned, if_neg hge]
      omega
    rw [ascii2Mx79_of_neg hneg] at hcode
    omega
  · intro hlt
    have hrange := ascii2Mx79_range b.toNat hlt
    rw [hsigned, if_pos hlt]
    omega

/-- **Nothing wraps** exactly when the characters that the hash uses, at most ten, are ASCII. -/
theorem staysBelow_iff (s : CStr) :
    StaysBelow s ↔
      ∀ i : ℕ, i < 10 → (i : ℤ) < toInt32 (strlen s) → (s.chars.getD i 0#8).toNat < 128 := by
  constructor
  · intro h i hi hlen
    exact (code_range_iff _).mp (h.code i hi hlen)
  · intro h
    have hcodes : ∀ i < 10, 0 ≤ mx79At s i ∧ mx79At s i < 79 := by
      intro i hi
      rw [mx79At]
      split_ifs with hlen
      · have hrange := (code_range_iff _).mpr (h i hi hlen)
        omega
      · decide
    refine ⟨?_, noWrap_of_codes hcodes, hashLoop_lt hcodes le_rfl⟩
    intro i hi hlen
    exact (code_range_iff _).mpr (h i hi hlen)

/-- `"é"` in UTF-8: its first byte has no code, and -1 is added to the hash. -/
theorem hash_wraps_on_utf8 : ¬ StaysBelow ⟨[0xc3#8, 0xa9#8], by decide⟩ := by
  intro h
  have hcode := (h.code 0 (by decide) (by decide)).1
  revert hcode
  decide

end Wraps

/-! ## Order -/

section Order

variable {s t : CStr}

/-- Two ASCII strings are hashed in the order of their digits. -/
theorem hashB79_lt_iff (hs : Ascii s) (ht : Ascii t) :
    hashB79 s < hashB79 t ↔ digits s < digits t := by
  rw [hashB79_eq hs, hashB79_eq ht]
  exact ofWord_lt_ofWord_iff (by decide) (lt_of_mem_padded hs.seen) (lt_of_mem_padded ht.seen)
    (by simp [digits])

theorem hashB79_le_iff (hs : Ascii s) (ht : Ascii t) :
    hashB79 s ≤ hashB79 t ↔ digits s ≤ digits t := by
  rw [← not_lt, hashB79_lt_iff ht hs, not_lt]

/-- A word of at most ten characters of the alphabet. -/
structure AlphabetWord (s : CStr) : Prop where
  chars : ∀ c ∈ s.codes, c ∈ alphabet
  length : strlen s ≤ 10

lemma AlphabetWord.ascii (hs : AlphabetWord s) : Ascii s := fun c hc =>
  (alphabet_range c (hs.chars c hc)).2

lemma AlphabetWord.digits_lt_iff (hs : AlphabetWord s) (ht : AlphabetWord t) :
    digits s < digits t ↔ strcmp s t < 0 := by
  have hls : s.codes.length ≤ 10 := by simpa [CStr.codes, strlen] using hs.length
  have hlt : t.codes.length ≤ 10 := by simpa [CStr.codes, strlen] using ht.length
  rw [strcmp_lt_zero_iff, digits, digits, seen_of_lt (lt_of_le_of_lt hs.length (by decide)),
    seen_of_lt (lt_of_le_of_lt ht.length (by decide))]
  exact padded_lt_padded_iff strictMonoOn_digit (fun a ha => (alphabet_range a ha).1)
    hs.chars ht.chars hls hlt

/-- **Words of the alphabet** are hashed in the order of `strcmp` and without collisions, and no
intermediate value reaches 2^64. -/
theorem hashB79_orders_words (hs : AlphabetWord s) (ht : AlphabetWord t) :
    (hashB79 s < hashB79 t ↔ strcmp s t < 0) ∧ (hashB79 s = hashB79 t → s = t) ∧
      NoWrap s ∧ NoWrap t := by
  have hst := (hashB79_lt_iff hs.ascii ht.ascii).trans (hs.digits_lt_iff ht)
  have hts := (hashB79_lt_iff ht.ascii hs.ascii).trans (ht.digits_lt_iff hs)
  refine ⟨hst, ?_, noWrap_of_ascii hs.ascii, noWrap_of_ascii ht.ascii⟩
  intro heq
  -- neither string comes before the other
  have h₁ : ¬ s.codes < t.codes := fun h => heq.not_lt (hst.mpr (strcmp_lt_zero_iff.mpr h))
  have h₂ : ¬ t.codes < s.codes := fun h => heq.not_gt (hts.mpr (strcmp_lt_zero_iff.mpr h))
  exact CStr.codes_injective (le_antisymm (not_lt.mp h₂) (not_lt.mp h₁))

/-- `"cat"` and `"dog"`, the words of the documentation. -/
theorem hashB79_orders_cat_dog :
    (hashB79 (ofChars "cat") < hashB79 (ofChars "dog") ↔
        strcmp (ofChars "cat") (ofChars "dog") < 0) ∧
      (hashB79 (ofChars "cat") = hashB79 (ofChars "dog") → ofChars "cat" = ofChars "dog") ∧
      NoWrap (ofChars "cat") ∧ NoWrap (ofChars "dog") :=
  hashB79_orders_words ⟨by decide, by decide⟩ ⟨by decide, by decide⟩

/-- **ASCII strings of any length**: the order of the hashes is that of the digits. So two strings
in the order of `strcmp` whose lengths fit an `int` are hashed in this order, unless they first
differ, within ten characters, in two characters that share a digit. -/
theorem hashB79_order (hs : Ascii s) (ht : Ascii t) (hst : strcmp s t ≤ 0) :
    (strlen s < 2 ^ 31 → strlen t < 2 ^ 31 → ¬ ShareDigit digit 10 s.codes t.codes →
        hashB79 s ≤ hashB79 t) ∧
      (hashB79 s ≤ hashB79 t ↔ digits s ≤ digits t) := by
  refine ⟨?_, hashB79_le_iff hs ht⟩
  intro hls hlt hshare
  rw [hashB79_le_iff hs ht, digits, digits, seen_of_lt hls, seen_of_lt hlt]
  exact padded_le_padded monotoneOn_digit hs ht (strcmp_le_zero_iff.mp hst) hshare

/-- `"a!"` and `"a!b"`, one a prefix of the other. -/
theorem hashB79_order_prefix :
    (strlen (ofChars "a!") < 2 ^ 31 → strlen (ofChars "a!b") < 2 ^ 31 →
        ¬ ShareDigit digit 10 (ofChars "a!").codes (ofChars "a!b").codes →
        hashB79 (ofChars "a!") ≤ hashB79 (ofChars "a!b")) ∧
      (hashB79 (ofChars "a!") ≤ hashB79 (ofChars "a!b") ↔
        digits (ofChars "a!") ≤ digits (ofChars "a!b")) :=
  hashB79_order (by decide) (by decide) (by decide)

/-- `"` and `#` share a digit: `"\"z"` comes before `"#a"`, and its hash is the greater one. -/
theorem hashB79_out_of_order :
    ¬ ∀ s t : CStr, Ascii s → Ascii t → strcmp s t ≤ 0 → hashB79 s ≤ hashB79 t := by
  intro h
  have hle := h (ofChars "\"z") (ofChars "#a") (by decide) (by decide) (by decide)
  revert hle
  decide +kernel

end Order

end KanekFs.Hash
