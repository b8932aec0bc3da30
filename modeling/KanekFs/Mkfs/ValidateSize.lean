import KanekFs.Lib.Ctype

/-!
# Sizes on the command line

`validate_size` of `kfs_mkfs.c` reads a number with an optional unit. It checks the characters,
but neither the saturation of `strtoul` nor the product with the unit.

* `IsSize` is what a size is: digits, and one of `m`, `M`, `g`, `G` or nothing.
* `validateSize_of_size` and `validateSize_of_not_size` are the result in closed form: the
  characters up to the last one that is looked at decide, and the number is that of the digits in
  front.
* `sizeExact_iff` says on which strings the result is the size or 0, and `sizeExact_iff_of_short`
  what this is for lengths that fit an `int`.
* `validateSize_eq_value`: a size that fits 64 bits is returned, not refused.
-/

namespace KanekFs.Mkfs

open Bytes CString Ctype Word

/-! ## Definitions -/

def validateSize (str_size : CStr) : Option ℕ :=
  let l := toInt32 (strlen str_size)
  -- `l-1` overflows
  if l = -2 ^ 31 then none
  else
    let i := (l - 1).toNat
    if ¬ (str_size.chars.take i).all isdigit then some 0
    else
      -- for the empty string this is the terminator
      let last := str_size.chars.getD i 0#8
      if isdigit last then some (strtoul str_size)
      else if isalpha last then
        let uint_size := strtoul str_size
        if toupper last = 0x4d#8 then some (u64 (uint_size * 1048576))
        else if toupper last = 0x47#8 then some (u64 (uint_size * 1073741824))
        else some 0
      else some 0

/-- The factor of a unit. -/
def unitOf : List Byte → Option ℕ
  | [] => some 1
  | [c] =>
    if c = 0x6d#8 ∨ c = 0x4d#8 then some (2 ^ 20)
    else if c = 0x67#8 ∨ c = 0x47#8 then some (2 ^ 30)
    else none
  | _ => none

/-- The number `v`, and a unit of `u`. -/
def IsSize (cs : List Byte) (v u : ℕ) : Prop :=
  ∃ ds suffix, cs = ds ++ suffix ∧ ds ≠ [] ∧ (∀ d ∈ ds, isdigit d = true) ∧ decimal ds = v ∧
    unitOf suffix = some u

/-- A result other than 0 is the size, and a size that does not fit 64 bits is refused. -/
def SizeExact (s : CStr) : Prop :=
  ∃ r, validateSize s = some r ∧ (r ≠ 0 → ∃ v u, IsSize s.chars v u ∧ r = v * u) ∧
    ∀ v u, IsSize s.chars v u → 2 ^ 64 ≤ v * u → r = 0

/-- The part of the string that is looked at: all of it, unless its length does not fit an `int`. -/
def scanned (s : CStr) : List Byte := s.chars.take ((toInt32 (strlen s) - 1).toNat + 1)

/-- The number in front. -/
def lead (s : CStr) : ℕ := decimal (s.chars.takeWhile isdigit)

/-- What is looked at is no size; or it is one without a unit, and the number in front is 0 or all
there is and fits 64 bits; or it is one with a unit, and its value is all there is and fits
64 bits, or a multiple of 2^64 that the product makes 0. -/
def ReadRight (s : CStr) : Prop :=
  ∀ v u, IsSize (scanned s) v u →
    if u = 1 then lead s = 0 ∨ (∀ c ∈ s.chars, isdigit c = true) ∧ lead s < 2 ^ 64
    else scanned s = s.chars ∧ v * u < 2 ^ 64 ∨ v < 2 ^ 64 ∧ 2 ^ 64 ∣ v * u

/-! ## Sizes -/

section Sizes

variable {cs ds rest suffix : List Byte} {c last : Byte} {u u' v v' : ℕ}

lemma unitOf_cases (h : unitOf suffix = some u) :
    suffix = [] ∧ u = 1 ∨ ∃ c, suffix = [c] ∧ isdigit c = false ∧ isalpha c = true ∧
      (toupper c = 0x4d#8 ∧ u = 2 ^ 20 ∨ toupper c = 0x47#8 ∧ u = 2 ^ 30) := by
  match suffix with
  | [] =>
    simp only [unitOf, Option.some.injEq] at h
    exact .inl ⟨rfl, h.symm⟩
  | [c] =>
    refine .inr ⟨c, rfl, ?_⟩
    simp only [unitOf] at h
    split_ifs at h with hm hg
    · rcases hm with rfl | rfl <;>
        exact ⟨by decide, by decide, .inl ⟨by decide, (Option.some.inj h).symm⟩⟩
    · rcases hg with rfl | rfl <;>
        exact ⟨by decide, by decide, .inr ⟨by decide, (Option.some.inj h).symm⟩⟩
  | _ :: _ :: _ => simp [unitOf] at h

/-- A character that is a unit when it is made a capital. -/
lemma unitOf_of_toupper : ∀ c : Byte,
    (toupper c = 0x4d#8 → unitOf [c] = some (2 ^ 20)) ∧
      (toupper c = 0x47#8 → unitOf [c] = some (2 ^ 30)) := by
  decide +kernel

/-- A size is its leading digits and a unit. -/
lemma isSize_iff : IsSize cs v u ↔ cs.takeWhile isdigit ≠ [] ∧
    decimal (cs.takeWhile isdigit) = v ∧ unitOf (cs.dropWhile isdigit) = some u := by
  constructor
  · rintro ⟨ds, suffix, rfl, hne, hds, hv, hu⟩
    have hhead : ∀ c ∈ suffix.head?, isdigit c = false := by
      rcases unitOf_cases hu with ⟨rfl, -⟩ | ⟨c, rfl, hc, -⟩
      · simp
      · simpa using hc
    have htake : (ds ++ suffix).takeWhile isdigit = ds := takeWhile_isdigit hds hhead
    have hdrop : (ds ++ suffix).dropWhile isdigit = suffix := by
      have happend := List.takeWhile_append_dropWhile (p := isdigit) (l := ds ++ suffix)
      rw [htake] at happend
      exact List.append_cancel_left happend
    rw [htake, hdrop]
    exact ⟨hne, hv, hu⟩
  · rintro ⟨hne, hv, hu⟩
    exact ⟨_, _, List.takeWhile_append_dropWhile.symm, hne,
      fun d hd => List.mem_takeWhile_imp hd, hv, hu⟩

lemma IsSize.unique (h : IsSize cs v u) (h' : IsSize cs v' u') : v = v' ∧ u = u' := by
  rw [isSize_iff] at h h'
  exact ⟨h.2.1.symm.trans h'.2.1, Option.some.inj (h.2.2.symm.trans h'.2.2)⟩

/-- The number of a size is the one in front. -/
lemma IsSize.lead_eq {s : CStr} (h : IsSize s.chars v u) : lead s = v := (isSize_iff.mp h).2.1

/-- Digits only. -/
lemma isSize_of_digits (hne : cs ≠ []) (hcs : ∀ c ∈ cs, isdigit c = true) :
    IsSize cs (decimal cs) 1 :=
  ⟨cs, [], by simp, hne, hcs, rfl, rfl⟩

lemma IsSize.digits (h : IsSize cs v 1) : ∀ c ∈ cs, isdigit c = true := by
  rcases h with ⟨ds, suffix, rfl, -, hds, -, hu⟩
  rcases unitOf_cases hu with ⟨rfl, -⟩ | ⟨c, -, -, -, ⟨-, hu⟩ | ⟨-, hu⟩⟩
  · simpa using hds
  · simp at hu
  · simp at hu

lemma IsSize.unit (h : IsSize cs v u) (hu : u ≠ 1) : u = 2 ^ 20 ∨ u = 2 ^ 30 := by
  rcases h with ⟨ds, suffix, -, -, -, -, hunit⟩
  rcases unitOf_cases hunit with ⟨-, h⟩ | ⟨c, -, -, -, ⟨-, h⟩ | ⟨-, h⟩⟩
  · exact absurd h hu
  · exact .inl h
  · exact .inr h

/-- Nothing comes behind a unit. -/
lemma IsSize.no_rest (h : IsSize cs v u) (hu : u ≠ 1) (h' : IsSize (cs ++ rest) v' u') :
    rest = [] := by
  rcases h with ⟨ds, suffix, rfl, hne, hds, -, hunit⟩
  rcases unitOf_cases hunit with ⟨-, h⟩ | ⟨c, rfl, hc, -⟩
  · exact absurd h hu
  · have hdrop : (ds ++ [c] ++ rest).dropWhile isdigit = c :: rest := by
      rw [List.append_assoc, List.dropWhile_append_of_pos hds]
      simp [hc]
    have hunit' := (isSize_iff.mp h').2.2
    rw [hdrop] at hunit'
    cases rest with
    | nil => rfl
    | cons c' rest => simp [unitOf] at hunit'

/-- A size by its last character. -/
lemma isSize_append_iff : IsSize (ds ++ [last]) v u ↔ (∀ d ∈ ds, isdigit d = true) ∧
    (isdigit last = true ∧ decimal (ds ++ [last]) = v ∧ u = 1 ∨
      ds ≠ [] ∧ decimal ds = v ∧ unitOf [last] = some u) := by
  constructor
  · rintro ⟨ds', suffix, heq, hne, hds', hv, hu⟩
    rcases unitOf_cases hu with ⟨rfl, rfl⟩ | ⟨c, rfl, -⟩
    · rw [List.append_nil] at heq
      subst heq
      rw [List.forall_mem_append] at hds'
      exact ⟨hds'.1, .inl ⟨hds'.2 last (by simp), hv, rfl⟩⟩
    · obtain ⟨rfl, hlast⟩ := List.append_inj' heq rfl
      obtain rfl : last = c := by simpa using hlast
      exact ⟨hds', .inr ⟨hne, hv, hu⟩⟩
  · rintro ⟨hds, ⟨hlast, rfl, rfl⟩ | ⟨hne, rfl, hu⟩⟩
    · refine isSize_of_digits (by simp) ?_
      simpa [or_imp, forall_and] using ⟨hds, hlast⟩
    · exact ⟨ds, [last], rfl, hne, hds, rfl, hu⟩

end Sizes

/-! ## The result -/

section Result

variable {s : CStr} {u v : ℕ}

/-- The last character that is looked at. -/
lemma exists_last (h : s.chars ≠ []) : ∃ i last rest, (toInt32 (strlen s) - 1).toNat = i ∧
    s.chars.take i ++ last :: rest = s.chars ∧ s.chars.getD i 0#8 = last ∧
    scanned s = s.chars.take i ++ [last] := by
  have hle := toInt32_le (strlen s)
  have hpos : 0 < s.chars.length := List.length_pos_iff.mpr h
  have hi : (toInt32 (strlen s) - 1).toNat < s.chars.length := by
    rw [strlen] at hle ⊢
    omega
  refine ⟨_, s.chars[(toInt32 (strlen s) - 1).toNat],
    s.chars.drop ((toInt32 (strlen s) - 1).toNat + 1), rfl, ?_, ?_, ?_⟩
  · rw [← List.drop_eq_getElem_cons hi, List.take_append_drop]
  · rw [List.getD_eq_getElem?_getD, List.getElem?_eq_getElem hi, Option.getD_some]
  · rw [scanned, List.take_succ_eq_append_getElem hi]

lemma scanned_ne_nil (h : IsSize (scanned s) v u) : s.chars ≠ [] := by
  intro hnil
  rcases h with ⟨ds, suffix, heq, hne, -⟩
  rw [scanned, hnil, List.take_nil] at heq
  exact hne (List.append_eq_nil_iff.mp heq.symm).1

/-- The number, saturated and with a unit multiplied by it. -/
theorem validateSize_of_size (hl : toInt32 (strlen s) ≠ -2 ^ 31) (h : IsSize (scanned s) v u) :
    validateSize s = some (if u = 1 then min (lead s) (2 ^ 64 - 1)
      else u64 (min v (2 ^ 64 - 1) * u)) := by
  rcases exists_last (scanned_ne_nil h) with ⟨i, last, rest, hi, hchars, hlast, hscan⟩
  rw [hscan, isSize_append_iff] at h
  rcases h with ⟨hds, hcases⟩
  have hall : (s.chars.take i).all isdigit = true := List.all_eq_true.mpr hds
  -- the string starts with a digit
  have hfirst : ∃ c cs, s.chars = c :: cs ∧ isdigit c = true := by
    cases htake : s.chars.take i with
    | nil =>
      rcases hcases with ⟨hdigit, -⟩ | ⟨hne, -⟩
      · rw [htake, List.nil_append] at hchars
        exact ⟨last, rest, hchars.symm, hdigit⟩
      · exact absurd htake hne
    | cons c cs =>
      rw [htake, List.cons_append] at hchars
      exact ⟨c, _, hchars.symm, hds c (by simp [htake])⟩
  simp only [validateSize, if_neg hl, hi, hall, not_true_eq_false, if_false, hlast]
  rcases hcases with ⟨hdigit, -, rfl⟩ | ⟨-, hv, hunit⟩
  · rw [if_pos hdigit, if_pos rfl, strtoul_of_digit hfirst, lead]
  · rcases unitOf_cases hunit with ⟨hnil, -⟩ | ⟨c, hc, hdigit, halpha, hupper⟩
    · simp at hnil
    · obtain rfl : last = c := by simpa using hc
      have hlead : decimal (s.chars.takeWhile isdigit) = v := by
        rw [← hchars, takeWhile_isdigit hds (by simpa using hdigit), hv]
      rw [if_neg (by simp [hdigit]), if_pos halpha, strtoul_of_digit hfirst, hlead]
      rcases hupper with ⟨hupper, rfl⟩ | ⟨hupper, rfl⟩
      · simp [hupper]
      · simp [hupper]

theorem validateSize_of_not_size (hl : toInt32 (strlen s) ≠ -2 ^ 31)
    (h : ∀ v u, ¬ IsSize (scanned s) v u) : validateSize s = some 0 := by
  by_cases hnil : s.chars = []
  · have hstr : strlen s = 0 := by rw [strlen, hnil]; rfl
    have hzero : toInt32 0 = 0 := rfl
    simp [validateSize, hstr, hzero, hnil, isdigit, isalpha]
  · rcases exists_last hnil with ⟨i, last, rest, hi, hchars, hlast, hscan⟩
    simp only [hscan, isSize_append_iff, not_and, not_or] at h
    -- a unit without a number
    have hzero : (s.chars.take i).all isdigit = true → isalpha last = true →
        (∃ u, unitOf [last] = some u) → strtoul s = 0 := by
      rintro hall halpha ⟨u, hu⟩
      have htake : s.chars.take i = [] := by
        by_contra hne
        exact (h _ u (List.all_eq_true.mp hall)).2 hne rfl hu
      rw [htake, List.nil_append] at hchars
      exact strtoul_of_alpha ⟨last, rest, hchars.symm, halpha⟩
    simp only [validateSize, if_neg hl, hi, hlast]
    split_ifs with hall hdigit halpha hm hg
    · -- digits up to here are a size
      exact absurd rfl ((h _ 1 (List.all_eq_true.mp hall)).1 hdigit rfl)
    · rw [hzero hall halpha ⟨_, (unitOf_of_toupper last).1 hm⟩, Nat.zero_mul]
      rfl
    · rw [hzero hall halpha ⟨_, (unitOf_of_toupper last).2 hg⟩, Nat.zero_mul]
      rfl
    all_goals rfl

end Result

/-! ## Exactness -/

section Exact

variable {s : CStr} {r u v : ℕ}

/-- A result is right if it is 0, or the value of the string. -/
lemma sizeExact_of_result (hr : validateSize s = some r)
    (h : r = 0 ∨ ∃ u, IsSize s.chars (lead s) u ∧ r = lead s * u ∧ lead s * u < 2 ^ 64) :
    SizeExact s := by
  refine ⟨r, hr, ?_, ?_⟩
  · intro hne
    rcases h with h | ⟨u, hsize, heq, -⟩
    · exact absurd h hne
    · exact ⟨lead s, u, hsize, heq⟩
  · intro v' u' hsize' hge
    rcases h with h | ⟨u, hsize, -, hlt⟩
    · exact h
    · rcases hsize.unique hsize' with ⟨rfl, rfl⟩
      exact absurd hge (not_le.mpr hlt)

/-- And only then. -/
lemma result_of_sizeExact (h : SizeExact s) (hr : validateSize s = some r) :
    r = 0 ∨ ∃ u, IsSize s.chars (lead s) u ∧ r = lead s * u ∧ lead s * u < 2 ^ 64 := by
  rcases h with ⟨r', hr', hsound, hfits⟩
  obtain rfl : r = r' := Option.some.inj (hr.symm.trans hr')
  by_cases hne : r = 0
  · exact .inl hne
  · rcases hsound hne with ⟨v, u, hsize, rfl⟩
    have hlt : v * u < 2 ^ 64 := by
      by_contra hge
      exact hne (hfits v u hsize (not_lt.mp hge))
    obtain rfl := hsize.lead_eq
    exact .inr ⟨u, hsize, rfl, hlt⟩

/-- Without a unit: the saturated number in front is the value. -/
lemma plain_iff (hr : validateSize s = some (min (lead s) (2 ^ 64 - 1))) (hne : s.chars ≠ []) :
    SizeExact s ↔ lead s = 0 ∨ (∀ c ∈ s.chars, isdigit c = true) ∧ lead s < 2 ^ 64 := by
  constructor
  · intro h
    rcases result_of_sizeExact h hr with hzero | ⟨u, hsize, heq, hlt⟩
    · exact .inl (by omega)
    · by_cases hu : u = 1
      · subst hu
        exact .inr ⟨hsize.digits, by omega⟩
      · -- the unit is not in the result
        rcases hsize.unit hu with rfl | rfl
        · exact .inl (by omega)
        · exact .inl (by omega)
  · rintro (hzero | ⟨hdigits, hlt⟩)
    · exact sizeExact_of_result hr (.inl (by omega))
    · have hsize := isSize_of_digits hne hdigits
      have hlead := hsize.lead_eq
      rw [← hlead] at hsize
      exact sizeExact_of_result hr (.inr ⟨1, hsize, by omega, by omega⟩)

/-- With a unit: the product is the value, or wraps to 0. -/
lemma unit_iff (hr : validateSize s = some (u64 (min v (2 ^ 64 - 1) * u)))
    (hsize : IsSize (scanned s) v u) (hu : u ≠ 1) :
    SizeExact s ↔
      scanned s = s.chars ∧ v * u < 2 ^ 64 ∨ v < 2 ^ 64 ∧ 2 ^ 64 ∣ v * u := by
  have hzero : u64 (min v (2 ^ 64 - 1) * u) = 0 ↔ v < 2 ^ 64 ∧ 2 ^ 64 ∣ v * u := by
    unfold u64
    rcases Nat.lt_or_ge v (2 ^ 64) with hlt | hge
    · rw [Nat.min_eq_left (by omega), Nat.dvd_iff_mod_eq_zero]
      exact ⟨fun h => ⟨hlt, h⟩, fun h => h.2⟩
    · -- the saturated number is odd
      rw [Nat.min_eq_right (by omega)]
      rcases hsize.unit hu with rfl | rfl <;> omega
  constructor
  · intro h
    rcases result_of_sizeExact h hr with hr₀ | ⟨u', hsize', heq, hlt⟩
    · exact .inr (hzero.mp hr₀)
    · -- nothing comes behind the unit, so the string is its scanned part
      have hscan : scanned s = s.chars := by
        have hsplit := List.take_append_drop ((toInt32 (strlen s) - 1).toNat + 1) s.chars
        rw [← hsplit] at hsize'
        have hrest := hsize.no_rest hu hsize'
        rwa [hrest, List.append_nil] at hsplit
      rw [hscan] at hsize
      rcases hsize.unique hsize' with ⟨rfl, rfl⟩
      exact .inl ⟨hscan, hlt⟩
  · rintro (⟨hscan, hlt⟩ | h)
    · rw [hscan] at hsize
      obtain rfl := hsize.lead_eq
      have hpos : 1 ≤ u := by rcases hsize.unit hu with rfl | rfl <;> omega
      have hle : lead s ≤ lead s * u := Nat.le_mul_of_pos_right _ hpos
      refine sizeExact_of_result hr (.inr ⟨u, hsize, ?_, hlt⟩)
      rw [Nat.min_eq_left (by omega), u64_of_lt hlt]
    · exact sizeExact_of_result hr (.inl (hzero.mpr h))

/-- **Sizes are read exactly**, or refused with 0, on these strings and on no others. The length
must also be one from which 1 can be subtracted as an `int`. -/
theorem sizeExact_iff (s : CStr) :
    SizeExact s ↔ toInt32 (strlen s) ≠ -2 ^ 31 ∧ ReadRight s := by
  by_cases hl : toInt32 (strlen s) = -2 ^ 31
  · constructor
    · rintro ⟨r, hr, -⟩
      simp [validateSize, hl] at hr
    · intro h
      exact absurd hl h.1
  · rw [and_iff_right hl]
    by_cases hex : ∃ v u, IsSize (scanned s) v u
    · rcases hex with ⟨v, u, hsize⟩
      have hr := validateSize_of_size hl hsize
      have hright : ReadRight s ↔
          if u = 1 then lead s = 0 ∨ (∀ c ∈ s.chars, isdigit c = true) ∧ lead s < 2 ^ 64
          else scanned s = s.chars ∧ v * u < 2 ^ 64 ∨ v < 2 ^ 64 ∧ 2 ^ 64 ∣ v * u := by
        constructor
        · intro h
          exact h v u hsize
        · intro h v' u' hsize'
          rcases hsize.unique hsize' with ⟨rfl, rfl⟩
          exact h
      rw [hright]
      by_cases hu : u = 1
      · rw [if_pos hu] at hr ⊢
        exact plain_iff hr (scanned_ne_nil hsize)
      · rw [if_neg hu] at hr ⊢
        exact unit_iff hr hsize hu
    · push Not at hex
      have hr := validateSize_of_not_size hl hex
      refine iff_of_true (sizeExact_of_result hr (.inl rfl)) ?_
      intro v u hsize
      exact absurd hsize (hex v u)

/-- All of a string whose length fits an `int` is looked at. -/
lemma scanned_eq_chars (h : strlen s < 2 ^ 31) : scanned s = s.chars := by
  rw [scanned, toInt32_of_lt h]
  apply List.take_of_length_le
  rw [strlen]
  omega

/-- The same for lengths that fit an `int`. -/
theorem sizeExact_iff_of_short (h : strlen s < 2 ^ 31) :
    SizeExact s ↔ ∀ v u, IsSize s.chars v u →
      v * u < 2 ^ 64 ∨ u ≠ 1 ∧ v < 2 ^ 64 ∧ 2 ^ 64 ∣ v * u := by
  have hint := toInt32_of_lt h
  rw [sizeExact_iff, and_iff_right (by omega), ReadRight, scanned_eq_chars h]
  constructor
  · intro hright v u hsize
    have hcond := hright v u hsize
    split_ifs at hcond with hu
    · rw [hsize.lead_eq, hu] at *
      rcases hcond with hzero | ⟨-, hlt⟩
      · exact .inl (by omega)
      · exact .inl (by omega)
    · rcases hcond with ⟨-, hlt⟩ | hwrap
      · exact .inl hlt
      · exact .inr ⟨hu, hwrap⟩
  · intro hfits v u hsize
    have hcond := hfits v u hsize
    split_ifs with hu
    · subst hu
      rw [hsize.lead_eq]
      exact .inr ⟨hsize.digits, by omega⟩
    · rcases hcond with hlt | ⟨-, hwrap⟩
      · exact .inl ⟨rfl, hlt⟩
      · exact .inr hwrap

/-- And none that fits is refused: every size below 2^64 is returned. -/
theorem validateSize_eq_value (h : strlen s < 2 ^ 31) (hsize : IsSize s.chars v u)
    (hlt : v * u < 2 ^ 64) : validateSize s = some (v * u) := by
  have hint := toInt32_of_lt h
  have hresult := validateSize_of_size (by omega) ((scanned_eq_chars h).symm ▸ hsize)
  rw [hresult, hsize.lead_eq]
  by_cases hu : u = 1
  · rw [if_pos hu, hu, Nat.mul_one, Nat.min_eq_left (by rw [hu] at hlt; omega)]
  · have hpos : 1 ≤ u := by rcases hsize.unit hu with rfl | rfl <;> omega
    have hle : v ≤ v * u := Nat.le_mul_of_pos_right _ hpos
    rw [if_neg hu, Nat.min_eq_left (by omega), u64_of_lt hlt]

/-- `"17592186044417M"`: the product wraps to one MByte. -/
theorem validateSize_wraps : ¬ SizeExact (ofChars "17592186044417M") := by
  rintro ⟨r, hr, -, hfits⟩
  have hcode : validateSize (ofChars "17592186044417M") = some 1048576 := by decide +kernel
  obtain rfl : 1048576 = r := Option.some.inj (hcode.symm.trans hr)
  have hsize : IsSize (ofChars "17592186044417M").chars 17592186044417 (2 ^ 20) :=
    isSize_iff.mpr (by decide +kernel)
  exact absurd (hfits _ _ hsize (by decide)) (by decide)

end Exact

end KanekFs.Mkfs
