import Mathlib.Data.Nat.Log
import Trellis.Proofs.Decimal.Numeral
import Trellis.Proofs.Decimal.Rounding

/-! # Numbers that are printed

A number is printed with the fewest digits that give it back. What is printed is read as the same number.

* `natOfDigits_digitChars`, `digitCount_eq`: the digits of a natural number denote it, and are as many as
  its logarithm says.
* `Digits.toBinary_congr`: a decimal is rounded by its value. `Digits.toBinary_shortest`: the fewest digits of
  a number with 64 bits are rounded to it.
* `Digits.exists_isPointed`: positional notation is a whole number, a point and decimal places.
* `Binary.isCanonical_of_read?`: what is read is a number with 64 bits. `Binary.exists_isPointed`: such a
  number is printed in positional notation and read back. -/

namespace Trellis.Decimal

/-! ### Digits of natural numbers -/

theorem foldl_digits (n : Nat) (s : List Char) :
    s.foldl (fun n c => 10 * n + digitValue c) n = n * 10 ^ s.length + natOfDigits s := by
  unfold natOfDigits
  induction s generalizing n with
  | nil => simp
  | cons c s ih =>
      rw [List.foldl_cons, List.foldl_cons, ih, ih (10 * 0 + digitValue c), List.length_cons, pow_succ]
      ring

theorem natOfDigits_append (s t : List Char) :
    natOfDigits (s ++ t) = natOfDigits s * 10 ^ t.length + natOfDigits t := by
  rw [natOfDigits, List.foldl_append, foldl_digits]
  rfl

theorem natOfDigits_zeros (n : Nat) : natOfDigits (List.replicate n '0') = 0 := by
  induction n with
  | zero => rfl
  | succ n ih =>
      rw [List.replicate_succ', natOfDigits_append, ih]
      rfl

theorem digitChars_eq (n : Nat) : digitChars n =
    if n < 10 then [n.digitChar] else digitChars (n / 10) ++ [(n % 10).digitChar] :=
  Nat.toDigits_eq_if (by decide)

theorem isDigit_of_mem_digitChars {n : Nat} {c : Char} (h : c ∈ digitChars n) : c.isDigit = true :=
  Nat.isDigit_of_mem_toDigits (by decide) (by decide) h

theorem digitChars_ne_nil (n : Nat) : digitChars n ≠ [] := by
  rw [digitChars_eq]
  split <;> simp

theorem natOfDigits_digitChar {n : Nat} (h : n < 10) : natOfDigits [n.digitChar] = n := by
  rw [natOfDigits, List.foldl_cons, List.foldl_nil, digitValue]
  simp [Nat.toNat_digitChar_of_lt_ten h]

/-- The digits of a number denote it. -/
theorem natOfDigits_digitChars (n : Nat) : natOfDigits (digitChars n) = n := by
  induction n using Nat.strong_induction_on with
  | _ n ih =>
      rw [digitChars_eq]
      split
      · next h => exact natOfDigits_digitChar h
      · next h =>
        rw [natOfDigits_append, ih _ (by omega), natOfDigits_digitChar (Nat.mod_lt _ (by decide))]
        simp only [List.length_singleton, pow_one]
        omega

/-- Only zero begins with a zero. -/
theorem head?_digitChars {n : Nat} (h : n ≠ 0) : (digitChars n).head? ≠ some '0' := by
  induction n using Nat.strong_induction_on with
  | _ n ih =>
      rw [digitChars_eq]
      split
      · rw [List.head?_cons, ne_eq, Option.some.injEq, Nat.digitChar_eq_zero]
        exact h
      · rw [List.head?_append_of_ne_nil _ (digitChars_ne_nil _)]
        exact ih _ (by omega) (by omega)

theorem digitCount_eq (n : Nat) : digitCount n = Nat.log 10 n + 1 := by
  unfold digitCount
  induction n using Nat.strong_induction_on with
  | _ n ih =>
      rw [digitChars_eq]
      split
      · next h => rw [Nat.log_of_lt h, List.length_singleton]
      · next h =>
        rw [List.length_append, ih _ (by omega), List.length_singleton,
          Nat.log_of_one_lt_of_le (by decide) (Nat.le_of_not_lt h)]

/-! ### Decimals by value -/

namespace Digits

open Binary (IsCanonical round)

/-- The number that a decimal denotes. -/
def value (d : Digits) : ℚ := d.coefficient * 10 ^ d.exponent

variable {d d' : Digits} {m : Nat} {e : Int} {negative : Bool}

theorem ratio_pos (d : Digits) : 0 < d.ratio.2 := by
  unfold ratio
  split
  · exact Nat.one_pos
  · exact Nat.pow_pos (by decide)

theorem ratio_eq (d : Digits) : (d.ratio.1 : ℚ) / d.ratio.2 = d.value := by
  unfold ratio value
  split
  · next he =>
    obtain ⟨k, hk⟩ := Int.eq_ofNat_of_zero_le he
    simp [hk]
  · next he =>
    obtain ⟨k, hk⟩ := Int.exists_eq_neg_ofNat (Int.le_of_lt (Int.not_le.mp he))
    simp [hk, div_eq_mul_inv]

theorem value_eq_zero_iff : d.value = 0 ↔ d.coefficient = 0 := by
  rw [value, mul_eq_zero, Nat.cast_eq_zero, or_iff_left (by positivity)]

theorem value_pos (h : d.coefficient ≠ 0) : 0 < d.value := by
  unfold value
  positivity

/-- The leading digit of a decimal stands where the logarithm of its value says. -/
theorem magnitude_eq (h : d.coefficient ≠ 0) :
    d.exponent + digitCount d.coefficient = Int.log 10 d.value + 1 := by
  have hlow := Nat.pow_log_le_self 10 h
  have hhigh := Nat.lt_pow_succ_log_self (b := 10) (by decide) d.coefficient
  have hten : (10 : ℚ) ≠ 0 := by norm_num
  rw [digitCount_eq]
  have hle : d.exponent + Nat.log 10 d.coefficient ≤ Int.log 10 d.value := by
    rw [← Int.zpow_le_iff_le_log (by decide) (value_pos h), value, Nat.cast_ofNat, add_comm,
      zpow_add₀ hten, zpow_natCast]
    gcongr
    exact_mod_cast hlow
  have hlt : Int.log 10 d.value < d.exponent + (Nat.log 10 d.coefficient + 1 : ℕ) := by
    rw [← Int.lt_zpow_iff_log_lt (by decide) (value_pos h), value, Nat.cast_ofNat, add_comm,
      zpow_add₀ hten, zpow_natCast]
    gcongr
    exact_mod_cast hhigh
  push_cast at hlt ⊢
  omega

theorem toBinary_eq (h : d.coefficient ≠ 0) : d.toBinary negative =
    if 400 < Int.log 10 d.value + 1 then .infinite negative
    else if Int.log 10 d.value + 1 < -400 then Binary.zero negative
    else round negative d.ratio.1 d.ratio.2 := by
  rw [toBinary, if_neg h, magnitude_eq h]

/-- A decimal is rounded by its value. -/
theorem toBinary_congr (h : d.value = d'.value) : d.toBinary negative = d'.toBinary negative := by
  by_cases hc : d.coefficient = 0
  · have hc' : d'.coefficient = 0 := by rwa [← value_eq_zero_iff, ← h, value_eq_zero_iff]
    rw [toBinary, toBinary, if_pos hc, if_pos hc']
  · have hc' : d'.coefficient ≠ 0 := by rwa [ne_eq, ← value_eq_zero_iff, ← h, value_eq_zero_iff]
    have hround : round negative d.ratio.1 d.ratio.2 = round negative d'.ratio.1 d'.ratio.2 := by
      have hpos := d.ratio_pos
      have hpos' := d'.ratio_pos
      apply Binary.round_congr hpos hpos'
      have hratio := d.ratio_eq
      rw [h, ← d'.ratio_eq, div_eq_div_iff (by positivity) (by positivity)] at hratio
      exact_mod_cast hratio
    rw [toBinary_eq hc, toBinary_eq hc', h, hround]

theorem two_zpow_le {k : ℤ} {n : ℕ} (h : k ≤ 3 * n) : (2 : ℚ) ^ k ≤ 10 ^ (n : ℤ) := by
  calc (2 : ℚ) ^ k ≤ 2 ^ (3 * n : ℤ) := zpow_le_zpow_right₀ one_le_two h
    _ = 8 ^ (n : ℤ) := by
        rw [zpow_mul]
        norm_num
    _ ≤ 10 ^ (n : ℤ) := by
        rw [zpow_natCast, zpow_natCast]
        gcongr
        norm_num

theorem le_two_zpow {k : ℤ} {n : ℕ} (h : -(3 * n) ≤ k) : (10 : ℚ) ^ (-(n : ℤ)) ≤ 2 ^ k := by
  have hinverse := two_zpow_le (show -k ≤ 3 * n by omega)
  rw [zpow_neg] at hinverse
  rw [zpow_neg]
  exact inv_le_of_inv_le₀ (by positivity) hinverse

/-- Every number with 64 bits lies far within what a decimal may denote. -/
theorem log_bounds (hcanonical : IsCanonical (.finite negative m e)) (hm : m ≠ 0) :
    -401 ≤ Int.log 10 (m * 2 ^ e : ℚ) ∧ Int.log 10 (m * 2 ^ e : ℚ) < 399 := by
  obtain ⟨hlt, hmin, hmax, -⟩ := hcanonical
  unfold Binary.minExponent at hmin
  unfold Binary.maxExponent at hmax
  have hpos : (0 : ℚ) < m * 2 ^ e := by positivity
  have hlow : (10 : ℚ) ^ (-((401 : ℕ) : ℤ)) ≤ m * 2 ^ e := by
    have hone : (1 : ℚ) ≤ m := by exact_mod_cast Nat.one_le_iff_ne_zero.mpr hm
    exact (le_two_zpow (by omega)).trans (le_mul_of_one_le_left (by positivity) hone)
  have hhigh : (m * 2 ^ e : ℚ) < 10 ^ ((399 : ℕ) : ℤ) := by
    have hlong : (m : ℚ) < 2 ^ (53 : ℤ) := by exact_mod_cast hlt
    calc (m * 2 ^ e : ℚ) < 2 ^ (53 : ℤ) * 2 ^ e := by gcongr
      _ = 2 ^ (53 + e) := (zpow_add₀ two_ne_zero _ _).symm
      _ ≤ 10 ^ ((399 : ℕ) : ℤ) := two_zpow_le (by omega)
  exact ⟨(Int.zpow_le_iff_le_log (by decide) hpos).mp hlow,
    (Int.lt_zpow_iff_log_lt (by decide) hpos).mp hhigh⟩

/-- The decimals with the value of a number with 64 bits are rounded to it. -/
theorem toBinary_of_value (hcanonical : IsCanonical (.finite negative m e)) (hm : m ≠ 0)
    (h : d.value = m * 2 ^ e) : d.toBinary negative = .finite negative m e := by
  have hc : d.coefficient ≠ 0 := by
    rw [ne_eq, ← value_eq_zero_iff, h]
    positivity
  obtain ⟨hlow, hhigh⟩ := log_bounds hcanonical hm
  rw [toBinary_eq hc, h, if_neg (by omega), if_neg (by omega)]
  apply Binary.round_eq d.ratio_pos hcanonical hm
  rw [ratio_eq, h]

/-! ### The fewest digits -/

/-- The sign has no part in rounding. -/
theorem round_sign {num den : Nat} (hnum : num ≠ 0) (h : round false num den = .finite false m e) :
    round negative num den = .finite negative m e := by
  obtain ⟨k, hk⟩ : ∃ k, Binary.exponentOf num den = k := ⟨_, rfl⟩
  rw [Binary.round_of_exponentOf hnum hk, Binary.pack] at h ⊢
  generalize (if Binary.roundDiv (Binary.scaled num den k).1 (Binary.scaled num den k).2 = Nat.pow 2 53
    then (Nat.pow 2 52, k + 1)
    else (Binary.roundDiv (Binary.scaled num den k).1 (Binary.scaled num den k).2, k)) = packed at h ⊢
  obtain ⟨m', e'⟩ := packed
  dsimp only at h ⊢
  split at h
  · cases h
  · next hmax =>
    rw [if_neg hmax]
    cases h
    rfl

theorem toBinary_sign (hm : m ≠ 0) (h : d.toBinary false = .finite false m e) :
    d.toBinary negative = .finite negative m e := by
  have hc : d.coefficient ≠ 0 := by
    intro hc
    rw [toBinary, if_pos hc] at h
    cases h
    exact hm rfl
  have hnum : d.ratio.1 ≠ 0 := by
    intro hnum
    have hratio := d.ratio_eq
    rw [hnum, Nat.cast_zero, zero_div] at hratio
    exact hc (value_eq_zero_iff.mp hratio.symm)
  rw [toBinary_eq hc] at h ⊢
  split at h
  · cases h
  · next hhigh =>
    split at h
    · cases h
      exact absurd rfl hm
    · next hlow =>
      rw [if_neg hhigh, if_neg hlow]
      exact round_sign hnum h

theorem value_dropZero (d : Digits) : d.dropZero.value = d.value := by
  unfold dropZero
  split
  · next h =>
    obtain ⟨k, hk⟩ := Nat.dvd_of_mod_eq_zero h
    rw [value, value, hk, Nat.mul_div_cancel_left _ (by decide), zpow_add_one₀ (by norm_num)]
    push_cast
    ring
  · rfl

theorem toBinary_of_candidate? {places : Nat} (h : candidate? m e places = some d) :
    d.toBinary false = .finite false m e := by
  unfold candidate? at h
  generalize Binary.ratio m e = pair at h
  obtain ⟨n, k⟩ := pair
  have hround := List.find?_some h
  rwa [decide_eq_true_eq] at hround

/-- What is found is rounded to the number. -/
theorem toBinary_of_search {fuel places : Nat} (h : search m e fuel places = some d) :
    d.toBinary false = .finite false m e := by
  induction fuel generalizing places with
  | zero => exact absurd h (by simp [search])
  | succ fuel ih =>
      rw [search] at h
      split at h
      · next c hfound =>
        cases h
        rw [toBinary_congr c.value_dropZero]
        exact toBinary_of_candidate? hfound
      · exact ih h

theorem value_exact (m : Nat) (e : Int) : (exact m e).value = m * 2 ^ e := by
  unfold exact value
  split
  · next he =>
    obtain ⟨k, hk⟩ := Int.eq_ofNat_of_zero_le he
    simp [hk]
  · next he =>
    obtain ⟨k, hk⟩ := Int.exists_eq_neg_ofNat (Int.le_of_lt (Int.not_le.mp he))
    have hten : (10 : ℚ) ^ k = 2 ^ k * 5 ^ k := by
      rw [← mul_pow]
      norm_num
    simp only [hk, Int.neg_neg, Int.toNat_natCast, Nat.pow_eq, Nat.cast_mul, Nat.cast_pow,
      Nat.cast_ofNat, zpow_neg, zpow_natCast, hten]
    field_simp

/-- The fewest digits of a number with 64 bits are rounded to it. -/
theorem toBinary_shortest (hcanonical : IsCanonical (.finite negative m e)) :
    (shortest m e).toBinary negative = .finite negative m e := by
  unfold shortest
  by_cases hm : m = 0
  · obtain ⟨-, -, -, hlong⟩ := hcanonical
    obtain rfl : e = Binary.minExponent := hlong.resolve_left (by omega)
    rw [if_pos hm, hm]
    rfl
  · rw [if_neg hm]
    cases hsearch : search m e 17 1 with
    | none => exact toBinary_of_value hcanonical hm (value_exact m e)
    | some d => exact toBinary_sign hm (toBinary_of_search hsearch)

/-- Only zero has no digits, and its exponent is zero. -/
theorem coefficient_shortest (hcanonical : IsCanonical (.finite negative m e)) :
    (shortest m e).coefficient ≠ 0 ∨ shortest m e = ⟨0, 0⟩ := by
  by_cases hm : m = 0
  · exact .inr (if_pos hm)
  · refine .inl fun hc => ?_
    have hround := toBinary_shortest hcanonical
    rw [toBinary, if_pos hc] at hround
    cases hround
    exact hm rfl

/-! ### Positional notation -/

/-- The digits of a whole number. -/
structure IsWhole (s : List Char) : Prop where
  /-- There are only digits. -/
  isDigit : ∀ c ∈ s, c.isDigit = true
  /-- There is a digit. -/
  ne_nil : s ≠ []
  /-- Only zero begins with a zero. -/
  zero : s.head? = some '0' → s = ['0']

theorem isWhole_digitChars (n : Nat) : IsWhole (digitChars n) where
  isDigit _ hc := isDigit_of_mem_digitChars hc
  ne_nil := digitChars_ne_nil n
  zero hhead := by
    by_cases hn : n = 0
    · rw [hn]
      rfl
    · exact absurd hhead (head?_digitChars hn)

/-- Positional notation with a point, also for a whole number. -/
def pointed (d : Digits) : List Char :=
  d.plain ++ if d.plain.contains '.' then [] else ".0".toList

/-- A whole number and decimal places. -/
structure IsPointed (whole places : List Char) : Prop where
  /-- The digits before the point. -/
  whole : IsWhole whole
  /-- There is a decimal place. -/
  ne_nil : places ≠ []
  /-- The places are digits. -/
  isDigit : ∀ c ∈ places, c.isDigit = true

theorem isDigit_replicate_zero (n : Nat) : ∀ c ∈ List.replicate n '0', c.isDigit = true := by
  intro c hc
  rw [List.eq_of_mem_replicate hc]
  rfl

theorem contains_point {s : List Char} (h : ∀ c ∈ s, c.isDigit = true) : s.contains '.' = false := by
  rw [List.contains_eq_mem, decide_eq_false_iff_not]
  exact fun hmem => absurd (h _ hmem) (by decide)

/-- A decimal without places is written with all its zeros, and a zero after the point. -/
theorem isPointed_of_nonneg (he : 0 ≤ d.exponent) (hc : d.coefficient ≠ 0) :
    IsPointed d.plain ['0'] ∧ d.pointed = d.plain ++ '.' :: ['0'] ∧
      value ⟨natOfDigits (d.plain ++ ['0']), -1⟩ = d.value := by
  obtain ⟨k, hk⟩ := Int.eq_ofNat_of_zero_le he
  have hplain : d.plain = digitChars d.coefficient ++ List.replicate k '0' := by
    rw [plain, if_pos he, if_neg hc, hk]
    rfl
  have hall : ∀ c ∈ d.plain, c.isDigit = true := by
    intro c hmem
    rw [hplain] at hmem
    exact (List.mem_append.mp hmem).elim (fun h => isDigit_of_mem_digitChars h)
      (isDigit_replicate_zero k c)
  have hwhole : IsWhole d.plain := by
    refine ⟨hall, by simp [hplain, digitChars_ne_nil], fun hhead => ?_⟩
    rw [hplain, List.head?_append_of_ne_nil _ (digitChars_ne_nil _)] at hhead
    exact absurd hhead (head?_digitChars hc)
  refine ⟨⟨hwhole, List.cons_ne_nil _ _, isDigit_replicate_zero 1⟩, ?_, ?_⟩
  · rw [pointed, contains_point hall]
    rfl
  · rw [hplain, natOfDigits_append, natOfDigits_append, natOfDigits_zeros, natOfDigits_digitChars,
      value, value, hk, List.length_replicate]
    simp [natOfDigits, digitValue]

/-- A decimal with `p` places is written with zeros before its digits, up to one before the point. -/
theorem isPointed_of_neg {p : Nat} (hp : d.exponent = -(p + 1 : Nat)) (hc : d.coefficient ≠ 0) :
    ∃ whole places, IsPointed whole places ∧ d.pointed = whole ++ '.' :: places ∧
      natOfDigits (whole ++ places) = d.coefficient ∧ places.length = p + 1 := by
  have he : ¬ 0 ≤ d.exponent := by omega
  obtain ⟨padded, hpadded⟩ : ∃ padded, padded = List.replicate
      (p + 2 - (digitChars d.coefficient).length) '0' ++ digitChars d.coefficient := ⟨_, rfl⟩
  have hlength : p + 2 ≤ padded.length := by
    rw [hpadded, List.length_append, List.length_replicate]
    omega
  have hall : ∀ c ∈ padded, c.isDigit = true := by
    intro c hmem
    rw [hpadded] at hmem
    exact (List.mem_append.mp hmem).elim (isDigit_replicate_zero _ c)
      fun h => isDigit_of_mem_digitChars h
  have hplain : d.plain = padded.take (padded.length - (p + 1)) ++
      '.' :: padded.drop (padded.length - (p + 1)) := by
    rw [plain, if_neg he, hp, hpadded]
    simp
  have hwhole : IsWhole (padded.take (padded.length - (p + 1))) := by
    refine ⟨fun c hmem => hall c (List.mem_of_mem_take hmem), fun hnil => ?_, fun hhead => ?_⟩
    · have := congrArg List.length hnil
      rw [List.length_take, List.length_nil] at this
      omega
    · by_cases hshort : p + 2 - (digitChars d.coefficient).length = 0
      · rw [hshort, List.replicate_zero, List.nil_append] at hpadded
        rw [List.head?_take, if_neg (by omega), hpadded] at hhead
        exact absurd hhead (head?_digitChars hc)
      · have hlen : padded.length - (p + 1) = 1 := by
          rw [hpadded, List.length_append, List.length_replicate]
          omega
        obtain ⟨n, hn⟩ := Nat.exists_eq_succ_of_ne_zero hshort
        rw [hlen, hpadded, hn, List.replicate_succ]
        rfl
  have hplaces : (padded.drop (padded.length - (p + 1))).length = p + 1 := by
    rw [List.length_drop, Nat.sub_sub_self (by omega)]
  refine ⟨_, _, ⟨hwhole, ?_, fun c hmem => hall c (List.mem_of_mem_drop hmem)⟩, ?_, ?_, hplaces⟩
  · apply List.ne_nil_of_length_pos
    rw [hplaces]
    exact Nat.succ_pos p
  · rw [pointed, hplain, if_pos (by simp), List.append_nil]
  · rw [List.take_append_drop, hpadded, natOfDigits_append, natOfDigits_zeros, Nat.zero_mul,
      Nat.zero_add, natOfDigits_digitChars]

/-- Positional notation is a whole number, a point and decimal places that denote the decimal. -/
theorem exists_isPointed (h : d.coefficient ≠ 0 ∨ d = ⟨0, 0⟩) : ∃ whole places,
    IsPointed whole places ∧ d.pointed = whole ++ '.' :: places ∧
      value ⟨natOfDigits (whole ++ places), -places.length⟩ = d.value := by
  rcases h with hc | rfl
  · by_cases he : 0 ≤ d.exponent
    · exact ⟨d.plain, ['0'], isPointed_of_nonneg he hc⟩
    · obtain ⟨p, hp⟩ : ∃ p : Nat, d.exponent = -(p + 1 : Nat) := ⟨(-d.exponent).toNat - 1, by omega⟩
      obtain ⟨whole, places, hpointed, htext, hvalue, hlength⟩ := isPointed_of_neg hp hc
      refine ⟨whole, places, hpointed, htext, ?_⟩
      rw [hvalue, hlength, ← hp]
  · exact ⟨['0'], ['0'], ⟨isWhole_digitChars 0, List.cons_ne_nil _ _, isDigit_replicate_zero 1⟩, rfl,
      by simp [value, natOfDigits, digitValue]⟩

end Digits

/-! ### Numbers -/

namespace Binary

/-- Every decimal is rounded to a number with 64 bits. -/
theorem isCanonical_toBinary (negative : Bool) (d : Digits) : IsCanonical (d.toBinary negative) := by
  unfold Digits.toBinary
  split
  · exact isCanonical_zero negative
  · dsimp only
    split
    · trivial
    split
    · exact isCanonical_zero negative
    · exact isCanonical_round d.ratio_pos negative _

/-- What is read as a number is one with 64 bits. -/
theorem isCanonical_of_read? {s : List Char} {x : Binary} (h : read? s = some x) : IsCanonical x := by
  unfold read? at h
  dsimp only at h
  split at h
  · cases h
    trivial
  split at h
  · cases h
    trivial
  · obtain ⟨d, -, rfl⟩ := Option.map_eq_some_iff.mp h
    exact isCanonical_toBinary _ d

/-- A number with 64 bits is printed as a whole number, a point and decimal places, after its sign, and
what is printed is read as the same number. -/
theorem exists_isPointed {negative : Bool} {m : Nat} {e : Int}
    (h : IsCanonical (.finite negative m e)) : ∃ whole places, Digits.IsPointed whole places ∧
      (plain (.finite negative m e)).toList = signChars negative ++ (whole ++ '.' :: places) ∧
        read? (signChars negative ++ (whole ++ '.' :: places)) = some (.finite negative m e) := by
  obtain ⟨whole, places, hpointed, htext, hvalue⟩ :=
    Digits.exists_isPointed (Digits.coefficient_shortest h)
  have hwhole := hpointed.whole
  have hplaces := hpointed.isDigit
  refine ⟨whole, places, hpointed, ?_, ?_⟩
  · rw [plain, String.toList_ofList, List.append_assoc, ← htext]
    rfl
  · let n : Numeral := ⟨negative, whole, some places, none, .inl hwhole.ne_nil, hwhole.isDigit, by
      rintro ds ⟨⟩
      exact hplaces⟩
    have hchars : n.chars = signChars negative ++ (whole ++ '.' :: places) := by
      cases negative <;> simp [n, Numeral.chars, Numeral.unsigned, Numeral.powerChars, signChars]
    have hunsigned : n.unsigned = whole ++ '.' :: places := by
      simp [n, Numeral.unsigned, Numeral.powerChars]
    obtain ⟨htake, hdrop⟩ := takeWhile_digits (s := '.' :: places) hwhole.isDigit (by rintro c ⟨⟩; rfl)
    have hread : readDecimal? (whole ++ '.' :: places) =
        some ⟨natOfDigits (whole ++ places), -places.length⟩ := by
      obtain ⟨hall, hnone⟩ := takeWhile_digits (s := []) hplaces (by rintro c ⟨⟩)
      rw [List.append_nil] at hall hnone
      simp [readDecimal?, htake, hdrop, hall, hnone, hwhole.ne_nil, readExponent?]
    rw [← hchars, n.read?_chars, hunsigned, hread, Option.map_some, Digits.toBinary_congr hvalue,
      Digits.toBinary_shortest h]

end Binary

end Trellis.Decimal
