import Mathlib.Algebra.Order.Field.Power
import Mathlib.Data.Int.Log
import Mathlib.Data.Rat.Floor
import Mathlib.Tactic.FieldSimp
import Mathlib.Tactic.Linarith
import Mathlib.Tactic.NormNum
import Mathlib.Tactic.Positivity
import Mathlib.Tactic.Ring
import Trellis.Decimal.Binary

/-! # Rounding by value

`Binary.round` takes a numerator and a denominator, but only their quotient counts.

* `Binary.exponentOf_eq`: the exponent is that of the greatest power of two in the quotient, lowered by 52,
  or the least one.
* `Binary.round_congr`: equal quotients are rounded to the same number.
* `Binary.IsCanonical` says which numbers there are with 64 bits. `Binary.round_eq`: each of them is
  rounded to itself. `Binary.isCanonical_round`: there are no others in rounding. -/

namespace Trellis.Decimal.Binary

/-- Whether a number is one of those with 64 bits. -/
def IsCanonical : Binary → Prop
  | finite _ m e =>
      m < 2 ^ 53 ∧ minExponent ≤ e ∧ e ≤ maxExponent ∧ (2 ^ 52 ≤ m ∨ e = minExponent)
  | infinite _ | notANumber => True

instance : DecidablePred IsCanonical
  | finite _ _ _ => inferInstanceAs (Decidable (_ ∧ _ ∧ _ ∧ _))
  | infinite _ | notANumber => instDecidableTrue

variable {num den num' den' m : Nat} {e : Int} {negative : Bool}

/-! ### Quotients -/

theorem scaled_pos (h : 0 < den) (num : Nat) (e : Int) : 0 < (scaled num den e).2 := by
  unfold scaled
  split
  · exact Nat.mul_pos h (Nat.pow_pos Nat.two_pos)
  · exact h

/-- Scaling divides by a power of two. -/
theorem scaled_eq (h : 0 < den) (num : Nat) (e : Int) :
    ((scaled num den e).1 : ℚ) / (scaled num den e).2 = num / den / 2 ^ e := by
  have hden : (den : ℚ) ≠ 0 := by positivity
  unfold scaled
  split
  · next he =>
    obtain ⟨k, rfl⟩ := Int.eq_ofNat_of_zero_le he
    simp only [Int.toNat_natCast, Nat.pow_eq, Nat.cast_mul, Nat.cast_pow,
      Nat.cast_ofNat, zpow_natCast]
    rw [div_div]
  · next he =>
    obtain ⟨k, hk⟩ := Int.exists_eq_neg_ofNat (Int.le_of_lt (Int.not_le.mp he))
    subst hk
    simp only [Int.neg_neg, Int.toNat_natCast, Nat.pow_eq, Nat.cast_mul, Nat.cast_pow,
      Nat.cast_ofNat, zpow_neg, zpow_natCast]
    rw [div_inv_eq_mul, div_mul_eq_mul_div]

section logarithm
variable (hnum : num ≠ 0) (hden : 0 < den)
include hnum hden

theorem quotient_pos : (0 : ℚ) < num / den := by positivity

/-- The logarithms of numerator and denominator bound that of the quotient from below. -/
theorem le_log_div : (num.log2 : Int) - den.log2 - 1 ≤ Int.log 2 (num / den : ℚ) := by
  have hlow : (2 : ℚ) ^ num.log2 ≤ num := by exact_mod_cast Nat.log2_self_le hnum
  have hhigh : (den : ℚ) < 2 ^ (den.log2 + 1) := by exact_mod_cast Nat.lt_log2_self
  rw [← Int.zpow_le_iff_le_log (by decide) (quotient_pos hnum hden), le_div_iff₀ (by positivity),
    Nat.cast_ofNat]
  calc (2 : ℚ) ^ ((num.log2 : Int) - den.log2 - 1) * den
      ≤ 2 ^ ((num.log2 : Int) - den.log2 - 1) * 2 ^ (den.log2 + 1) := by gcongr
    _ = 2 ^ num.log2 := by
        rw [← zpow_natCast, ← zpow_natCast, ← zpow_add₀ two_ne_zero]
        congr 1
        push_cast
        ring
    _ ≤ num := hlow

/-- They bound it from above. -/
theorem log_div_lt : Int.log 2 (num / den : ℚ) < (num.log2 : Int) - den.log2 + 1 := by
  have hhigh : (num : ℚ) < 2 ^ (num.log2 + 1) := by exact_mod_cast Nat.lt_log2_self
  have hlow : (2 : ℚ) ^ den.log2 ≤ den := by exact_mod_cast Nat.log2_self_le (Nat.ne_of_gt hden)
  rw [← Int.lt_zpow_iff_log_lt (by decide) (quotient_pos hnum hden), div_lt_iff₀ (by positivity),
    Nat.cast_ofNat]
  calc (num : ℚ) < 2 ^ (num.log2 + 1) := hhigh
    _ = 2 ^ ((num.log2 : Int) - den.log2 + 1) * 2 ^ den.log2 := by
        rw [← zpow_natCast, ← zpow_natCast, ← zpow_add₀ two_ne_zero]
        congr 1
        push_cast
        ring
    _ ≤ 2 ^ ((num.log2 : Int) - den.log2 + 1) * den := by gcongr

/-- The exponent of a quotient is that of its greatest power of two, for 53 bits. -/
theorem exponentOf_eq :
    exponentOf num den = max (Int.log 2 (num / den : ℚ) - 52) minExponent := by
  have hlow := le_log_div hnum hden
  have hhigh := log_div_lt hnum hden
  unfold exponentOf
  dsimp only
  have hscaled := scaled_eq hden num ((num.log2 : Int) - den.log2 - 52)
  have hpos := scaled_pos hden num ((num.log2 : Int) - den.log2 - 52)
  generalize scaled num den ((num.log2 : Int) - den.log2 - 52) = pair at hscaled hpos ⊢
  obtain ⟨n, d⟩ := pair
  -- The first guess is too great just if the quotient has no more than the lower bound.
  have hless : n < d * Nat.pow 2 52 ↔ Int.log 2 (num / den : ℚ) < (num.log2 : Int) - den.log2 := by
    have hsplit : (2 : ℚ) ^ ((num.log2 : Int) - den.log2) =
        2 ^ (52 : ℕ) * 2 ^ ((num.log2 : Int) - den.log2 - 52) := by
      rw [← zpow_natCast, ← zpow_add₀ two_ne_zero]
      congr 1
      push_cast
      ring
    rw [← Int.lt_zpow_iff_log_lt (by decide) (quotient_pos hnum hden), Nat.cast_ofNat, hsplit,
      ← div_lt_iff₀ (by positivity), ← hscaled, div_lt_iff₀ (by positivity), Nat.pow_eq]
    norm_cast
    rw [Nat.mul_comm]
  split
  · next hn =>
    have := hless.mp hn
    congr 1
    omega
  · next hn =>
    have := mt hless.mpr hn
    congr 1
    omega

end logarithm

theorem roundDiv_mul_left {k : Nat} (hk : 0 < k) (n d : Nat) :
    roundDiv (k * n) (k * d) = roundDiv n d := by
  have hless (a b : Nat) : 2 * (k * a) < k * b ↔ 2 * a < b := by
    rw [Nat.mul_left_comm]
    exact Nat.mul_lt_mul_left hk
  have hmore (a b : Nat) : k * b < 2 * (k * a) ↔ b < 2 * a := by
    rw [Nat.mul_left_comm]
    exact Nat.mul_lt_mul_left hk
  simp only [roundDiv, Nat.mul_div_mul_left _ _ hk, Nat.mul_mod_mul_left, hless, hmore]

/-- Equal quotients go to the same integer. -/
theorem roundDiv_congr (hden : 0 < den) (hden' : 0 < den') (h : num * den' = num' * den) :
    roundDiv num den = roundDiv num' den' := by
  rw [← roundDiv_mul_left hden', ← roundDiv_mul_left hden num', Nat.mul_comm, h, Nat.mul_comm num',
    Nat.mul_comm den']

/-- An integer goes to itself. -/
theorem roundDiv_mul (hden : 0 < den) (m : Nat) : roundDiv (m * den) den = m := by
  simp [roundDiv, Nat.mul_div_cancel _ hden, Nat.mul_mod_left, hden]

/-- The number with a mantissa and an exponent, if both are in range; the mantissa may have become one bit
too long. -/
def pack (negative : Bool) (m : Nat) (e : Int) : Binary :=
  let (m, e) := if m = Nat.pow 2 53 then (Nat.pow 2 52, e + 1) else (m, e)
  if maxExponent < e then .infinite negative else .finite negative m e

-- The exponent is a variable here, since the checker would compute it to compare what depends on it.
theorem round_of_exponentOf (h : num ≠ 0) (he : exponentOf num den = e) : round negative num den =
    pack negative (roundDiv (scaled num den e).1 (scaled num den e).2) e := by
  rw [round, if_neg h, he]
  rfl

/-- Only the quotient counts in rounding. -/
theorem round_congr (hden : 0 < den) (hden' : 0 < den') (h : num * den' = num' * den) :
    round negative num den = round negative num' den' := by
  have hquotient : (num / den : ℚ) = num' / den' := by
    rw [div_eq_div_iff (by positivity) (by positivity)]
    exact_mod_cast h
  have hzero : num = 0 ↔ num' = 0 := by
    constructor
    · rintro rfl
      rw [Nat.zero_mul, eq_comm, Nat.mul_eq_zero] at h
      exact h.resolve_right (Nat.ne_of_gt hden)
    · rintro rfl
      rw [Nat.zero_mul, Nat.mul_eq_zero] at h
      exact h.resolve_right (Nat.ne_of_gt hden')
  by_cases hnum : num = 0
  · rw [round, round, if_pos hnum, if_pos (hzero.mp hnum)]
  · have hnum' : num' ≠ 0 := mt hzero.mpr hnum
    obtain ⟨e, he⟩ : ∃ e, exponentOf num' den' = e := ⟨_, rfl⟩
    have he' : exponentOf num den = e := by
      rw [← he, exponentOf_eq hnum hden, exponentOf_eq hnum' hden', hquotient]
    have hpos := scaled_pos hden num e
    have hpos' := scaled_pos hden' num' e
    have hscaled := scaled_eq hden num e
    rw [hquotient, ← scaled_eq hden', div_eq_div_iff (by positivity) (by positivity)] at hscaled
    rw [round_of_exponentOf hnum he', round_of_exponentOf hnum' he]
    congr 1
    apply roundDiv_congr hpos hpos'
    exact_mod_cast hscaled

/-! ### Numbers that need no rounding -/

/-- A number with 64 bits that is no zero is rounded to itself. -/
theorem round_eq (hden : 0 < den) (hcanonical : IsCanonical (.finite negative m e)) (hm : m ≠ 0)
    (h : (num : ℚ) / den = m * 2 ^ e) : round negative num den = .finite negative m e := by
  obtain ⟨hlt, hmin, hmax, hlong⟩ := hcanonical
  have htwo : (0 : ℚ) < 2 ^ e := by positivity
  have hm' : (0 : ℚ) < m := by positivity
  have hnum : num ≠ 0 := by
    rintro rfl
    rw [Nat.cast_zero, zero_div] at h
    exact absurd h (mul_pos hm' htwo).ne
  have hx : (0 : ℚ) < m * 2 ^ e := mul_pos hm' htwo
  have hexponent : exponentOf num den = e := by
    rw [exponentOf_eq hnum hden, h]
    have hhigh : Int.log 2 (m * 2 ^ e : ℚ) < e + 53 := by
      rw [← Int.lt_zpow_iff_log_lt (by decide) hx, Nat.cast_ofNat, zpow_add₀ two_ne_zero, mul_comm]
      gcongr
      exact_mod_cast hlt
    rcases hlong with hlong | rfl
    · have hlow : e + 52 ≤ Int.log 2 (m * 2 ^ e : ℚ) := by
        rw [← Int.zpow_le_iff_le_log (by decide) hx, Nat.cast_ofNat, zpow_add₀ two_ne_zero, mul_comm]
        gcongr
        exact_mod_cast hlong
      rw [max_eq_left (by omega)]
      omega
    · exact max_eq_right (by omega)
  have hscaled := scaled_eq hden num e
  have hpos := scaled_pos hden num e
  have hexact : (scaled num den e).1 = m * (scaled num den e).2 := by
    rw [h, mul_div_cancel_right₀ _ htwo.ne', div_eq_iff (by positivity)] at hscaled
    exact_mod_cast hscaled
  rw [round_of_exponentOf hnum hexponent, hexact, roundDiv_mul hpos, pack, Nat.pow_eq,
    if_neg (Nat.ne_of_lt hlt)]
  exact if_neg (Int.not_lt.mpr hmax)

/-! ### The range of rounding -/

theorem roundDiv_le {k : Nat} (hden : 0 < den) (h : num ≤ k * den) : roundDiv num den ≤ k := by
  rcases Nat.eq_or_lt_of_le h with rfl | hlt
  · exact (roundDiv_mul hden k).le
  · have hq : num / den < k := Nat.div_lt_of_lt_mul (by rwa [Nat.mul_comm])
    have hparity := Nat.mod_lt (num / den) Nat.two_pos
    unfold roundDiv
    dsimp only
    split
    · omega
    · split <;> omega

theorem le_roundDiv {k : Nat} (hden : 0 < den) (h : k * den ≤ num) : k ≤ roundDiv num den := by
  have hq : k ≤ num / den := (Nat.le_div_iff_mul_le hden).mpr h
  unfold roundDiv
  dsimp only
  split
  · omega
  · split <;> omega

theorem isCanonical_pack (hm : m ≤ 2 ^ 53) (hmin : minExponent ≤ e) (hlong : 2 ^ 52 ≤ m ∨ e = minExponent) :
    IsCanonical (pack negative m e) := by
  unfold pack
  by_cases h : m = Nat.pow 2 53
  · rw [if_pos h]
    dsimp only
    split
    · trivial
    · exact ⟨by norm_num, by omega, by omega, .inl le_rfl⟩
  · rw [if_neg h]
    dsimp only
    split
    · trivial
    · exact ⟨lt_of_le_of_ne hm h, hmin, by omega, hlong⟩

theorem isCanonical_zero (negative : Bool) : IsCanonical (zero negative) :=
  ⟨by norm_num, le_rfl, by decide, .inr rfl⟩

/-- Whatever is rounded, the result is a number with 64 bits. -/
theorem isCanonical_round (hden : 0 < den) (negative : Bool) (num : Nat) :
    IsCanonical (round negative num den) := by
  by_cases hnum : num = 0
  · rw [round, if_pos hnum]
    exact isCanonical_zero negative
  obtain ⟨e, he⟩ : ∃ e, exponentOf num den = e := ⟨_, rfl⟩
  have hmax := exponentOf_eq hnum hden
  rw [he] at hmax
  have hpos := quotient_pos hnum hden
  have hd := scaled_pos hden num e
  have hscaled := scaled_eq hden num e
  have htwo : (0 : ℚ) < 2 ^ e := by positivity
  rw [round_of_exponentOf hnum he]
  generalize scaled num den e = pair at hd hscaled ⊢
  obtain ⟨n, d⟩ := pair
  dsimp only at hd hscaled ⊢
  have hd' : (0 : ℚ) < d := by exact_mod_cast hd
  refine isCanonical_pack (roundDiv_le hd ?_) (by omega) ?_
  · -- the exponent leaves no more than 53 bits
    have hhigh : (num / den : ℚ) < 2 ^ (53 + e) := by
      have := (Int.lt_zpow_iff_log_lt (b := 2) (by decide) hpos).mpr (show _ < 53 + e by omega)
      exact_mod_cast this
    have hquotient : (n : ℚ) / d < 2 ^ 53 := by
      rw [hscaled, div_lt_iff₀ htwo]
      rwa [zpow_add₀ two_ne_zero] at hhigh
    rw [div_lt_iff₀ hd'] at hquotient
    exact_mod_cast hquotient.le
  · rcases max_choice (Int.log 2 (num / den : ℚ) - 52) minExponent with hlog | hmin
    · left
      have hlow : (2 : ℚ) ^ (52 + e) ≤ num / den := by
        have := (Int.zpow_le_iff_le_log (b := 2) (by decide) hpos).mpr (show 52 + e ≤ _ by omega)
        exact_mod_cast this
      have hquotient : (2 : ℚ) ^ 52 ≤ n / d := by
        rw [hscaled, le_div_iff₀ htwo]
        rwa [zpow_add₀ two_ne_zero] at hlow
      apply le_roundDiv hd
      rw [le_div_iff₀ hd'] at hquotient
      exact_mod_cast hquotient
    · right
      rw [hmax, hmin]

end Trellis.Decimal.Binary
