import ConfigVault.Number.Shortest
import Mathlib.Algebra.Order.Field.Power
import Mathlib.Data.Nat.Log
import Mathlib.Tactic.FieldSimp
import Mathlib.Tactic.Linarith
import Mathlib.Tactic.NormNum
import Mathlib.Tactic.Positivity
import Mathlib.Tactic.Ring

/-! # Rounding to a floating point number

Every number in normal form (`Binary64.IsNormal`) captures an interval of rationals
(`Binary64.Captures`): those that are nearer to it than to its neighbours, with the ends if its
significand is even.  `Binary64.ofRatio?` and `Binary64.ofDecimal?` lead every rational of the
interval to the number that captures it, and lead nowhere but to numbers in normal form.
-/
namespace ConfigVault.Binary64

/-- The one normal form of a finite number. -/
structure IsNormal (x : Binary64) : Prop where
  significand_lt : x.significand < 2 ^ 53
  min_le : minExponent ≤ x.exponent
  le_max : x.exponent ≤ maxExponent
  full_or_min : 2 ^ 52 ≤ x.significand ∨ x.exponent = minExponent

/-- A number, its sign apart. -/
def magnitude (x : Binary64) : ℚ := x.significand * (2 : ℚ) ^ x.exponent

/-- The rational lies in the interval of those that round to the number, its sign apart. -/
structure Captures (x : Binary64) (v : ℚ) : Prop where
  low : x.lowEnd * (2 : ℚ) ^ (x.exponent - 2) ≤ v
  high : v ≤ x.highEnd * (2 : ℚ) ^ (x.exponent - 2)
  low_lt : x.significand % 2 = 1 → x.lowEnd * (2 : ℚ) ^ (x.exponent - 2) < v
  lt_high : x.significand % 2 = 1 → v < x.highEnd * (2 : ℚ) ^ (x.exponent - 2)

/-! ## Powers as ratios -/

theorem upper_natCast (base k : Nat) : upper base k = base ^ k := rfl

theorem upper_pos {b : Nat} (hb : 0 < b) (e : Int) : 0 < upper b e := Nat.pow_pos hb

theorem lower_pos {b : Nat} (hb : 0 < b) (e : Int) : 0 < lower b e := Nat.pow_pos hb

/-- A power is the ratio of its two parts. -/
theorem upper_div_lower {b : Nat} (hb : 0 < b) (e : Int) :
    (upper b e : ℚ) / lower b e = (b : ℚ) ^ e := by
  have hb' : (b : ℚ) ≠ 0 := by exact_mod_cast hb.ne'
  unfold upper lower
  rcases le_total 0 e with he | he
  · obtain ⟨n, rfl⟩ := Int.eq_ofNat_of_zero_le he
    simp
  · obtain ⟨n, hn⟩ := Int.eq_ofNat_of_zero_le (show 0 ≤ -e by omega)
    obtain rfl : e = -(n : Int) := by omega
    simp

theorem mul_lower {b : Nat} (hb : 0 < b) (e : Int) : (b : ℚ) ^ e * lower b e = upper b e := by
  have h : (lower b e : ℚ) ≠ 0 := by exact_mod_cast (lower_pos hb e).ne'
  rw [← upper_div_lower hb, div_mul_cancel₀ _ h]

/-- A ratio in units of a power of two, as it is handed to `roundQuotient`. -/
theorem scaled_ratio (num den : Nat) (e : Int) :
    ((num * lower 2 e : Nat) : ℚ) / ((den * upper 2 e : Nat) : ℚ) =
      (num : ℚ) / den / (2 : ℚ) ^ e := by
  have h := upper_div_lower (b := 2) (by decide) e
  have hu : (upper 2 e : ℚ) ≠ 0 := by exact_mod_cast (upper_pos (by decide) e).ne'
  rw [Nat.cast_ofNat] at h
  rw [← h, Nat.cast_mul, Nat.cast_mul, div_div_eq_mul_div, mul_div_mul_comm, mul_comm_div,
    mul_div_assoc, mul_comm (num / den : ℚ)]
  ring

/-- How often a power of two goes into a ratio. -/
theorem le_quotient_iff {den : Nat} (hden : 0 < den) (num k : Nat) (e : Int) :
    k ≤ num * lower 2 e / (den * upper 2 e) ↔ k * (2 : ℚ) ^ e ≤ (num : ℚ) / den := by
  have hpos : (0 : ℚ) < 2 ^ e := by positivity
  have hden' : 0 < den * upper 2 e := Nat.mul_pos hden (upper_pos (by decide) e)
  have hdenQ : (0 : ℚ) < ((den * upper 2 e : Nat) : ℚ) := by exact_mod_cast hden'
  rw [Nat.le_div_iff_mul_le hden', ← le_div_iff₀ hpos, ← scaled_ratio, le_div_iff₀ hdenQ]
  exact_mod_cast Iff.rfl

/-! ## Rounding a quotient -/

/-- An integer that lies half of one away from a quotient at most is the quotient rounded down, or
the next one. -/
theorem eq_quotient_or {num den m : Nat} (hlow : 2 * (m * den) ≤ 2 * num + den)
    (hhigh : 2 * num ≤ 2 * (m * den) + den) (hden : 0 < den) :
    m = num / den ∨ m = num / den + 1 := by
  have hnum : den * (num / den) + num % den = num := Nat.div_add_mod num den
  have hmod : num % den < den := Nat.mod_lt num hden
  have h₁ : m < num / den + 2 := by
    by_contra hlt
    have := Nat.mul_le_mul_right den (Nat.not_lt.mp hlt)
    rw [Nat.add_mul, Nat.mul_comm (num / den)] at this
    omega
  have h₂ : num / den < m + 1 := by
    rw [Nat.div_lt_iff_lt_mul hden, Nat.add_mul]
    omega
  omega

/-- All comparisons are made between natural numbers, as rounding makes them. -/
theorem roundQuotient_eq_of_twice {num den m : Nat} (hden : 0 < den)
    (hlow : 2 * (m * den) ≤ 2 * num + den) (hhigh : 2 * num ≤ 2 * (m * den) + den)
    (hodd : m % 2 = 1 → 2 * (m * den) < 2 * num + den ∧ 2 * num < 2 * (m * den) + den) :
    roundQuotient num den = m := by
  have hnum : den * (num / den) + num % den = num := Nat.div_add_mod num den
  unfold roundQuotient
  obtain rfl | rfl := eq_quotient_or hlow hhigh hden
  · rw [Nat.mul_comm (num / den)] at hlow hhigh hodd
    rw [if_neg]
    rintro (h | ⟨h, hq⟩)
    · omega
    · have := (hodd hq).2
      omega
  · rw [Nat.add_mul, Nat.mul_comm (num / den), Nat.one_mul] at hlow hhigh hodd
    rw [if_pos]
    by_cases h : den < 2 * (num % den)
    · exact .inl h
    · refine .inr ⟨by omega, ?_⟩
      by_contra hq
      have := (hodd (by omega)).1
      omega

/-- **The nearest integer is the one that the quotient is rounded to**, if it is even or no tie. -/
theorem roundQuotient_eq {num den m : Nat} (hden : 0 < den)
    (hlow : (m : ℚ) - 1 / 2 ≤ (num : ℚ) / den) (hhigh : (num : ℚ) / den ≤ m + 1 / 2)
    (hodd : m % 2 = 1 → (m : ℚ) - 1 / 2 < (num : ℚ) / den ∧ (num : ℚ) / den < m + 1 / 2) :
    roundQuotient num den = m := by
  have hden' : (0 : ℚ) < den := by exact_mod_cast hden
  rw [le_div_iff₀ hden'] at hlow
  rw [div_le_iff₀ hden'] at hhigh
  rw [lt_div_iff₀ hden', div_lt_iff₀ hden'] at hodd
  apply roundQuotient_eq_of_twice hden
  · have : (2 * (m * den) : ℚ) ≤ 2 * num + den := by linarith
    exact_mod_cast this
  · have : (2 * num : ℚ) ≤ 2 * (m * den) + den := by linarith
    exact_mod_cast this
  · intro h
    obtain ⟨h₁, h₂⟩ := hodd h
    constructor
    · have : (2 * (m * den) : ℚ) < 2 * num + den := by linarith
      exact_mod_cast this
    · have : (2 * num : ℚ) < 2 * (m * den) + den := by linarith
      exact_mod_cast this

/-- A quotient is rounded to one of the integers beside it. -/
theorem roundQuotient_eq_or (num den : Nat) :
    roundQuotient num den = num / den ∨ roundQuotient num den = num / den + 1 := by
  unfold roundQuotient
  dsimp only
  split
  · exact .inr rfl
  · exact .inl rfl

/-! ## The exponent of a ratio -/

theorem log2_bounds {n : Nat} (hn : 0 < n) :
    (2 : ℚ) ^ (n.log2 : Int) ≤ n ∧ (n : ℚ) < 2 ^ ((n.log2 : Int) + 1) := by
  have h₁ := Nat.log2_self_le hn.ne'
  have h₂ := Nat.lt_log2_self (n := n)
  constructor
  · rw [zpow_natCast]
    exact_mod_cast h₁
  · rw [show (n.log2 : Int) + 1 = ((n.log2 + 1 : Nat) : Int) by simp, zpow_natCast]
    exact_mod_cast h₂

/-- The logarithm of a ratio is the difference of the logarithms, or one less. -/
theorem log2_sub_bounds {num den : Nat} (hnum : 0 < num) (hden : 0 < den) :
    (2 : ℚ) ^ ((num.log2 : Int) - den.log2 - 1) ≤ (num : ℚ) / den ∧
      (num : ℚ) / den < 2 ^ ((num.log2 : Int) - den.log2 + 1) := by
  obtain ⟨hn₁, hn₂⟩ := log2_bounds hnum
  obtain ⟨hd₁, hd₂⟩ := log2_bounds hden
  have hden' : (0 : ℚ) < den := by exact_mod_cast hden
  have two : (2 : ℚ) ≠ 0 := two_ne_zero
  rw [le_div_iff₀ hden', div_lt_iff₀ hden']
  generalize hd : (num.log2 : Int) - den.log2 = d
  constructor
  · calc (2 : ℚ) ^ (d - 1) * den ≤ 2 ^ (d - 1) * 2 ^ ((den.log2 : Int) + 1) := by gcongr
      _ = 2 ^ (num.log2 : Int) := by rw [← zpow_add₀ two]; congr 1; omega
      _ ≤ num := hn₁
  · calc (num : ℚ) < 2 ^ ((num.log2 : Int) + 1) := hn₂
      _ = 2 ^ (d + 1) * 2 ^ (den.log2 : Int) := by rw [← zpow_add₀ two]; congr 1; omega
      _ ≤ 2 ^ (d + 1) * den := by gcongr

/-- **The exponent of a ratio leaves it a significand of 53 bits**, all of them in use unless the
exponent is the least one. -/
theorem exponentOf_spec {num den : Nat} (hnum : 0 < num) (hden : 0 < den) :
    minExponent ≤ exponentOf num den ∧
      (num : ℚ) / den < 2 ^ 53 * (2 : ℚ) ^ exponentOf num den ∧
      (exponentOf num den = minExponent ∨
        2 ^ 52 * (2 : ℚ) ^ exponentOf num den ≤ (num : ℚ) / den) := by
  have two : (2 : ℚ) ≠ 0 := two_ne_zero
  obtain ⟨hlower, hupper⟩ := log2_sub_bounds hnum hden
  unfold exponentOf
  dsimp only
  generalize (num.log2 : Int) - den.log2 = d at *
  generalize he : max (d - 53) minExponent = e
  have hmin : minExponent ≤ e := by omega
  have hquotient := le_quotient_iff hden num (2 ^ 53) e
  rw [Nat.cast_pow, Nat.cast_ofNat] at hquotient
  split
  case isTrue h =>
    -- The quotient takes 54 bits, and one place more leaves it 53.
    have hfloor := hquotient.mp h
    have htop : (num : ℚ) / den < 2 ^ 54 * 2 ^ e := by
      calc (num : ℚ) / den < 2 ^ (d + 1) := hupper
        _ ≤ 2 ^ (54 + e) := zpow_le_zpow_right₀ one_le_two (by omega)
        _ = 2 ^ 54 * 2 ^ e := by rw [zpow_add₀ two]; norm_num
    have hstep : (2 : ℚ) ^ (e + 1) = 2 * 2 ^ e := by rw [zpow_add_one₀ two, mul_comm]
    refine ⟨by omega, ?_, .inr ?_⟩
    · rw [hstep]; linarith
    · rw [hstep]; linarith
  case isFalse h =>
    have hlt := lt_of_not_ge fun hfloor => h (hquotient.mpr hfloor)
    refine ⟨hmin, hlt, ?_⟩
    by_cases hem : e = minExponent
    · exact .inl hem
    · right
      obtain rfl : e = d - 53 := by omega
      calc (2 : ℚ) ^ 52 * 2 ^ (d - 53) = 2 ^ (d - 1) := by
            rw [show d - 1 = 52 + (d - 53) by omega, zpow_add₀ two]; norm_num
        _ ≤ (num : ℚ) / den := hlower

/-! ## Rounding a ratio -/

/-- What a number captures is about half a place away from it, and less below a power of two. -/
theorem Captures.near {x : Binary64} {v : ℚ} (h : x.Captures v) (hx : 0 < x.significand) :
    (x.significand : ℚ) - 1 / 2 ≤ v / 2 ^ x.exponent ∧ v / 2 ^ x.exponent ≤ x.significand + 1 / 2 ∧
      (x.significand % 2 = 1 → (x.significand : ℚ) - 1 / 2 < v / 2 ^ x.exponent ∧
        v / 2 ^ x.exponent < x.significand + 1 / 2) ∧
      (x.significand = 2 ^ 52 → minExponent < x.exponent →
        (x.significand : ℚ) - 1 / 4 ≤ v / 2 ^ x.exponent) := by
  have hpos : (0 : ℚ) < 2 ^ x.exponent := by positivity
  have hq : (2 : ℚ) ^ (x.exponent - 2) = 2 ^ x.exponent / 4 := by
    rw [zpow_sub₀ two_ne_zero]; norm_num
  obtain ⟨hlow, hhigh, hlow', hhigh'⟩ := h
  rw [hq] at hlow hhigh hlow' hhigh'
  have hhighEnd : (x.highEnd : ℚ) = 4 * x.significand + 2 := by simp [highEnd]
  -- The lower end is two quarters of a place away, or only one at a power of two.
  have hlowEnd : (4 * x.significand - 2 : ℚ) ≤ x.lowEnd := by
    have : 4 * x.significand ≤ x.lowEnd + 2 := by unfold lowEnd; split <;> omega
    have : (4 * x.significand : ℚ) ≤ x.lowEnd + 2 := by exact_mod_cast this
    linarith
  rw [le_div_iff₀ hpos, div_le_iff₀ hpos, lt_div_iff₀ hpos, div_lt_iff₀ hpos, le_div_iff₀ hpos]
  rw [hhighEnd] at hhigh hhigh'
  have hscaled := mul_le_mul_of_nonneg_right hlowEnd hpos.le
  refine ⟨by linarith, by linarith, fun hodd => ?_, fun hs he => ?_⟩
  · have h₁ := hlow' hodd
    have h₂ := hhigh' hodd
    constructor <;> linarith
  · have hquarter : (x.lowEnd : ℚ) = 4 * x.significand - 1 := by
      have : x.lowEnd + 1 = 4 * x.significand := by unfold lowEnd; rw [if_pos ⟨hs, he⟩]; omega
      have : (x.lowEnd : ℚ) + 1 = 4 * x.significand := by exact_mod_cast this
      linarith
    rw [hquarter] at hlow
    linarith

/-- The exponent of a captured ratio is that of the number, or one less right below a power of
two. -/
theorem exponentOf_of_captures {x : Binary64} {num den : Nat} (hx : x.IsNormal)
    (hpos : 0 < x.significand) (hnum : 0 < num) (hden : 0 < den) (h : x.Captures (num / den)) :
    exponentOf num den = x.exponent ∨
      exponentOf num den = x.exponent - 1 ∧ x.significand = 2 ^ 52 ∧
        minExponent < x.exponent := by
  obtain ⟨hmin, hlt, hge⟩ := exponentOf_spec hnum hden
  obtain ⟨hlow, hhigh, -, hquarter⟩ := h.near hpos
  have hq : (0 : ℚ) < 2 ^ x.exponent := by positivity
  rw [le_div_iff₀ hq] at hlow hquarter
  rw [div_le_iff₀ hq] at hhigh
  have hs : (x.significand : ℚ) + 1 ≤ 2 ^ 53 := by exact_mod_cast hx.significand_lt
  generalize exponentOf num den = e at *
  -- A greater exponent would take a significand of more than 53 bits.
  have hle : e ≤ x.exponent := by
    by_contra hgt
    have hne : e ≠ minExponent := by have := hx.min_le; omega
    have hstep : (2 : ℚ) ^ (x.exponent + 1) ≤ 2 ^ e :=
      zpow_le_zpow_right₀ one_le_two (by omega)
    rw [zpow_add_one₀ two_ne_zero] at hstep
    have hge' := hge.resolve_left hne
    nlinarith
  by_cases heq : e = x.exponent
  · exact .inl heq
  have hmin' : minExponent < x.exponent := by omega
  have hfull : (2 : ℚ) ^ 52 ≤ x.significand := by
    have := hx.full_or_min.resolve_right hmin'.ne'
    exact_mod_cast this
  have hstep : (2 : ℚ) ^ e * 2 ≤ 2 ^ x.exponent := by
    rw [← zpow_add_one₀ two_ne_zero]
    exact zpow_le_zpow_right₀ one_le_two (by omega)
  have hs52 : x.significand = 2 ^ 52 := by
    by_contra hne
    have : 2 ^ 52 + 1 ≤ x.significand := by
      have : 2 ^ 52 ≤ x.significand := by exact_mod_cast hfull
      omega
    have : (2 : ℚ) ^ 52 + 1 ≤ x.significand := by exact_mod_cast this
    nlinarith
  refine .inr ⟨?_, hs52, hmin'⟩
  -- Two less would leave the ratio more than a quarter of a place below the number.
  by_contra hne
  have hstep : (2 : ℚ) ^ e * 4 ≤ 2 ^ x.exponent := by
    rw [show (4 : ℚ) = 2 ^ (2 : Int) by norm_num, ← zpow_add₀ two_ne_zero]
    exact zpow_le_zpow_right₀ one_le_two (by omega)
  have := hquarter hs52 hmin'
  nlinarith

/-- **A ratio is rounded to the number that captures it.** -/
theorem ofRatio?_of_captures {x : Binary64} {num den : Nat} (hx : x.IsNormal)
    (hpos : 0 < x.significand) (hnum : 0 < num) (hden : 0 < den) (h : x.Captures (num / den)) :
    ofRatio? x.negative num den = some x := by
  obtain ⟨hlow, hhigh, hodd, hquarter⟩ := h.near hpos
  have hden' (e : Int) : 0 < den * upper 2 e := Nat.mul_pos hden (upper_pos (by decide) e)
  unfold ofRatio?
  dsimp only [Nat.pow_eq]
  rcases exponentOf_of_captures hx hpos hnum hden h with he | ⟨he, hs, hmin⟩
  · have hround : roundQuotient (num * lower 2 x.exponent) (den * upper 2 x.exponent) =
        x.significand := by
      apply roundQuotient_eq (hden' _) <;> rw [scaled_ratio] <;> assumption
    rw [he, hround, if_neg hx.significand_lt.ne, if_neg (Int.not_lt.mpr hx.le_max)]
  · -- Right below a power of two the quotient is rounded up to it, out of its 53 bits.
    have hround : roundQuotient (num * lower 2 (x.exponent - 1)) (den * upper 2 (x.exponent - 1)) =
        2 ^ 53 := by
      have hhalf : (num : ℚ) / den / 2 ^ (x.exponent - 1) =
          2 * ((num : ℚ) / den / 2 ^ x.exponent) := by
        rw [zpow_sub_one₀ two_ne_zero]
        field_simp
      have hnear := hquarter hs hmin
      have hlt : (num : ℚ) / den / 2 ^ x.exponent ≤ 2 ^ 52 := by
        obtain ⟨-, hlt, -⟩ := exponentOf_spec hnum hden
        rw [he, zpow_sub_one₀ two_ne_zero] at hlt
        rw [div_le_iff₀ (by positivity)]
        linarith
      rw [hs] at hnear
      push_cast at hnear
      apply roundQuotient_eq (hden' _)
      · rw [scaled_ratio, hhalf]; push_cast; linarith
      · rw [scaled_ratio, hhalf]; push_cast; linarith
      · intro h; omega
    rw [he, hround, if_pos rfl, if_neg (by have := hx.le_max; simp; omega)]
    simp [← hs]

/-- **Rounding leads to numbers in normal form.** -/
theorem isNormal_of_ofRatio? {negative : Bool} {num den : Nat} {x : Binary64} (hnum : 0 < num)
    (hden : 0 < den) (h : ofRatio? negative num den = some x) : x.IsNormal := by
  obtain ⟨hmin, hlt, hge⟩ := exponentOf_spec hnum hden
  unfold ofRatio? at h
  dsimp only [Nat.pow_eq] at h
  generalize exponentOf num den = e at *
  have hquotient (k : Nat) := le_quotient_iff hden num k e
  have hlt : num * lower 2 e / (den * upper 2 e) < 2 ^ 53 := by
    rw [← Nat.not_le, hquotient, not_le]
    exact_mod_cast hlt
  have hfull : e = minExponent ∨ 2 ^ 52 ≤ num * lower 2 e / (den * upper 2 e) := by
    rw [hquotient]
    exact_mod_cast hge
  -- Rounding adds at most one to the quotient, and that is one too many only for a full
  -- significand.
  have hround := roundQuotient_eq_or (num * lower 2 e) (den * upper 2 e)
  generalize roundQuotient (num * lower 2 e) (den * upper 2 e) = m at *
  generalize num * lower 2 e / (den * upper 2 e) = q at *
  by_cases hm : m = 2 ^ 53
  · simp only [if_pos hm] at h
    split at h
    case isTrue => cases h
    case isFalse hmax =>
      cases h
      exact ⟨by norm_num, Int.le_trans hmin (by simp), Int.not_lt.mp hmax, .inl (Nat.le_refl _)⟩
  · simp only [if_neg hm] at h
    split at h
    case isTrue => cases h
    case isFalse hmax =>
      cases h
      exact ⟨by simp only; omega, hmin, Int.not_lt.mp hmax, by simp only; omega⟩

/-! ## Rounding a decimal -/

theorem repr_bounds {n : Nat} (hn : 0 < n) :
    (10 : ℚ) ^ ((n.repr.length : Int) - 1) ≤ n ∧ (n : ℚ) < 10 ^ (n.repr.length : Int) := by
  have hlen : 0 < n.repr.length := Nat.length_repr_pos
  have hlt := (Nat.length_repr_le_iff hlen).mp (Nat.le_refl _)
  constructor
  · obtain ⟨k, hk⟩ : ∃ k, n.repr.length = k + 1 := ⟨n.repr.length - 1, by omega⟩
    have hle : 10 ^ k ≤ n := by
      rcases Nat.eq_zero_or_pos k with rfl | hpos
      · exact hn
      · by_contra h
        have := (Nat.length_repr_le_iff hpos).mpr (Nat.not_le.mp h)
        omega
    rw [hk, show ((k + 1 : Nat) : Int) - 1 = (k : Int) by simp, zpow_natCast]
    exact_mod_cast hle
  · rw [zpow_natCast]
    exact_mod_cast hlt

theorem two_zpow_lt_ten_zpow {e : Int} (he : e ≤ 1200) : (2 : ℚ) ^ e < 10 ^ (400 : Int) := by
  calc (2 : ℚ) ^ e ≤ 2 ^ ((3 : Int) * 400) := zpow_le_zpow_right₀ one_le_two (by omega)
    _ = 8 ^ (400 : Int) := by rw [zpow_mul]; norm_num
    _ < 10 ^ (400 : Int) := zpow_lt_zpow_left₀ (by norm_num) (by norm_num) (by norm_num)

/-- What a nonzero number captures is neither tiny nor huge. -/
theorem Captures.bounds {x : Binary64} {v : ℚ} (h : x.Captures v) (hx : x.IsNormal)
    (hpos : 0 < x.significand) : (10 : ℚ) ^ (-400 : Int) < v ∧ v < 10 ^ (400 : Int) := by
  have hmin : (-1074 : Int) ≤ x.exponent := hx.min_le
  have hmax : x.exponent ≤ (971 : Int) := hx.le_max
  constructor
  · have hlow : (1 : ℚ) ≤ x.lowEnd := by
      have : 1 ≤ x.lowEnd := by unfold lowEnd; split <;> omega
      exact_mod_cast this
    calc (10 : ℚ) ^ (-400 : Int) < 2 ^ (-1076 : Int) := by
          rw [zpow_neg, zpow_neg]
          exact inv_strictAnti₀ (by positivity) (two_zpow_lt_ten_zpow (by omega))
      _ ≤ 2 ^ (x.exponent - 2) := zpow_le_zpow_right₀ one_le_two (by omega)
      _ ≤ x.lowEnd * 2 ^ (x.exponent - 2) := le_mul_of_one_le_left (by positivity) hlow
      _ ≤ v := h.low
  · have hhigh : (x.highEnd : ℚ) ≤ 2 ^ 56 := by
      have := hx.significand_lt
      have : x.highEnd ≤ 2 ^ 56 := by unfold highEnd; omega
      exact_mod_cast this
    calc v ≤ x.highEnd * 2 ^ (x.exponent - 2) := h.high
      _ ≤ 2 ^ 56 * 2 ^ (969 : Int) :=
        mul_le_mul hhigh (zpow_le_zpow_right₀ one_le_two (by omega)) (by positivity) (by positivity)
      _ = 2 ^ (1025 : Int) := by
        rw [← zpow_natCast, ← zpow_add₀ two_ne_zero]; rfl
      _ < 10 ^ (400 : Int) := two_zpow_lt_ten_zpow (by omega)

/-- **A decimal is read as the number that captures it.** -/
theorem ofDecimal?_of_captures {x : Binary64} {digits : Nat} {e : Int} (hx : x.IsNormal)
    (hpos : 0 < x.significand) (h : x.Captures (digits * 10 ^ e)) :
    ofDecimal? x.negative digits e = some x := by
  obtain ⟨hlow, hhigh⟩ := h.bounds hx hpos
  have hten : (0 : ℚ) < 10 ^ e := by positivity
  have hdigits : 0 < digits := by
    by_contra hz
    obtain rfl : digits = 0 := by omega
    rw [Nat.cast_zero, zero_mul] at hlow
    exact absurd hlow (not_lt.mpr (by positivity))
  obtain ⟨hge, hlt⟩ := repr_bounds hdigits
  -- The size of the decimal is the exponent of a power of ten that it stays below.
  have hsize₁ : ¬ e + (digits.repr.length : Int) < -400 := by
    intro hs
    have : (digits : ℚ) * 10 ^ e < 10 ^ (-400 : Int) := by
      calc (digits : ℚ) * 10 ^ e < 10 ^ (digits.repr.length : Int) * 10 ^ e := by gcongr
        _ = 10 ^ ((digits.repr.length : Int) + e) := by rw [zpow_add₀ (by norm_num)]
        _ ≤ 10 ^ (-400 : Int) := zpow_le_zpow_right₀ (by norm_num) (by omega)
    exact absurd hlow (not_lt.mpr this.le)
  have hsize₂ : ¬ 400 < e + (digits.repr.length : Int) := by
    intro hs
    have : (10 : ℚ) ^ (400 : Int) ≤ digits * 10 ^ e := by
      calc (10 : ℚ) ^ (400 : Int) ≤ 10 ^ ((digits.repr.length : Int) - 1 + e) :=
            zpow_le_zpow_right₀ (by norm_num) (by omega)
        _ = 10 ^ ((digits.repr.length : Int) - 1) * 10 ^ e := by rw [zpow_add₀ (by norm_num)]
        _ ≤ digits * 10 ^ e := by gcongr
    exact absurd hhigh (not_lt.mpr this)
  unfold ofDecimal?
  dsimp only
  rw [if_neg (by omega), if_neg hsize₂]
  refine ofRatio?_of_captures hx hpos (Nat.mul_pos hdigits (upper_pos (by decide) e))
    (lower_pos (by decide) e) ?_
  have hratio := upper_div_lower (b := 10) (by decide) e
  rw [Nat.cast_ofNat] at hratio
  rwa [Nat.cast_mul, mul_div_assoc, hratio]

theorem isNormal_zero (negative : Bool) : (zero negative).IsNormal :=
  ⟨by norm_num [zero], Int.le_refl _, by simp [zero, minExponent, maxExponent], .inr rfl⟩

/-- **Reading a decimal leads to numbers in normal form.** -/
theorem isNormal_of_ofDecimal? {negative : Bool} {digits : Nat} {e : Int} {x : Binary64}
    (h : ofDecimal? negative digits e = some x) : x.IsNormal := by
  unfold ofDecimal? at h
  dsimp only at h
  split at h
  case isTrue =>
    cases h
    exact isNormal_zero negative
  case isFalse hz =>
    split at h
    case isTrue => cases h
    case isFalse =>
      exact isNormal_of_ofRatio? (Nat.mul_pos (by omega) (upper_pos (by decide) e))
        (lower_pos (by decide) e) h

/-- A number in normal form without significand is a zero. -/
theorem IsNormal.eq_zero {x : Binary64} (hx : x.IsNormal) (h : x.significand = 0) :
    x = zero x.negative := by
  obtain ⟨negative, significand, exponent⟩ := x
  obtain rfl : significand = 0 := h
  obtain rfl : exponent = minExponent := hx.full_or_min.resolve_left (by simp)
  rfl

end ConfigVault.Binary64
