import ConfigVault.Proofs.Number.Binary64

/-! # The shortest decimal reads back

The decimal that a number is written as lies in the interval that the number captures
(`Binary64.captures_shortest`), so it is read as the same number.  On the grid of seventeen digits
one of the two decimals beside a number is always near enough, so the search never comes to its
fallback.
-/
namespace ConfigVault

/-- The rational that a decimal stands for. -/
def Decimal.value (d : Decimal) : ℚ := d.digits * (10 : ℚ) ^ d.exponent

/-- Zeros at the end of the digits are moved into the exponent. -/
theorem Decimal.value_trimmed (fuel : Nat) (d : Decimal) : (d.trimmed fuel).value = d.value := by
  induction fuel generalizing d with
  | zero => rfl
  | succ fuel ih =>
    rw [trimmed]
    split
    case isTrue h =>
      have hdigits : (d.digits : ℚ) = 10 * (d.digits / 10 : Nat) := by
        have : d.digits = 10 * (d.digits / 10) := by omega
        exact_mod_cast this
      rw [ih, value, value, hdigits, zpow_add_one₀ (by norm_num)]
      ring
    case isFalse => rfl

namespace Binary64

/-! ## Comparing a decimal with a number -/

/-- The scale that makes natural numbers of both sides of a comparison. -/
theorem scale_pos (p q : Int) : (0 : ℚ) < lower 10 p * lower 2 q := by
  have h := Nat.mul_pos (@lower_pos 10 (by decide) p) (@lower_pos 2 (by decide) q)
  exact_mod_cast h

theorem cast_decimal (a : Nat) (p q : Int) :
    ((a * upper 10 p * lower 2 q : Nat) : ℚ) = a * 10 ^ p * (lower 10 p * lower 2 q) := by
  have h := mul_lower (b := 10) (by decide) p
  rw [Nat.cast_ofNat] at h
  push_cast
  rw [← h]
  ring

theorem cast_binary (b : Nat) (p q : Int) :
    ((b * upper 2 q * lower 10 p : Nat) : ℚ) = b * 2 ^ q * (lower 10 p * lower 2 q) := by
  have h := mul_lower (b := 2) (by decide) q
  rw [Nat.cast_ofNat] at h
  push_cast
  rw [← h]
  ring

theorem scaled_lt_iff (a b : Nat) (p q : Int) :
    a * upper 10 p * lower 2 q < b * upper 2 q * lower 10 p ↔
      (a : ℚ) * 10 ^ p < b * 2 ^ q := by
  rw [← @Nat.cast_lt ℚ, cast_decimal, cast_binary, mul_lt_mul_iff_left₀ (scale_pos p q)]

theorem scaled_eq_iff (a b : Nat) (p q : Int) :
    a * upper 10 p * lower 2 q = b * upper 2 q * lower 10 p ↔
      (a : ℚ) * 10 ^ p = b * 2 ^ q := by
  rw [← @Nat.cast_inj ℚ, cast_decimal, cast_binary, mul_left_inj' (scale_pos p q).ne']

/-- **A decimal reads back just if it is captured.** -/
theorem readsBack_iff (x : Binary64) (a : Nat) (p : Int) :
    x.readsBack a p ↔ x.Captures (a * 10 ^ p) := by
  have hgt (b : Nat) (q : Int) : compareScaled a p b q = .gt ↔ (b : ℚ) * 2 ^ q < a * 10 ^ p := by
    rw [compareScaled, Nat.compare_eq_gt, ← not_le, ← not_le, not_iff_not, le_iff_lt_or_eq,
      le_iff_lt_or_eq, scaled_lt_iff, scaled_eq_iff]
  have hlt (b : Nat) (q : Int) : compareScaled a p b q = .lt ↔ (a : ℚ) * 10 ^ p < b * 2 ^ q := by
    rw [compareScaled, Nat.compare_eq_lt, scaled_lt_iff]
  have heq (b : Nat) (q : Int) : compareScaled a p b q = .eq ↔ (a : ℚ) * 10 ^ p = b * 2 ^ q := by
    rw [compareScaled, Nat.compare_eq_eq, scaled_eq_iff]
  unfold readsBack
  simp only [Bool.and_eq_true, Bool.or_eq_true, beq_iff_eq, hgt, hlt, heq]
  constructor
  · rintro ⟨hlow, hhigh⟩
    refine ⟨?_, ?_, fun hodd => ?_, fun hodd => ?_⟩
    · exact hlow.elim le_of_lt fun h => h.2.ge
    · exact hhigh.elim le_of_lt fun h => h.2.le
    · exact hlow.resolve_right fun h => by omega
    · exact hhigh.resolve_right fun h => by omega
  · rintro ⟨hlow, hhigh, hlow', hhigh'⟩
    rcases Nat.mod_two_eq_zero_or_one x.significand with he | ho
    · exact ⟨hlow.lt_or_eq.imp_right fun h => ⟨he, h.symm⟩, hhigh.lt_or_eq.imp_right fun h => ⟨he, h⟩⟩
    · exact ⟨.inl (hlow' ho), .inl (hhigh' ho)⟩

theorem captures_of_lt {x : Binary64} {v : ℚ} (hlow : x.lowEnd * (2 : ℚ) ^ (x.exponent - 2) < v)
    (hhigh : v < x.highEnd * (2 : ℚ) ^ (x.exponent - 2)) : x.Captures v :=
  ⟨hlow.le, hhigh.le, fun _ => hlow, fun _ => hhigh⟩

/-- A decimal found on a grid is captured. -/
theorem captures_of_onGrid? {x : Binary64} {p : Int} {d : Decimal} (h : x.onGrid? p = some d) :
    x.Captures d.value := by
  have hcapture {a : Nat} (ha : x.readsBack a p) : x.Captures (⟨a, p⟩ : Decimal).value :=
    (readsBack_iff x a p).mp ha
  unfold onGrid? at h
  dsimp only at h
  split at h
  next h₁ _ => cases h; exact hcapture h₁
  next _ h₂ => cases h; exact hcapture h₂
  next h₁ h₂ =>
    cases h
    unfold nearest
    rcases roundQuotient_eq_or (x.ratio p).1 (x.ratio p).2 with hr | hr <;> rw [hr]
    · exact hcapture h₁
    · exact hcapture h₂
  next => cases h

/-! ## The search -/

theorem magnitude_eq (x : Binary64) :
    x.magnitude = x.significand * upper 2 x.exponent / lower 2 x.exponent := by
  have h := upper_div_lower (b := 2) (by decide) x.exponent
  rw [Nat.cast_ofNat] at h
  rw [magnitude, ← h, mul_div_assoc]

theorem lower_le {x : Binary64} (hx : x.IsNormal) : lower 2 x.exponent ≤ 10 ^ 340 := by
  have hmin : (-1074 : Int) ≤ x.exponent := hx.min_le
  calc lower 2 x.exponent ≤ 2 ^ (13 * 83) := Nat.pow_le_pow_right (by decide) (by omega)
    _ = (2 ^ 13) ^ 83 := pow_mul 2 13 83
    _ ≤ (10 ^ 4) ^ 83 := Nat.pow_le_pow_left (by decide) 83
    _ = 10 ^ (4 * 83) := (pow_mul 10 4 83).symm
    _ ≤ 10 ^ 340 := pow_le_pow_right₀ (by norm_num) (by norm_num)

theorem ten_zpow_sub (e : Int) (n : Nat) : (10 : ℚ) ^ (e - n) * 10 ^ n = 10 ^ e := by
  rw [← zpow_natCast, ← zpow_add₀ (by norm_num), Int.sub_add_cancel]

/-- The digits of a scaled rational, rounded down, tell where its leading digit is. -/
theorem leading_le_of_le_scaled {v : ℚ} {n k : Nat} (hn : 0 < n) (h : n ≤ v * 10 ^ k) :
    (10 : ℚ) ^ ((n.repr.length : Int) - (k + 1)) ≤ v := by
  have hshift := ten_zpow_sub ((n.repr.length : Int) - 1) k
  have hle := (repr_bounds hn).1.trans h
  rw [← hshift, Int.sub_sub, Int.add_comm 1] at hle
  exact le_of_mul_le_mul_right hle (by positivity)

/-- The leading digit of a number is where it is said to be, or further left. -/
theorem leadingExponent_le {x : Binary64} (hx : x.IsNormal) (hpos : 0 < x.significand) :
    (10 : ℚ) ^ x.leadingExponent ≤ x.magnitude := by
  have hl : (0 : ℚ) < lower 2 x.exponent := by exact_mod_cast lower_pos (by decide) x.exponent
  have hn : 0 < x.significand * upper 2 x.exponent * 10 ^ 340 / lower 2 x.exponent := by
    refine Nat.div_pos ((lower_le hx).trans ?_) (lower_pos (by decide) _)
    exact Nat.le_mul_of_pos_left _ (Nat.mul_pos hpos (upper_pos (by decide) _))
  have hle : ((x.significand * upper 2 x.exponent * 10 ^ 340 / lower 2 x.exponent : Nat) : ℚ) ≤
      x.magnitude * 10 ^ 340 := by
    rw [magnitude_eq, div_mul_eq_mul_div, le_div_iff₀ hl]
    exact_mod_cast Nat.div_mul_le_self ..
  have hscale : upper 10 340 = 10 ^ 340 := upper_natCast 10 340
  unfold leadingExponent
  rw [hscale]
  exact leading_le_of_le_scaled (k := 340) hn hle

/-- The decimals beside a number on a grid. -/
theorem ratio_bounds (x : Binary64) (p : Int) :
    ((x.ratio p).1 / (x.ratio p).2 : Nat) * (10 : ℚ) ^ p ≤ x.magnitude ∧
      x.magnitude < (((x.ratio p).1 / (x.ratio p).2 + 1 : Nat) : ℚ) * 10 ^ p := by
  have hpos : 0 < (x.ratio p).2 := Nat.mul_pos (lower_pos (by decide) _) (upper_pos (by decide) _)
  have hposQ : (0 : ℚ) < (x.ratio p).2 := by exact_mod_cast hpos
  have hten : (0 : ℚ) < 10 ^ p := by positivity
  have hratio : x.magnitude / 10 ^ p = ((x.ratio p).1 : ℚ) / (x.ratio p).2 := by
    have h := upper_div_lower (b := 10) (by decide) p
    have hl : (lower 10 p : ℚ) ≠ 0 := by exact_mod_cast (lower_pos (by decide) p).ne'
    have hl2 : (lower 2 x.exponent : ℚ) ≠ 0 := by exact_mod_cast (lower_pos (by decide) _).ne'
    have hu : (upper 10 p : ℚ) ≠ 0 := by exact_mod_cast (upper_pos (by decide) p).ne'
    rw [Nat.cast_ofNat] at h
    rw [magnitude_eq, ← h, ratio]
    push_cast
    field_simp
  constructor
  · rw [← le_div_iff₀ hten, hratio, le_div_iff₀ hposQ]
    exact_mod_cast Nat.div_mul_le_self (x.ratio p).1 (x.ratio p).2
  · rw [← div_lt_iff₀ hten, hratio, div_lt_iff₀ hposQ]
    exact_mod_cast Nat.lt_mul_of_div_lt (Nat.lt_succ_self _) hpos

/-- Of two neighbours on a grid that is fine enough the one above or the one below is captured. -/
theorem captures_or_captures {x : Binary64} {v g : ℚ} (hx : x.IsNormal) (hpos : 0 < x.significand)
    (hlow : v ≤ x.magnitude) (hhigh : x.magnitude < v + g) (hgrid : g * 10 ^ 16 ≤ x.magnitude) :
    x.Captures v ∨ x.Captures (v + g) := by
  have hq : (0 : ℚ) < 2 ^ x.exponent := by positivity
  have hplace : (2 : ℚ) ^ (x.exponent - 2) = 2 ^ x.exponent / 4 := by
    rw [zpow_sub₀ two_ne_zero]; norm_num
  have hs : (x.significand : ℚ) ≤ 2 ^ 53 := by exact_mod_cast hx.significand_lt.le
  have hhighEnd : (x.highEnd : ℚ) = 4 * x.significand + 2 := by simp [highEnd]
  unfold magnitude at hlow hhigh hgrid
  by_cases hbelow : x.significand = 2 ^ 52 ∧ minExponent < x.exponent
  -- Above a power of two the places are twice as wide as below it, so the upper decimal is near.
  · right
    have hs52 : (x.significand : ℚ) = 2 ^ 52 := by exact_mod_cast hbelow.1
    have hlowEnd : (x.lowEnd : ℚ) ≤ 4 * x.significand := by
      have : x.lowEnd ≤ 4 * x.significand := by unfold lowEnd; split <;> omega
      exact_mod_cast this
    apply captures_of_lt <;> rw [hplace]
    · have := mul_le_mul_of_nonneg_right hlowEnd hq.le
      linarith
    · rw [hhighEnd]
      rw [hs52] at hgrid hlow ⊢
      linarith
  · have hlowEnd : (x.lowEnd : ℚ) = 4 * x.significand - 2 := by
      have : x.lowEnd + 2 = 4 * x.significand := by
        unfold lowEnd
        rw [Nat.pow_eq, if_neg hbelow]
        omega
      have : (x.lowEnd : ℚ) + 2 = 4 * x.significand := by exact_mod_cast this
      linarith
    have hwide := mul_le_mul_of_nonneg_right hs hq.le
    by_cases hnear : v + g < x.significand * 2 ^ x.exponent + 2 ^ x.exponent / 2
    · right
      apply captures_of_lt <;> rw [hplace]
      · rw [hlowEnd]; linarith
      · rw [hhighEnd]; linarith
    · left
      apply captures_of_lt <;> rw [hplace]
      · rw [hlowEnd]; linarith
      · rw [hhighEnd]; linarith

theorem isSome_onGrid?_of_readsBack {x : Binary64} {p : Int}
    (h : x.readsBack ((x.ratio p).1 / (x.ratio p).2) p ∨
      x.readsBack ((x.ratio p).1 / (x.ratio p).2 + 1) p) : (x.onGrid? p).isSome := by
  unfold onGrid?
  dsimp only
  rcases h with h | h <;> rw [h] <;> split <;> simp_all

/-- **Seventeen digits are enough**: on their grid a decimal beside the number reads back. -/
theorem isSome_onGrid? {x : Binary64} (hx : x.IsNormal) (hpos : 0 < x.significand) :
    (x.onGrid? (x.leadingExponent - 16)).isSome := by
  have hgrid := ten_zpow_sub x.leadingExponent 16
  rw [Nat.cast_ofNat] at hgrid
  have hle := leadingExponent_le hx hpos
  rw [← hgrid] at hle
  generalize x.leadingExponent - 16 = p at hle ⊢
  obtain ⟨hlow, hhigh⟩ := ratio_bounds x p
  apply isSome_onGrid?_of_readsBack
  rw [readsBack_iff, readsBack_iff]
  rw [Nat.cast_add, Nat.cast_one, add_mul, one_mul] at hhigh ⊢
  exact captures_or_captures hx hpos hlow hhigh hle

/-- **The shortest decimal reads back.** -/
theorem captures_shortest {x : Binary64} (hx : x.IsNormal) (hpos : 0 < x.significand) :
    x.Captures x.shortest.value := by
  have hzero : x.isZero = false := by simp [isZero]; omega
  unfold shortest
  simp only [hzero, Bool.false_eq_true, if_false]
  rw [Decimal.value_trimmed]
  obtain ⟨d, hd⟩ : ∃ d, (List.range 17).findSome?
      (fun n : Nat => x.onGrid? (x.leadingExponent - n)) = some d := by
    rw [← Option.isSome_iff_exists, List.findSome?_isSome_iff]
    exact ⟨16, by simp, isSome_onGrid? hx hpos⟩
  obtain ⟨n, -, hn⟩ := List.exists_of_findSome?_eq_some hd
  rw [hd, Option.getD_some]
  exact captures_of_onGrid? hn

end Binary64

end ConfigVault
