import ConfigVault.Secret.Timestamp

/-! # Timestamps are read back

A timestamp is written in full seconds, so it is read back without its nanoseconds
(`Timestamp.ofText_text`).  The proof goes along the text: each part takes its own characters off the
front and leaves the others (`number_digits`, `smallNumber_twoDigits`, `year_yearText`).
-/
namespace ConfigVault

/-- The day with the numbers of a day is that day. -/
theorem Date.of?_self (d : Date) : of? d.year d.month d.day = some d := by
  rw [of?, dif_pos d.year_mem, dif_pos d.month_mem, dif_pos d.day_mem]

theorem Date.day_le (d : Date) : d.day ≤ 31 := by
  have hday := d.day_mem.2
  unfold daysInMonth at hday
  split at hday
  · split at hday <;> omega
  · split at hday <;> omega

namespace Timestamp

/-! ## Digits -/

theorem isDigit_digit {n : Nat} (h : n < 10) : (digit n).isDigit := by
  have hall : ∀ n : Fin 10, (digit n).isDigit := by decide
  exact hall ⟨n, h⟩

theorem toNat_digit {n : Nat} (h : n < 10) : (digit n).toNat - 0x30 = n := by
  have hall : ∀ n : Fin 10, (digit n).toNat - 0x30 = n := by decide
  exact hall ⟨n, h⟩

theorem isDigit_twoDigits {n : Nat} (h : n < 100) : ∀ c ∈ twoDigits n, c.isDigit := by
  intro c hc
  rcases List.mem_cons.mp hc with rfl | hc
  · exact isDigit_digit (by omega)
  · obtain rfl := List.mem_singleton.mp hc
    exact isDigit_digit (by omega)

theorem isDigit_fourDigits (n : Nat) : ∀ c ∈ fourDigits n, c.isDigit := by
  intro c hc
  unfold fourDigits at hc
  split at hc
  · rcases List.mem_append.mp hc with hc | hc
    · exact isDigit_twoDigits (by omega) c hc
    · exact isDigit_twoDigits (by omega) c hc
  · exact Nat.isDigit_of_mem_toDigits (by decide) (by decide) hc

theorem valueOf_twoDigits {n : Nat} (h : n < 100) : valueOf (twoDigits n) = n := by
  rw [valueOf, twoDigits, List.foldl_cons, List.foldl_cons, List.foldl_nil,
    toNat_digit (by omega), toNat_digit (by omega)]
  omega

theorem valueOf_fourDigits (n : Nat) : valueOf (fourDigits n) = n := by
  unfold fourDigits
  split
  · simp only [valueOf, twoDigits, List.foldl_append, List.foldl_cons, List.foldl_nil]
    rw [toNat_digit (by omega), toNat_digit (by omega), toNat_digit (by omega),
      toNat_digit (by omega)]
    omega
  · exact Nat.ofDigitChars_ten_toDigits

/-- A digit is neither blank nor a sign. -/
theorem not_isWhiteSpace_of_isDigit {c : Char} (h : c.isDigit) : Text.isWhiteSpace c = false := by
  have hlow : '0' ≤ c := by
    simp only [Char.isDigit, Bool.and_eq_true, decide_eq_true_eq] at h
    exact h.1
  have hhigh : c ≤ '9' := by
    simp only [Char.isDigit, Bool.and_eq_true, decide_eq_true_eq] at h
    exact h.2
  have hne {d : Char} (hd : d.isDigit = false) : (c == d) = false := by
    rw [beq_eq_false_iff_ne]
    rintro rfl
    rw [h] at hd
    cases hd
  have hbelow : decide (c ≤ '\r') = false := by
    rw [decide_eq_false_iff_not]
    exact fun hc => absurd (Char.le_trans hlow hc) (by decide)
  have habove : decide ('\u2000' ≤ c) = false := by
    rw [decide_eq_false_iff_not]
    exact fun hc => absurd (Char.le_trans hc hhigh) (by decide)
  simp only [Text.isWhiteSpace, hbelow, habove, hne (d := ' ') rfl, hne (d := '\u0085') rfl,
    hne (d := '\u00A0') rfl, hne (d := '\u1680') rfl, hne (d := '\u2028') rfl,
    hne (d := '\u2029') rfl, hne (d := '\u202F') rfl, hne (d := '\u205F') rfl,
    hne (d := '\u3000') rfl, Bool.and_false, Bool.false_and, Bool.or_self]

/-! ## Parts -/

/-- What was taken off the front is passed on. -/
theorem bind_ok {α β : Type} (x : α) (f : α → Except Fault β) : (Except.ok x >>= f) = f x := rfl

theorem trimStart_of_not {c : Char} (h : Text.isWhiteSpace c = false) (cs : List Char) :
    Text.trimStart (c :: cs) = c :: cs := by
  simp [Text.trimStart, h]

theorem separator_self {sep : Char} (h : Text.isWhiteSpace sep = false) (cs : List Char) :
    separator sep (sep :: cs) = .ok cs := by
  rw [separator, trimStart_of_not h]
  exact if_pos rfl

/-- **A number is read up to its width**, or up to the first character that is no digit. -/
theorem number_digits {ds : List Char} (width : Option Nat) (rest : List Char) (hne : ds ≠ [])
    (hds : ∀ c ∈ ds, c.isDigit)
    (hend : width = some ds.length ∨ width = none ∧ rest.takeWhile Char.isDigit = []) :
    number width (ds ++ rest) = .ok (valueOf ds, rest) := by
  have hrun : (ds ++ rest).takeWhile Char.isDigit = ds ++ rest.takeWhile Char.isDigit :=
    List.takeWhile_append_of_pos hds
  have hdigits : width.elim ((ds ++ rest).takeWhile Char.isDigit)
      ((ds ++ rest).takeWhile Char.isDigit).take = ds := by
    rw [hrun]
    rcases hend with rfl | ⟨rfl, hrest⟩
    · exact List.take_left
    · exact (congrArg (ds ++ ·) hrest).trans (List.append_nil ds)
  unfold number
  dsimp only
  rw [hdigits, if_neg (by simpa using hne), List.drop_left]

/-- A number in its range is read from its two digits. -/
theorem smallNumber_twoDigits {low high n : Nat} (hlow : low ≤ n) (hhigh : n ≤ high)
    (hn : n < 100) (rest : List Char) :
    smallNumber low high (twoDigits n ++ rest) = .ok (n, rest) := by
  have htrim : Text.trimStart (twoDigits n ++ rest) = twoDigits n ++ rest :=
    trimStart_of_not (not_isWhiteSpace_of_isDigit (isDigit_digit (by omega))) _
  have hnumber : number (some 2) (twoDigits n ++ rest) = .ok (n, rest) := by
    have h := number_digits (some 2) rest (by simp [twoDigits])
      (isDigit_twoDigits hn) (.inl rfl)
    rwa [valueOf_twoDigits hn] at h
  rw [smallNumber, htrim, hnumber]
  exact if_pos ⟨hlow, hhigh⟩

theorem fourDigits_ne_nil (n : Nat) : fourDigits n ≠ [] := by
  unfold fourDigits
  split
  · simp [twoDigits]
  · exact Nat.toDigits_ne_nil

/-- A year behind its sign is read up to the dash. -/
theorem number_fourDigits (n : Nat) (rest : List Char) :
    number none (fourDigits n ++ '-' :: rest) = .ok (n, '-' :: rest) := by
  have h := number_digits none ('-' :: rest) (fourDigits_ne_nil n)
    (isDigit_fourDigits n) (.inr ⟨rfl, rfl⟩)
  rwa [valueOf_fourDigits] at h

theorem checkYear_of_mem {y : Int} (hy : -0x80000000 ≤ y ∧ y < 0x80000000) : checkYear y = .ok y :=
  if_pos hy

/-- The year behind a minus sign. -/
theorem year_minus {n : Nat} (hn : n ≤ 0x80000000) {cs rest : List Char}
    (h : number none cs = .ok (n, rest)) : year ('-' :: cs) = .ok (-n, rest) := by
  rw [year, trimStart_of_not (by decide)]
  split
  case h_1 heq =>
    cases heq
    rw [h, bind_ok]
    dsimp only
    rw [checkYear_of_mem (by omega)]
    rfl
  case h_2 heq => simp at heq
  case h_3 hminus _ => exact absurd rfl (hminus _)

/-- The year behind a plus sign. -/
theorem year_plus {n : Nat} (hn : n < 0x80000000) {cs rest : List Char}
    (h : number none cs = .ok (n, rest)) : year ('+' :: cs) = .ok (n, rest) := by
  rw [year, trimStart_of_not (by decide)]
  split
  case h_1 heq => simp at heq
  case h_2 heq =>
    cases heq
    rw [h, bind_ok]
    dsimp only
    rw [checkYear_of_mem (by omega)]
    rfl
  case h_3 hplus => exact absurd rfl (hplus _)

/-- A year without a sign is read from four digits. -/
theorem year_fourDigits {n : Nat} (hn : n < 10000) (rest : List Char) :
    year (fourDigits n ++ '-' :: rest) = .ok (n, '-' :: rest) := by
  have hdigits : fourDigits n = twoDigits (n / 100) ++ twoDigits (n % 100) := if_pos hn
  have hread : number (some 4) (fourDigits n ++ '-' :: rest) = .ok (n, '-' :: rest) := by
    have h := number_digits (some 4) ('-' :: rest) (fourDigits_ne_nil n)
      (isDigit_fourDigits n) (.inl (by rw [hdigits]; rfl))
    rwa [valueOf_fourDigits] at h
  have hdigit : (digit (n / 100 / 10)).isDigit := isDigit_digit (by omega)
  obtain ⟨c, cs, hcs, hc⟩ : ∃ c cs, fourDigits n ++ '-' :: rest = c :: cs ∧ c.isDigit :=
    ⟨_, _, by rw [hdigits]; rfl, hdigit⟩
  rw [hcs] at hread ⊢
  rw [year, trimStart_of_not (not_isWhiteSpace_of_isDigit hc)]
  split
  case h_1 heq => cases heq; cases hc
  case h_2 heq => cases heq; cases hc
  case h_3 => rw [hread]; rfl

/-- **A year is read from its text**, with or without a sign. -/
theorem year_yearText {y : Int} (hy : -262143 ≤ y ∧ y ≤ 262142) (rest : List Char) :
    year (yearText y ++ '-' :: rest) = .ok (y, '-' :: rest) := by
  unfold yearText
  split
  case isTrue hneg =>
    have h := year_minus (by omega) (number_fourDigits y.natAbs rest)
    rwa [show -(y.natAbs : Int) = y by omega] at h
  case isFalse hneg =>
    have habs : (y.natAbs : Int) = y := by omega
    split
    case isTrue hfour =>
      have h := year_fourDigits (n := y.natAbs) (by omega) rest
      rwa [habs] at h
    case isFalse hfour =>
      have h := year_plus (by omega) (number_fourDigits y.natAbs rest)
      rwa [habs] at h

/-! ## Whole texts -/

theorem toUniversal_zero (d : Date) {m : Nat} (hm : m < 1440) :
    toUniversal d m 0 = some (d, ⟨m, hm⟩) := by
  unfold toUniversal
  dsimp only
  rw [if_neg (by omega), if_neg (by omega)]
  congr
  omega

/-- The timestamp in full seconds. -/
def inSeconds (t : Timestamp) : Timestamp := { t with nanosecond := 0 }

/-- **A timestamp is read back in full seconds.** -/
theorem ofText_text (t : Timestamp) : ofText t.text = .ok t.inSeconds := by
  have hminutes := t.minutes_lt
  have hsecond := t.second_le
  have hwhole : t.minutes / 60 * 60 + t.minutes % 60 = t.minutes := by omega
  have hmonth := smallNumber_twoDigits t.date.month_mem.1 t.date.month_mem.2
    (by have := t.date.month_mem; omega)
  have hday := smallNumber_twoDigits t.date.day_mem.1 t.date.day_le
    (by have := t.date.day_le; omega)
  have hhour := @smallNumber_twoDigits 0 23 (t.minutes / 60) (by omega) (by omega) (by omega)
  have hminute := @smallNumber_twoDigits 0 59 (t.minutes % 60) (by omega) (by omega) (by omega)
  have hseconds := @smallNumber_twoDigits 0 60 t.second (by omega) hsecond (by omega)
  have htime (cs : List Char) : timeMark ('T' :: cs) = .ok cs := rfl
  have hfraction : fraction ['Z'] = .ok (0, ['Z']) := rfl
  have hoffset : offset ['Z'] = .ok (0, []) := rfl
  have hdash := @separator_self '-' (by decide)
  have hcolon := @separator_self ':' (by decide)
  have htrim := @trimStart_of_not 'Z' (by decide) []
  rw [ofText, text, String.toList_ofList]
  simp only [dateText, List.append_assoc, List.cons_append]
  -- The parts are read one after the other, each in front of what is left.
  rw [ofChars, year_yearText t.date.year_mem]
  simp only [bind_ok, hdash, hmonth, hday, htime, hhour, hcolon, hminute, hseconds, hfraction, htrim,
    hoffset]
  rw [Date.of?_self, hwhole]
  simp only [toUniversal_zero t.date hminutes, hsecond]
  rfl

@[simp] theorem inSeconds_inSeconds (t : Timestamp) : t.inSeconds.inSeconds = t.inSeconds := rfl

@[simp] theorem map_inSeconds_inSeconds (t : Option Timestamp) :
    (t.map inSeconds).map inSeconds = t.map inSeconds := by
  cases t with
  | none => rfl
  | some t => rw [Option.map_some, Option.map_some, inSeconds_inSeconds]

end Timestamp

end ConfigVault
