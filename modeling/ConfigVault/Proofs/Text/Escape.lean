import ConfigVault.Text.Escape

/-! # Strings in quotes can be told apart

Whatever follows a string in quotes, the string can be read off the front (`quote_append_inj`).
That is so because the escapes of characters are a code: the beginning of a text is the escape of at
most one character (`Escapes.unique`), and no escape begins with the quote that ends the string.  An
escape that writes a number has no fixed width, but a brace behind its digits.
-/
namespace ConfigVault.Text

/-! ## Numbers in hexadecimal -/

/-- There is one way to cut a list at its first `x`. -/
theorem append_end_inj {α : Type} {x : α} {xs ys rest rest' : List α} (hxs : x ∉ xs) (hys : x ∉ ys)
    (h : xs ++ x :: rest = ys ++ x :: rest') : xs = ys ∧ rest = rest' := by
  rcases List.append_eq_append_iff.mp h with ⟨zs, rfl, hzs⟩ | ⟨zs, rfl, hzs⟩
  · cases zs with
    | nil => exact ⟨(List.append_nil xs).symm, (List.cons.inj hzs).2⟩
    | cons z zs =>
      obtain rfl : x = z := (List.cons.inj hzs).1
      exact absurd (by simp) hys
  · cases zs with
    | nil => exact ⟨List.append_nil ys, (List.cons.inj hzs).2.symm⟩
    | cons z zs =>
      obtain rfl : x = z := (List.cons.inj hzs).1
      exact absurd (by simp) hxs

/-- The last digit of a number, and the digits in front of it. -/
theorem hexadecimal_eq (n : Nat) :
    hexadecimal n = (if n < 16 then [] else hexadecimal (n / 16)) ++ [Nat.digitChar (n % 16)] := by
  unfold hexadecimal
  rw [Nat.toDigits_eq_if (by decide)]
  split
  case isTrue h => rw [Nat.mod_eq_of_lt h, List.nil_append]
  case isFalse => rfl

theorem hexadecimal_ne_nil (n : Nat) : hexadecimal n ≠ [] := Nat.toDigits_ne_nil

theorem digitChar_inj : ∀ a < 16, ∀ b < 16, Nat.digitChar a = Nat.digitChar b → a = b := by
  decide

/-- **A number is determined by its digits.** -/
theorem hexadecimal_inj {m n : Nat} (h : hexadecimal m = hexadecimal n) : m = n := by
  -- The last digits are the same, and so are the numbers that the digits in front of them write.
  induction m using Nat.strongRecOn generalizing n with
  | ind m ih =>
    rw [hexadecimal_eq m, hexadecimal_eq n] at h
    obtain ⟨hfront, hlast⟩ := List.append_inj' h rfl
    have hmod : m % 16 = n % 16 := digitChar_inj _ (Nat.mod_lt m (by decide)) _
      (Nat.mod_lt n (by decide)) (List.singleton_inj.mp hlast)
    by_cases hm : m < 16
    · by_cases hn : n < 16
      · omega
      · rw [if_pos hm, if_neg hn] at hfront
        exact absurd hfront.symm (hexadecimal_ne_nil _)
    · by_cases hn : n < 16
      · rw [if_neg hm, if_pos hn] at hfront
        exact absurd hfront (hexadecimal_ne_nil _)
      · rw [if_neg hm, if_neg hn] at hfront
        have hdiv : m / 16 = n / 16 := ih (m / 16) (by omega) hfront
        omega

/-- The brace that ends a number is none of its digits. -/
theorem brace_not_mem_hexadecimal (n : Nat) : '\x7d' ∉ hexadecimal n := by
  have hdigit : ∀ d < 16, '\x7d' ≠ Nat.digitChar d := by decide
  induction n using Nat.strongRecOn with
  | ind n ih =>
    rw [hexadecimal_eq, List.mem_append, List.mem_singleton]
    rintro (hfront | hlast)
    · by_cases hn : n < 16
      · rw [if_pos hn] at hfront
        cases hfront
      · rw [if_neg hn] at hfront
        exact ih (n / 16) (by omega) hfront
    · exact hdigit _ (Nat.mod_lt n (by decide)) hlast

/-! ## Escapes -/

/-- The characters with an escape of one letter. -/
def shortEscapes : List (Char × Char) :=
  [('\x00', '0'), ('\t', 't'), ('\r', 'r'), ('\n', 'n'), ('"', '"'), ('\\', '\\')]

/-- **The ways to write a character** between quotes. -/
inductive Escapes (c : Char) : List Char → Prop where
  | short {letter : Char} (h : (c, letter) ∈ shortEscapes) : Escapes c ['\\', letter]
  | numeric : Escapes c (numericEscape c)
  | itself (hquote : c ≠ '"') (hslash : c ≠ '\\') : Escapes c [c]

theorem escapes_escapeChar (c : Char) : Escapes c (escapeChar c) := by
  have hshort {x letter : Char} (hc : c = x) (h : (x, letter) ∈ shortEscapes) :
      Escapes c ['\\', letter] := .short (hc ▸ h)
  unfold escapeChar
  split
  · exact hshort ‹_› (by decide)
  split
  · exact hshort ‹_› (by decide)
  split
  · exact hshort ‹_› (by decide)
  split
  · exact hshort ‹_› (by decide)
  split
  · exact hshort ‹_› (by decide)
  rename_i hquote
  split
  · exact hshort ‹_› (by decide)
  rename_i hslash
  split
  · exact .numeric
  · exact .itself hquote hslash

namespace Escapes

variable {c d : Char} {xs ys rest rest' : List Char}

theorem letter_inj : ∀ x ∈ shortEscapes, ∀ y ∈ shortEscapes, x.2 = y.2 → x.1 = y.1 := by decide

theorem letter_ne_u : ∀ x ∈ shortEscapes, x.2 ≠ 'u' := by decide

/-- The digits of a number end at the brace. -/
theorem numeric_inj (h : numericEscape c ++ rest = numericEscape d ++ rest') :
    c = d ∧ rest = rest' := by
  unfold numericEscape at h
  simp only [List.cons_append, List.append_assoc, List.nil_append, List.cons.injEq, true_and] at h
  obtain ⟨hdigits, hrest⟩ := append_end_inj (brace_not_mem_hexadecimal _)
    (brace_not_mem_hexadecimal _) h
  exact ⟨Char.toNat_inj.mp (hexadecimal_inj hdigits), hrest⟩

/-- **At most one character's escape is in front of a text**, and then it is known what follows. -/
theorem unique (hx : Escapes c xs) (hy : Escapes d ys) (h : xs ++ rest = ys ++ rest') :
    c = d ∧ rest = rest' := by
  cases hx with
  | short hc =>
    cases hy with
    | short hd =>
      obtain ⟨-, hletter, hrest⟩ : '\\' = '\\' ∧ _ = _ ∧ rest = rest' := by simpa using h
      exact ⟨letter_inj _ hc _ hd hletter, hrest⟩
    | numeric => exact absurd (List.cons.inj (List.cons.inj h).2).1 (letter_ne_u _ hc)
    | itself _ hslash => exact absurd (List.cons.inj h).1.symm hslash
  | numeric =>
    cases hy with
    | short hd => exact absurd (List.cons.inj (List.cons.inj h).2).1.symm (letter_ne_u _ hd)
    | numeric => exact numeric_inj h
    | itself _ hslash => exact absurd (List.cons.inj h).1.symm hslash
  | itself _ hslash =>
    cases hy with
    | short => exact absurd (List.cons.inj h).1 hslash
    | numeric => exact absurd (List.cons.inj h).1 hslash
    | itself => exact List.cons.inj h

/-- No character is written with a quote in front. -/
theorem ne_quote (hx : Escapes c xs) : xs ++ rest ≠ '"' :: rest' := by
  cases hx with
  | short => exact fun h => absurd (List.cons.inj h).1 (by decide)
  | numeric => exact fun h => absurd (List.cons.inj h).1 (by decide)
  | itself hquote => exact fun h => absurd (List.cons.inj h).1 hquote

end Escapes

/-! ## Strings -/

/-- **Escaped characters up to a quote are read off the front of any text.** -/
theorem escapeChars_append_inj {cs ds rest rest' : List Char}
    (h : escapeChars cs ++ '"' :: rest = escapeChars ds ++ '"' :: rest') :
    cs = ds ∧ rest = rest' := by
  induction cs generalizing ds with
  | nil =>
    cases ds with
    | nil => exact ⟨rfl, (List.cons.inj h).2⟩
    | cons d ds =>
      rw [escapeChars, escapeChars, List.flatMap_nil, List.flatMap_cons, List.append_assoc] at h
      exact absurd h.symm (escapes_escapeChar d).ne_quote
  | cons c cs ih =>
    rw [escapeChars, List.flatMap_cons, List.append_assoc] at h
    cases ds with
    | nil => exact absurd h (escapes_escapeChar c).ne_quote
    | cons d ds =>
      rw [escapeChars, List.flatMap_cons, List.append_assoc] at h
      obtain ⟨rfl, htail⟩ := (escapes_escapeChar c).unique (escapes_escapeChar d) h
      obtain ⟨rfl, hrest⟩ := ih htail
      exact ⟨rfl, hrest⟩

/-- **A string in quotes is read off the front of any text**, so that no string can imitate the
quote behind it and what follows. -/
theorem quote_append_inj {s t rest rest' : String} (h : quote s ++ rest = quote t ++ rest') :
    s = t ∧ rest = rest' := by
  have hchars := congrArg String.toList h
  simp only [quote, String.toList_append, String.toList_ofList, List.cons_append, List.append_assoc,
    List.nil_append, List.cons.injEq, true_and] at hchars
  obtain ⟨hs, hrest⟩ := escapeChars_append_inj hchars
  exact ⟨String.toList_inj.mp hs, String.toList_inj.mp hrest⟩

end ConfigVault.Text
