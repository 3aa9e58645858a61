import ConfigVault.Proofs.Yaml.Token.Plain

/-! # What the styles hold

The tests on which a style is chosen look at the characters alone; here is what they say about
reading.  Text that fits plain style has nothing in it that ends a plain scalar
(`isRun_of_fitsPlain`) and is taken for nothing else at its beginning (`startsPlain`'s conditions,
in `fitsPlain_cons`).
-/
namespace ConfigVault.Yaml.Style

open Plain

theorem ne_tab_of_printable {c : Char} (h : isPrintable c) : c ≠ '\t' := by
  rintro rfl; revert h; decide

theorem ne_return_of_printable {c : Char} (h : isPrintable c) : c ≠ '\r' := by
  rintro rfl; revert h; decide

/-- A printable blank is a space. -/
theorem isBlank_eq_isSpace {c : Char} (h : isPrintable c) : isBlank c = isSpace c := by
  simp [isBlank, isSpace, ne_tab_of_printable h]

theorem isPrintable_of_mem {cs : List Char} (h : isPlainText cs) {c : Char} (hc : c ∈ cs) :
    isPrintable c :=
  List.all_eq_true.mp h c hc

/-- Printable characters may stand in a document. -/
theorem isAllowed_of_printable {c : Char} (h : isPrintable c) : isAllowed c := by
  simp only [isPrintable, Bool.or_eq_true, Bool.and_eq_true, decide_eq_true_eq, beq_iff_eq] at h
  simp only [isAllowed, Bool.or_eq_true, Bool.and_eq_true, decide_eq_true_eq, beq_iff_eq]
  rcases h with (((h | h) | h) | h) | h
  · exact .inl <| .inl <| .inl <| .inl <| .inl <| .inl <| .inr h
  · exact .inl <| .inl <| .inl <| .inl <| .inr h
  · exact .inl <| .inl <| .inr h
  · exact .inl <| .inr h.1
  · exact .inr h

theorem atSpace_of_beforeSpace {cs : List Char} (h : beforeSpace cs = false) :
    atSpace cs = false := by
  cases cs with
  | nil => cases h
  | cons c cs =>
    simp only [beforeSpace, List.head?_cons, Option.all_some, separates, Bool.or_eq_false_iff] at h
    simp [atSpace, h.1.1, h.1.2]

/-- Behind its first character, text without inner indicators has nothing that ends a plain
scalar. -/
theorem isRun_of_hasInnerIndicator {p : Char} {cs : List Char}
    (h : hasInnerIndicator (p :: cs) = false) (hbreak : ∀ c ∈ cs, isBreak c = false) :
    isRun false (isBlank p) cs := by
  induction cs generalizing p with
  | nil => rfl
  | cons c cs ih =>
    simp only [hasInnerIndicator, Bool.or_eq_false_iff, Bool.and_eq_false_iff] at h
    obtain ⟨⟨hcolon, hhash⟩, htail⟩ := h
    have hc : (c == ':' && atSpace cs) = false := by
      rcases hcolon with h | h
      · simp [h]
      · simp [atSpace_of_beforeSpace h]
    have hp : (isBlank p && c == '#') = false := by
      rcases hhash with h | h
      · simp [h]
      · simp only [separates, Bool.or_eq_false_iff] at h
        simp [h.1.1]
    simp only [isRun, hbreak c (by simp), Bool.false_or, hc, Bool.false_and, hp,
      ih htail fun d hd => hbreak d (by simp [hd])]
    rfl

/-- What plain style asks of a text. -/
theorem fitsPlain_iff {cs : List Char} :
    fitsPlain cs ↔ isPlainText cs ∧ (∀ c ∈ cs, isBreak c = false) ∧
      (∀ c ∈ cs.head?, isSpace c = false) ∧ (∀ c ∈ cs.getLast?, isSpace c = false) ∧
        hasIndicator cs = false := by
  have hany (o : Option Char) : o.any isSpace = false ↔ ∀ c ∈ o, isSpace c = false := by
    cases o <;> simp
  simp only [fitsPlain, Bool.and_eq_true, Bool.not_eq_true', hany, List.any_eq_false,
    Bool.not_eq_true, and_assoc]

theorem last_of_fitsPlain {cs : List Char} (h : fitsPlain cs) :
    ∀ c ∈ cs.getLast?, isBlank c = false := by
  obtain ⟨hp, -, -, hl, -⟩ := fitsPlain_iff.mp h
  intro c hc
  rw [isBlank_eq_isSpace (isPrintable_of_mem hp (List.mem_of_getLast? hc))]
  exact hl c hc

/-- The first character of a text that fits plain style, and what it can be. -/
theorem fitsPlain_cons {c : Char} {cs : List Char} (h : fitsPlain (c :: cs)) :
    isBlank c = false ∧ isBreak c = false ∧ isOpening c = false ∧
      (c = '?' ∨ c = ':' ∨ c = '-' → beforeSpace cs = false) ∧
        hasInnerIndicator (c :: cs) = false := by
  obtain ⟨hp, hb, hh, -, hi⟩ := fitsPlain_iff.mp h
  simp only [hasIndicator, Bool.or_eq_false_iff, Bool.and_eq_false_iff] at hi
  refine ⟨?_, hb c (by simp), hi.2.1, fun hc => ?_, hi.1.2⟩
  · rw [isBlank_eq_isSpace (isPrintable_of_mem hp (List.mem_cons_self ..))]
    exact hh c rfl
  · refine hi.2.2.resolve_left fun hn => ?_
    rcases hc with rfl | rfl | rfl <;> simp at hn

/-- **Text that fits plain style has nothing in it that ends a plain scalar.** -/
theorem isRun_of_fitsPlain {cs : List Char} (h : fitsPlain cs) : isRun false false cs := by
  cases cs with
  | nil => rfl
  | cons c cs =>
    obtain ⟨hblank, hbreak, -, hfirst, hinner⟩ := fitsPlain_cons h
    have hb := (fitsPlain_iff.mp h).2.1
    have hc : (c == ':' && atSpace cs) = false := by
      by_cases hc : c = ':'
      · simp [atSpace_of_beforeSpace (hfirst (.inr (.inl hc)))]
      · simp [hc]
    have ht := isRun_of_hasInnerIndicator hinner fun d hd => hb d (by simp [hd])
    simp only [isRun, hbreak, Bool.false_or, hc, Bool.false_and, ht]
    rfl

/-! ## Words -/

/-- The characters of numbers and names. -/
def isWordChar (c : Char) : Bool := c.isAlphanum || c == '.' || c == '-' || c == '+'

/-- A number or a name: it begins with a letter or a digit, behind a minus sign perhaps. -/
def isWord (cs : List Char) : Bool :=
  cs.all isWordChar &&
    match cs with
    | '-' :: c :: _ => c.isAlphanum
    | c :: _ => c.isAlphanum
    | [] => false

theorem isWordChar_of_mem {cs : List Char} (h : isWord cs) : ∀ c ∈ cs, isWordChar c :=
  List.all_eq_true.mp (Bool.and_eq_true_iff.mp h).1

theorem toNat_of_alphanum {c : Char} (h : c.isAlphanum) :
    (48 ≤ c.toNat ∧ c.toNat ≤ 57) ∨ (65 ≤ c.toNat ∧ c.toNat ≤ 90) ∨
      (97 ≤ c.toNat ∧ c.toNat ≤ 122) := by
  unfold Char.isAlphanum Char.isAlpha Char.isUpper Char.isLower Char.isDigit at h
  simp only [Bool.or_eq_true, Bool.and_eq_true, decide_eq_true_eq, ge_iff_le,
    UInt32.le_iff_toNat_le] at h
  change (65 ≤ c.toNat ∧ c.toNat ≤ 90 ∨ 97 ≤ c.toNat ∧ c.toNat ≤ 122) ∨
    48 ≤ c.toNat ∧ c.toNat ≤ 57 at h
  omega

theorem toNat_of_wordChar {c : Char} (h : isWordChar c) :
    c.toNat = 43 ∨ c.toNat = 45 ∨ c.toNat = 46 ∨ (48 ≤ c.toNat ∧ c.toNat ≤ 57) ∨
      (65 ≤ c.toNat ∧ c.toNat ≤ 90) ∨ (97 ≤ c.toNat ∧ c.toNat ≤ 122) := by
  simp only [isWordChar, Bool.or_eq_true, beq_iff_eq] at h
  rcases h with ((h | rfl) | rfl) | rfl
  · have := toNat_of_alphanum h
    omega
  · exact .inr (.inr (.inl rfl))
  · exact .inr (.inl rfl)
  · exact .inl rfl

theorem ne_of_toNat_ne {c d : Char} (h : c.toNat ≠ d.toNat) : c ≠ d := by
  rintro rfl; exact h rfl

/-- Characters of words are printable, and none of them is part of structure. -/
theorem wordChar_facts {c : Char} (h : isWordChar c) :
    isPrintable c ∧ isBlank c = false ∧ isBreak c = false ∧ isOpening c = false ∧ c ≠ ':' ∧
      c ≠ '#' ∧ c ≠ '?' ∧ c ≠ '\x00' ∧ c ≠ '"' ∧ c ≠ '\\' := by
  have hn := toNat_of_wordChar h
  have hne (d : Char) (hd : d.toNat ≠ 43 ∧ d.toNat ≠ 45 ∧ d.toNat ≠ 46 ∧
      ¬ (48 ≤ d.toNat ∧ d.toNat ≤ 57) ∧ ¬ (65 ≤ d.toNat ∧ d.toNat ≤ 90) ∧
      ¬ (97 ≤ d.toNat ∧ d.toNat ≤ 122)) : c ≠ d := by
    refine ne_of_toNat_ne fun he => ?_
    rw [he] at hn
    omega
  refine ⟨?_, ?_, ?_, ?_, hne _ (by decide), hne _ (by decide), hne _ (by decide),
    hne _ (by decide), hne _ (by decide), hne _ (by decide)⟩
  · simp only [isPrintable, Bool.or_eq_true, Bool.and_eq_true, decide_eq_true_eq]
    exact .inl (.inl (.inl (.inr (by omega))))
  · simp [isBlank, hne ' ' (by decide), hne '\t' (by decide)]
  · simp [isBreak, hne '\n' (by decide), hne '\r' (by decide), hne '\x85' (by decide),
      hne '\u2028' (by decide), hne '\u2029' (by decide)]
  · simp [isOpening, hne '#' (by decide), hne ',' (by decide), hne '[' (by decide),
      hne ']' (by decide), hne '\x7b' (by decide), hne '\x7d' (by decide), hne '&' (by decide),
      hne '*' (by decide), hne '!' (by decide), hne '|' (by decide), hne '>' (by decide),
      hne '\'' (by decide), hne '"' (by decide), hne '%' (by decide), hne '@' (by decide),
      hne '\x60' (by decide)]

theorem hasInnerIndicator_of_word {cs : List Char} (h : ∀ c ∈ cs, isWordChar c) :
    hasInnerIndicator cs = false := by
  induction cs with
  | nil => rfl
  | cons c cs ih =>
    cases cs with
    | nil => rfl
    | cons d cs =>
      obtain ⟨-, -, -, -, hcolon, hhash, -⟩ := wordChar_facts (h d (by simp))
      rw [hasInnerIndicator, ih fun e he => h e (by simp [he])]
      simp [hcolon, hhash]

theorem separates_of_word {c : Char} (h : isWordChar c) : separates c = false := by
  obtain ⟨-, hblank, hbreak, -, -, -, -, hnul, -⟩ := wordChar_facts h
  simp [separates, hblank, hbreak, hnul]

/-- Nothing in a word ends a plain scalar, not even inside of brackets. -/
theorem isRun_of_word {cs : List Char} (h : ∀ c ∈ cs, isWordChar c) (flow afterBlank : Bool) :
    isRun flow afterBlank cs := by
  induction cs generalizing afterBlank with
  | nil => rfl
  | cons c cs ih =>
    obtain ⟨-, -, hbreak, hopen, hcolon, hhash, -⟩ := wordChar_facts (h c (by simp))
    have hflow : Plain.isFlowIndicator c = false := by
      simp only [isOpening, List.contains_eq_mem, decide_eq_false_iff_not, String.toList] at hopen
      simp only [Plain.isFlowIndicator, Bool.or_eq_false_iff, beq_eq_false_iff_ne]
      refine ⟨⟨⟨⟨?_, ?_⟩, ?_⟩, ?_⟩, ?_⟩ <;> rintro rfl <;> exact hopen (by decide)
    rw [isRun, ih fun d hd => h d (by simp [hd])]
    simp [hbreak, hcolon, hflow, hhash]

/-- **How a word begins**: with a letter or a digit, or with a minus sign in front of one. -/
theorem isWord_cases {cs : List Char} (h : isWord cs) :
    (∃ c ds, cs = c :: ds ∧ c.isAlphanum) ∨ ∃ d ds, cs = '-' :: d :: ds ∧ d.isAlphanum := by
  obtain ⟨-, hhead⟩ := Bool.and_eq_true_iff.mp h
  split at hhead
  · exact .inr ⟨_, _, rfl, hhead⟩
  · exact .inl ⟨_, _, rfl, hhead⟩
  · cases hhead

/-- No word begins like the end or the beginning of a document. -/
theorem not_marks_of_isWord {cs : List Char} (h : isWord cs) :
    ['-', '-', '-'].isPrefixOf cs = false ∧ ['.', '.', '.'].isPrefixOf cs = false := by
  have hne {c d : Char} (hc : c.isAlphanum) (hd : d.isAlphanum = false) : d ≠ c := by
    rintro rfl
    rw [hd] at hc
    cases hc
  rcases isWord_cases h with ⟨c, ds, rfl, hc⟩ | ⟨d, ds, rfl, hd⟩
  · simp [List.isPrefixOf, hne hc (d := '-') rfl, hne hc (d := '.') rfl]
  · simp [List.isPrefixOf, hne hd (d := '-') rfl]

theorem hasIndicator_of_isWord {cs : List Char} (h : isWord cs) : hasIndicator cs = false := by
  have hw := isWordChar_of_mem h
  obtain ⟨hdashes, hpoints⟩ := not_marks_of_isWord h
  unfold hasIndicator
  rw [hdashes, hpoints, hasInnerIndicator_of_word hw]
  rcases isWord_cases h with ⟨c, ds, rfl, hc⟩ | ⟨d, ds, rfl, hd⟩
  · obtain ⟨-, -, -, hopen, hcolon, -, hquestion, -⟩ := wordChar_facts (hw c (by simp))
    have hdash : c ≠ '-' := by rintro rfl; cases hc
    simp [hopen, hcolon, hquestion, hdash]
  · obtain ⟨-, -, -, hopen, -⟩ := wordChar_facts (hw '-' (by simp))
    have hbefore : beforeSpace (d :: ds) = false := by
      simp [beforeSpace, separates_of_word (hw d (by simp))]
    simp [hopen, hbefore]

/-- **Words fit plain style.** -/
theorem fitsPlain_of_isWord {cs : List Char} (h : isWord cs) : fitsPlain cs := by
  have hw := isWordChar_of_mem h
  have hspace (c : Char) (hc : c ∈ cs) : isSpace c = false := by
    obtain ⟨hprintable, hblank, -⟩ := wordChar_facts (hw c hc)
    rw [← isBlank_eq_isSpace hprintable, hblank]
  exact fitsPlain_iff.mpr ⟨List.all_eq_true.mpr fun c hc => (wordChar_facts (hw c hc)).1,
    fun c hc => (wordChar_facts (hw c hc)).2.2.1, fun c hc => hspace c (List.mem_of_mem_head? hc),
    fun c hc => hspace c (List.mem_of_getLast? hc), hasIndicator_of_isWord h⟩

/-! ## The choice of a style -/

/-- **What the choice of a style tells about the text.** -/
theorem styleOf_cases (s : String) :
    (styleOf s = .plain ∧ needsQuotes s = false ∧ fitsPlain s.toList) ∨
      (styleOf s = .singleQuoted ∧ fitsSingle s.toList ∧ '\n' ∉ s.toList) ∨
        (styleOf s = .doubleQuoted) ∨
          (styleOf s = .literal ∧ fitsLiteral s.toList ∧ '\n' ∈ s.toList) := by
  unfold styleOf
  extract_lets cs
  split
  case isTrue hn =>
    have hmem : '\n' ∈ s.toList := by simpa [cs] using hn
    split
    case isTrue hf => exact .inr (.inr (.inr ⟨rfl, hf, hmem⟩))
    case isFalse hf => exact .inr (.inr (.inl rfl))
  case isFalse hn =>
    have hmem : '\n' ∉ s.toList := by simpa [cs] using hn
    split
    case isTrue hp =>
      simp only [Bool.and_eq_true, Bool.not_eq_true'] at hp
      exact .inl ⟨rfl, hp⟩
    case isFalse hp =>
      split
      case isTrue hf => exact .inr (.inl ⟨rfl, hf, hmem⟩)
      case isFalse hf => exact .inr (.inr (.inl rfl))

end ConfigVault.Yaml.Style
