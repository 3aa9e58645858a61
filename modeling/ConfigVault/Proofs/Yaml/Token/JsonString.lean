import ConfigVault.Json.Printer
import ConfigVault.Proofs.Yaml.Token.Quoted

/-! # JSON strings between the quotes of YAML

JSON escapes quotes, backslashes and what is below a space, and leaves everything else as it is.
Between double quotes YAML reads the escapes as JSON means them (`escaped_cases`), but it folds lines,
and three characters that JSON leaves alone break lines (`isRawBreak`).  So a JSON string is read as
`folded` says, unless a document indicator begins one of its lines and cuts it off (`isCut`):
`scan_jsonString`.
-/
namespace ConfigVault.Yaml.Quoted

open Json (escaped hexDigit)

variable {began m : Mark} {gap : Option Gap} {seen rest cs : List Char} {c : Char}

/-- The line breaks that JSON leaves as they are. -/
def isRawBreak (c : Char) : Bool := c == '\x85' || c == '\u2028' || c == '\u2029'

/-! ## Characters -/

theorem hexValue?_jsonDigit : ∀ d, d < 16 → hexValue? (hexDigit d) = some d := by decide

theorem isBreak_jsonDigit : ∀ d, d < 16 → isBreak (hexDigit d) = false := by decide

/-- The number of a control character in four digits. -/
theorem IsEscape.control (h : c.toNat < 32) :
    IsEscape ['u', '0', '0', hexDigit (c.toNat / 16), hexDigit (c.toNat % 16)] c := by
  have hhigh := hexValue?_jsonDigit (c.toNat / 16) (by omega)
  have hlow := hexValue?_jsonDigit (c.toNat % 16) (by omega)
  refine .numeric rfl rfl (fun d hd => ?_) fun rest => ?_
  · simp only [List.mem_cons, List.not_mem_nil, or_false] at hd
    rcases hd with rfl | rfl | rfl | rfl | rfl
    · rfl
    · rfl
    · rfl
    · exact isBreak_jsonDigit _ (by omega)
    · exact isBreak_jsonDigit _ (by omega)
  · have hzero : hexValue? '0' = some 0 := rfl
    simp only [List.length_cons, List.length_nil, List.cons_append, List.nil_append, hexNumber?,
      hzero, hhigh, hlow, Option.some.injEq]
    omega

/-- **How JSON writes a character**: as an escape that YAML knows, or as it is.  Of blanks only the
space is left as it is, and of line breaks the raw ones. -/
theorem escaped_cases (c : Char) :
    (∃ xs, escaped c = '\\' :: xs ∧ IsEscape xs c ∧ c ≠ ' ' ∧ isRawBreak c = false) ∨
      (escaped c = [c] ∧ c ≠ '"' ∧ c ≠ '\\' ∧ isBlank c = (c == ' ') ∧
        isBreak c = isRawBreak c) := by
  unfold escaped
  split
  case h_8 hquote hslash _ _ hfeed hreturn htab =>
    split
    case isTrue h =>
      refine .inl ⟨_, rfl, .control h, ?_, ?_⟩
      · rintro rfl; exact absurd h (by decide)
      · simp only [isRawBreak, Bool.or_eq_false_iff, beq_eq_false_iff_ne]
        refine ⟨⟨?_, ?_⟩, ?_⟩ <;> rintro rfl <;> exact absurd h (by decide)
    case isFalse h =>
      have hnoTab : (c == '\t') = false := beq_false_of_ne htab
      have hnoFeed : (c == '\n') = false := beq_false_of_ne hfeed
      have hnoReturn : (c == '\r') = false := beq_false_of_ne hreturn
      refine .inr ⟨rfl, hquote, hslash, ?_, ?_⟩
      · rw [isBlank, hnoTab, Bool.or_false]
      · rw [isBreak, isRawBreak, hnoFeed, hnoReturn, Bool.false_or, Bool.false_or]
  all_goals exact .inl ⟨_, rfl, .named rfl rfl, by decide, rfl⟩

/-! ## Folding -/

/-- What a gap reads as, if there is one. -/
def passed (gap : Option Gap) : List Char := gap.elim [] Gap.text

theorem reverse_before (gap : Option Gap) (seen : List Char) :
    (Gap.before gap seen).reverse = seen.reverse ++ passed gap := by
  cases gap <;> simp [Gap.before, passed]

/-- What is read of a JSON string behind a gap. -/
def folded : (gap : Option Gap) → List Char → List Char
  | gap, [] => passed gap
  | gap, c :: cs =>
    if c = ' ' then folded (some ((gap.getD (.blanks [])).addBlank c)) cs
    else if isRawBreak c then folded (some ((gap.getD (.blanks [])).addBreak c)) cs
    else passed gap ++ c :: folded none cs

theorem folded_char (hspace : c ≠ ' ') (hraw : isRawBreak c = false) (gap : Option Gap)
    (cs : List Char) : folded gap (c :: cs) = passed gap ++ c :: folded none cs := by
  rw [folded, if_neg hspace, if_neg (by simp [hraw])]

theorem folded_break (hraw : isRawBreak c) (gap : Option Gap) (cs : List Char) :
    folded gap (c :: cs) = folded (some ((gap.getD (.blanks [])).addBreak c)) cs := by
  rw [folded, if_neg (by rintro rfl; cases hraw), if_pos hraw]

/-- The text begins like the end or the beginning of a document. -/
def opensDocument : List Char → Bool
  | '-' :: '-' :: '-' :: c :: _ => c == ' ' || isRawBreak c
  | '.' :: '.' :: '.' :: c :: _ => c == ' ' || isRawBreak c
  | _ => false

/-- Some line of the text begins like the end or the beginning of a document.  `fresh` says that the
text begins a line. -/
def isCut : (fresh : Bool) → List Char → Bool
  | _, [] => false
  | fresh, c :: cs => (fresh && opensDocument (c :: cs)) || isCut (isRawBreak c) cs

/-- What JSON writes begins with a character of three that it leaves as they are only if the string
does. -/
theorem written_eq_cons {x : Char} {r : List Char} (hx : x ≠ '"') (hx' : x ≠ '\\')
    (h : cs.flatMap escaped ++ '"' :: rest = x :: r) :
    ∃ cs', cs = x :: cs' ∧ cs'.flatMap escaped ++ '"' :: rest = r := by
  cases cs with
  | nil => cases h; exact absurd rfl hx
  | cons c cs =>
    rw [List.flatMap_cons, List.append_assoc] at h
    rcases escaped_cases c with ⟨xs, he, -⟩ | ⟨he, -⟩
    · rw [he] at h; cases h; exact absurd rfl hx'
    · rw [he] at h; cases h; exact ⟨cs, rfl, rfl⟩

theorem atSpace_written (cs rest : List Char) :
    atSpace (cs.flatMap escaped ++ '"' :: rest) = cs.head?.any fun c => c == ' ' || isRawBreak c := by
  cases cs with
  | nil => rfl
  | cons c cs =>
    rw [List.flatMap_cons, List.append_assoc]
    rcases escaped_cases c with ⟨xs, he, -, hspace, hraw⟩ | ⟨he, -, -, hblank, hbreak⟩
    · have hhead : (isBlank '\\' || isBreak '\\') = false := rfl
      rw [he, List.cons_append, atSpace, hhead]
      simp [hspace, hraw]
    · rw [he, List.singleton_append, atSpace, hblank, hbreak]
      rfl

theorem opensDocument_eq (x : Char) (hx : x = '-' ∨ x = '.') (cs : List Char) :
    opensDocument (x :: x :: x :: cs) = cs.head?.any fun c => c == ' ' || isRawBreak c := by
  rcases hx with rfl | rfl <;> cases cs <;> rfl

/-- **A document indicator in a written string** is one in the string. -/
theorem atDocumentIndicator_written (cs rest : List Char) :
    Cursor.atDocumentIndicator 0 (cs.flatMap escaped ++ '"' :: rest) = opensDocument cs := by
  have hthree (x : Char) (hx : x = '-' ∨ x = '.') {r : List Char}
      (h : cs.flatMap escaped ++ '"' :: rest = x :: x :: x :: r) : atSpace r = opensDocument cs := by
    have hquote : x ≠ '"' := by rcases hx with rfl | rfl <;> decide
    have hslash : x ≠ '\\' := by rcases hx with rfl | rfl <;> decide
    obtain ⟨cs₁, rfl, h₁⟩ := written_eq_cons hquote hslash h
    obtain ⟨cs₂, rfl, h₂⟩ := written_eq_cons hquote hslash h₁
    obtain ⟨cs₃, rfl, rfl⟩ := written_eq_cons hquote hslash h₂
    rw [atSpace_written, opensDocument_eq x hx]
  unfold Cursor.atDocumentIndicator
  rw [show ((0 : Nat) == 0) = true from rfl, Bool.true_and]
  split
  case h_1 r h => exact hthree '-' (.inl rfl) h
  case h_2 r h => exact hthree '.' (.inr rfl) h
  case h_3 hdash hpoint =>
    -- What opens a document is left as it is.
    unfold opensDocument
    split
    · exact absurd rfl (hdash _)
    · exact absurd rfl (hpoint _)
    · rfl

/-! ## Scanning -/

/-- Text goes on behind a gap, unless it is cut off there. -/
theorem resume_written {fresh : Bool} (hfresh : fresh → m.column = 0 ∧ gap.isSome)
    (hm : fresh = false → 0 < m.column) (cs rest : List Char) :
    if fresh && opensDocument cs then
      ∃ e, resume began none m (cs.flatMap escaped ++ '"' :: rest) gap = .error e
    else resume began none m (cs.flatMap escaped ++ '"' :: rest) gap = .ok () := by
  cases fresh with
  | false => exact resume_of_column (hm rfl)
  | true =>
    obtain ⟨hcol, hgap⟩ := hfresh rfl
    obtain ⟨g, rfl⟩ := Option.isSome_iff_exists.mp hgap
    rw [Bool.true_and, resume, lookAhead_none, hcol, atDocumentIndicator_written]
    cases opensDocument cs with
    | false => rfl
    | true => exact ⟨_, rfl⟩

theorem scan_error {e : SyntaxError} (hblank : isBlank c = false) (hbreak : isBreak c = false)
    (hr : resume began none m (c :: rest) gap = .error e) :
    scan false began none (c :: rest) 0 m gap seen = .error e := by
  rw [scan, if_neg (by simp [hblank]), if_neg (by simp [isReturnOfPair_of_not_break hbreak]),
    if_neg (by simp [hbreak]), hr]
  rfl

theorem ne_return_of_isRawBreak (h : isRawBreak c) : c ≠ '\r' := by
  rintro rfl; cases h

theorem opensDocument_of_isRawBreak (h : isRawBreak c) (cs : List Char) :
    opensDocument (c :: cs) = false := by
  simp only [isRawBreak, Bool.or_eq_true, beq_iff_eq] at h
  rcases h with (rfl | rfl) | rfl <;> rfl

/-- Reading `w` and the closing quote behind it either fails or gives a text; the place behind is as
many octets further on as were read, and so many lines. -/
def ScansTo (began m : Mark) (gap : Option Gap) (seen : List Char) (cut : Bool) (w rest : List Char)
    (lines : Nat) (text : List Char) : Prop :=
  if cut then ∃ e, scan false began none (w ++ '"' :: rest) 0 m gap seen = .error e
  else ∃ m', m'.index = m.index + octets w + 1 ∧ m'.line = m.line + lines ∧
    scan false began none (w ++ '"' :: rest) 0 m gap seen =
      .ok (String.ofList text, ⟨m', rest, none⟩)

theorem ScansTo.step {m₁ : Mark} {gap₁ : Option Gap} {seen₁ w text xs : List Char} {cut : Bool}
    {lines k : Nat} (h : ScansTo began m₁ gap₁ seen₁ cut w rest lines text)
    (hscan : scan false began none (xs ++ (w ++ '"' :: rest)) 0 m gap seen =
      scan false began none (w ++ '"' :: rest) 0 m₁ gap₁ seen₁)
    (hindex : m₁.index = m.index + octets xs) (hline : m₁.line = m.line + k) :
    ScansTo began m gap seen cut (xs ++ w) rest (lines + k) text := by
  unfold ScansTo at h ⊢
  rw [List.append_assoc, hscan]
  split
  case isTrue hcut => rwa [if_pos hcut] at h
  case isFalse hcut =>
    rw [if_neg hcut] at h
    obtain ⟨m', hindex', hline', hscan'⟩ := h
    exact ⟨m', by rw [octets_append]; omega, by omega, hscan'⟩

theorem ScansTo.cutOff {w text xs : List Char} {cut : Bool} {lines : Nat}
    (h : ∃ e, scan false began none (xs ++ (w ++ '"' :: rest)) 0 m gap seen = .error e) :
    ScansTo began m gap seen (true || cut) (xs ++ w) rest lines text := by
  rw [← List.append_assoc] at h
  exact h

/-- A character of the text, unless the string is cut off in front of it. -/
theorem ScansTo.char {seen₁ w text xs : List Char} {cut opens : Bool} {lines : Nat}
    (hblank : isBlank c = false) (hbreak : isBreak c = false)
    (hresume : if opens then
        ∃ e, resume began none m (c :: xs ++ (w ++ '"' :: rest)) gap = .error e
      else resume began none m (c :: xs ++ (w ++ '"' :: rest)) gap = .ok ())
    (hscan : resume began none m (c :: xs ++ (w ++ '"' :: rest)) gap = .ok () →
      scan false began none (c :: xs ++ (w ++ '"' :: rest)) 0 m gap seen =
        scan false began none (w ++ '"' :: rest) 0 (m.behind (c :: xs)) none seen₁)
    (h : ScansTo began (m.behind (c :: xs)) none seen₁ cut w rest lines text) :
    ScansTo began m gap seen (opens || cut) (c :: xs ++ w) rest lines text := by
  cases opens with
  | true =>
    obtain ⟨e, hresume⟩ := hresume
    exact .cutOff ⟨e, scan_error hblank hbreak hresume⟩
  | false => exact h.step (k := 0) (hscan hresume) rfl rfl

/-- **A JSON string is read as it folds**, unless it is cut off. -/
theorem scan_jsonString {fresh : Bool} (hfresh : fresh → m.column = 0 ∧ gap.isSome)
    (hm : fresh = false → 0 < m.column) :
    ScansTo began m gap seen (isCut fresh cs) (cs.flatMap escaped) rest (cs.countP isRawBreak)
      (seen.reverse ++ folded gap cs) := by
  induction cs generalizing m gap seen fresh with
  | nil =>
    have hresume := @resume_written began m gap fresh hfresh hm [] rest
    rw [show opensDocument [] = false from rfl, Bool.and_false, if_neg (by simp)] at hresume
    refine ⟨m.behind ['"'], rfl, rfl, ?_⟩
    rw [List.flatMap_nil, List.nil_append, scan_closeDouble hresume, reverse_before]
    rfl
  | cons c cs ih =>
    have hresume := @resume_written began m gap fresh hfresh hm (c :: cs) rest
    have htext : seen.reverse ++ (passed gap ++ c :: folded none cs) =
        (c :: Gap.before gap seen).reverse ++ folded none cs := by
      rw [List.reverse_cons, reverse_before]; simp
    rw [List.flatMap_cons, List.append_assoc] at hresume
    rw [isCut, List.flatMap_cons, List.countP_cons]
    rcases escaped_cases c with ⟨xs, he, hx, hspace, hraw⟩ | ⟨he, hquote, hslash, hblank, hbreak⟩
    · -- An escape is a character of the text.
      rw [he] at hresume ⊢
      rw [folded_char hspace hraw, hraw, htext]
      refine .char rfl rfl hresume (scan_escape hx) (ih (by simp) fun _ => ?_)
      rw [Mark.behind_column, List.length_cons]
      omega
    · rw [he] at hresume ⊢
      cases hraw : isRawBreak c with
      | true =>
        -- A raw break goes into the gap, and what follows it may look like a document marker.
        rw [hraw] at hbreak
        rw [opensDocument_of_isRawBreak hraw, Bool.and_false, Bool.false_or, folded_break hraw]
        exact (ih (m := m.newLine c) (by simp) (by simp)).step
          (scan_break hbreak (ne_return_of_isRawBreak hraw)) rfl rfl
      | false =>
        rw [hraw] at hbreak
        by_cases hspace : c = ' '
        · -- Spaces go into the gap as well.
          subst hspace
          rw [show opensDocument (' ' :: cs) = false from rfl, Bool.and_false, Bool.false_or]
          exact (ih (m := m.behind [' ']) (by simp) (by simp)).step (scan_blank rfl) rfl rfl
        · rw [beq_false_of_ne hspace] at hblank
          rw [folded_char hspace hraw, htext]
          exact .char hblank hbreak hresume (scan_char hblank hbreak ⟨hquote, hslash⟩)
            (ih (by simp) (by simp))

/-- A JSON string as YAML reads it. -/
def asRead (s : String) : String := String.ofList (folded (some (.blanks [])) s.toList)

/-- The string behind an opening quote. -/
theorem read_jsonString (s : String) (m : Mark) (rest : List Char) :
    ScansTo m (m.right 1) (some (.blanks [])) [] (isCut false s.toList) (s.toList.flatMap escaped) rest
      (s.toList.countP isRawBreak) (asRead s).toList := by
  rw [asRead, String.toList_ofList]
  exact @scan_jsonString m (m.right 1) _ _ rest s.toList false (by simp) (by simp)

/-! ## What folding keeps -/

/-- Lines are folded to what they were: none ends with the character for a next line, and no space
stands at either end of one. -/
def keepsLines (cs : List Char) : Bool :=
  !cs.contains '\x85' && !Style.hasAdjacent Style.isSpace isRawBreak cs &&
    !Style.hasAdjacent isRawBreak Style.isSpace cs

/-- How long a gap is when it is read. -/
def width (gap : Option Gap) : Nat := (passed gap).length

theorem width_addBlank (gap : Option Gap) (c : Char) :
    width (some ((gap.getD (.blanks [])).addBlank c)) ≤ width gap + 1 := by
  rcases gap with _ | ⟨bs⟩ | ⟨first, more⟩
  · simp [width, passed, Gap.addBlank, Gap.text]
  · simp [width, passed, Gap.addBlank, Gap.text]
  · exact Nat.le_succ _

theorem width_addBreak (gap : Option Gap) (c : Char) :
    width (some ((gap.getD (.blanks [])).addBreak c)) ≤ width gap + 1 := by
  have hone (b : Char) : (Gap.text (.lines (some b) [])).length = 1 := by
    by_cases hb : b = '\n'
    · subst hb; rfl
    · rw [text_lines hb]; rfl
  rcases gap with _ | ⟨bs⟩ | ⟨first, more⟩
  · exact Nat.le_of_eq (hone _)
  · exact Nat.le_trans (Nat.le_of_eq (hone _)) (Nat.le_add_left ..)
  · show (Gap.text (.lines first (breakText c :: more))).length ≤
      (Gap.text (.lines first more)).length + 1
    rcases first with _ | b
    · simp [Gap.text]
    · by_cases hb : b = '\n'
      · subst hb
        cases more <;> simp [Gap.text]
      · simp [text_lines hb]

/-- A character adds at most one to what is read. -/
theorem length_folded_cons (gap : Option Gap) (c : Char) (cs : List Char) :
    ∃ gap' k, (folded gap (c :: cs)).length = (folded gap' cs).length + k ∧
      width gap' + k ≤ width gap + 1 := by
  by_cases hspace : c = ' '
  · subst hspace
    exact ⟨_, 0, rfl, width_addBlank gap ' '⟩
  · cases hraw : isRawBreak c with
    | true => exact ⟨_, 0, congrArg _ (folded_break hraw gap cs), width_addBreak gap c⟩
    | false =>
      refine ⟨none, width gap + 1, ?_, Nat.le_of_eq (Nat.zero_add _)⟩
      rw [folded_char hspace hraw, List.length_append, List.length_cons, width]
      omega

theorem length_folded_le (gap : Option Gap) (cs : List Char) :
    (folded gap cs).length ≤ width gap + cs.length := by
  induction cs generalizing gap with
  | nil => exact Nat.le_refl _
  | cons c cs ih =>
    obtain ⟨gap', k, hlength, hwidth⟩ := length_folded_cons gap c cs
    have := ih gap'
    rw [List.length_cons]
    omega

theorem addBreak_addBlank (g : Gap) (c d : Char) : (g.addBlank c).addBreak d = g.addBreak d := by
  cases g <;> rfl

theorem addBlank_addBreak (g : Gap) (c d : Char) : (g.addBreak d).addBlank c = g.addBreak d := by
  cases g <;> rfl

/-- **A space next to a raw break is lost.** -/
theorem length_folded_lt {cs : List Char}
    (h : Style.hasAdjacent Style.isSpace isRawBreak cs ∨
      Style.hasAdjacent isRawBreak Style.isSpace cs) (gap : Option Gap) :
    (folded gap cs).length < width gap + cs.length := by
  induction cs generalizing gap with
  | nil => rcases h with h | h <;> cases h
  | cons c cs ih =>
    cases cs with
    | nil => rcases h with h | h <;> cases h
    | cons d cs =>
      simp only [Style.hasAdjacent, Style.isSpace, Bool.or_eq_true, Bool.and_eq_true,
        beq_iff_eq] at h
      -- Both characters together add only one.
      have hpair {g : Gap} (he : folded gap (c :: d :: cs) = folded (some g) cs)
          (hg : width (some g) ≤ width gap + 1) :
          (folded gap (c :: d :: cs)).length < width gap + (c :: d :: cs).length := by
        have := length_folded_le (some g) cs
        rw [he, List.length_cons, List.length_cons]
        omega
      have htail (h : Style.hasAdjacent Style.isSpace isRawBreak (d :: cs) ∨
          Style.hasAdjacent isRawBreak Style.isSpace (d :: cs)) :
          (folded gap (c :: d :: cs)).length < width gap + (c :: d :: cs).length := by
        obtain ⟨gap', k, hlength, hwidth⟩ := length_folded_cons gap c (d :: cs)
        have := ih h gap'
        rw [List.length_cons]
        omega
      rcases h with (⟨rfl, hd⟩ | h) | ⟨hc, rfl⟩ | h
      · refine hpair ?_ (width_addBreak gap d)
        rw [folded, if_pos rfl, folded_break hd, Option.getD_some, addBreak_addBlank]
      · exact htail (.inl h)
      · refine hpair ?_ (width_addBreak gap c)
        rw [folded_break hc, folded, if_pos rfl, Option.getD_some, addBlank_addBreak]
      · exact htail (.inr h)

theorem breakText_ne_nextLine (c : Char) : breakText c ≠ '\x85' := by
  unfold breakText
  split
  case isTrue h => rintro rfl; cases h
  case isFalse => decide

/-- A break between lines is never the character for a next line. -/
theorem nextLine_not_mem_addBreak {gap : Option Gap} (h : '\x85' ∉ passed gap) (c : Char) :
    '\x85' ∉ passed (some ((gap.getD (.blanks [])).addBreak c)) := by
  have hbreak := breakText_ne_nextLine c
  have hone (b : Char) (hb : b ≠ '\x85') : '\x85' ∉ Gap.text (.lines (some b) []) := by
    by_cases hfeed : b = '\n'
    · subst hfeed; decide
    · rw [text_lines hfeed]
      simpa using hb.symm
  rcases gap with _ | ⟨bs⟩ | ⟨first, more⟩
  · exact hone _ hbreak
  · exact hone _ hbreak
  · show '\x85' ∉ Gap.text (.lines first (breakText c :: more))
    change '\x85' ∉ Gap.text (.lines first more) at h
    rcases first with _ | b
    · simpa [Gap.text, hbreak.symm] using h
    · by_cases hfeed : b = '\n'
      · subst hfeed
        cases more with
        | nil => simpa [Gap.text] using hbreak.symm
        | cons d more => simpa [Gap.text, hbreak.symm] using h
      · rw [text_lines hfeed] at h ⊢
        simpa [hbreak.symm] using h

/-- The character for a next line is never read back. -/
theorem nextLine_not_mem_folded {gap : Option Gap} (h : '\x85' ∉ passed gap) (cs : List Char) :
    '\x85' ∉ folded gap cs := by
  induction cs generalizing gap with
  | nil => exact h
  | cons c cs ih =>
    by_cases hspace : c = ' '
    · subst hspace
      rw [folded, if_pos rfl]
      refine ih ?_
      rcases gap with _ | ⟨bs⟩ | ⟨first, more⟩
      · decide
      · simpa [passed, Gap.addBlank, Gap.text] using h
      · exact h
    · cases hraw : isRawBreak c with
      | true => rw [folded_break hraw]; exact ih (nextLine_not_mem_addBreak h c)
      | false =>
        have hc : c ≠ '\x85' := by rintro rfl; cases hraw
        rw [folded_char hspace hraw, List.mem_append, List.mem_cons, not_or, not_or]
        have hnone : '\x85' ∉ passed none := by simp [passed]
        exact ⟨h, hc.symm, ih hnone⟩

/-- The gap loses nothing in front of the text: its lines end with separators, and no space stands
next to one. -/
inductive Keeps (cs : List Char) : Option Gap → Prop where
  | char : Keeps cs none
  | blanks (bs : List Char) (h : bs ≠ [] → notAhead isRawBreak cs) : Keeps cs (some (.blanks bs))
  | lines {b : Char} (more : List Char) (hb : b ≠ '\n') (h : notAhead Style.isSpace cs) :
    Keeps cs (some (.lines (some b) more))

namespace Keeps

/-- A space is kept in front of anything but a raw break. -/
theorem addSpace (h : Keeps (' ' :: cs) gap) (hcs : notAhead isRawBreak cs) :
    Keeps cs (some ((gap.getD (.blanks [])).addBlank ' ')) ∧
      passed (some ((gap.getD (.blanks [])).addBlank ' ')) = passed gap ++ [' '] := by
  cases h with
  | char => exact ⟨.blanks _ fun _ => hcs, rfl⟩
  | blanks bs => exact ⟨.blanks _ fun _ => hcs, by simp [passed, Gap.addBlank, Gap.text]⟩
  | lines more hb hnext => cases hnext ' ' rfl

/-- A separator is kept in front of anything but a space. -/
theorem addSeparator (h : Keeps (c :: cs) gap) (hc : isRawBreak c) (hne : c ≠ '\x85')
    (hcs : notAhead Style.isSpace cs) :
    Keeps cs (some ((gap.getD (.blanks [])).addBreak c)) ∧
      passed (some ((gap.getD (.blanks [])).addBreak c)) = passed gap ++ [c] := by
  obtain ⟨htext, hfeed⟩ : breakText c = c ∧ c ≠ '\n' := by
    simp only [isRawBreak, Bool.or_eq_true, beq_iff_eq, hne, false_or] at hc
    rcases hc with rfl | rfl <;> decide
  cases h with
  | char =>
    simp only [Option.getD_none, Gap.addBreak, htext, passed, Option.elim_some, text_lines hfeed]
    exact ⟨.lines [] hfeed hcs, rfl⟩
  | blanks bs hnext =>
    cases bs with
    | nil =>
      simp only [Option.getD_some, Gap.addBreak, htext, passed, Option.elim_some, text_lines hfeed]
      exact ⟨.lines [] hfeed hcs, rfl⟩
    | cons b bs => rw [hnext (by simp) c rfl] at hc; cases hc
  | lines more hb hnext =>
    simp only [Option.getD_some, Gap.addBreak, htext, passed, Option.elim_some, text_lines hb]
    exact ⟨.lines _ hb hcs, by simp⟩

end Keeps

theorem keepsLines_cons (h : keepsLines (c :: cs)) :
    keepsLines cs ∧ c ≠ '\x85' ∧ (c = ' ' → notAhead isRawBreak cs) ∧
      (isRawBreak c → notAhead Style.isSpace cs) := by
  simp only [keepsLines, Bool.and_eq_true, Bool.not_eq_true', List.contains_cons,
    Bool.or_eq_false_iff, beq_eq_false_iff_ne] at h
  obtain ⟨⟨⟨hne, hcontains⟩, hspace⟩, hraw⟩ := h
  cases cs with
  | nil => exact ⟨rfl, hne.symm, fun _ => by rintro d ⟨⟩, fun _ => by rintro d ⟨⟩⟩
  | cons d cs =>
    simp only [Style.hasAdjacent, Bool.or_eq_false_iff, Bool.and_eq_false_iff] at hspace hraw
    refine ⟨?_, hne.symm, ?_, ?_⟩
    · rw [keepsLines, hcontains, hspace.2, hraw.2]
      rfl
    · rintro rfl e ⟨⟩
      exact hspace.1.resolve_left (by decide)
    · rintro hc e ⟨⟩
      exact hraw.1.resolve_left (by simp [hc])

/-- Text whose lines are kept is read as it is. -/
theorem folded_of_keeps (hgap : Keeps cs gap) (h : keepsLines cs) :
    folded gap cs = passed gap ++ cs := by
  induction cs generalizing gap with
  | nil => exact (List.append_nil _).symm
  | cons c cs ih =>
    obtain ⟨htail, hne, hspace, hraw⟩ := keepsLines_cons h
    by_cases hc : c = ' '
    · subst hc
      obtain ⟨hkeeps, hpassed⟩ := hgap.addSpace (hspace rfl)
      rw [folded, if_pos rfl, ih hkeeps htail, hpassed, List.append_assoc]
      rfl
    · cases hr : isRawBreak c with
      | false => rw [folded_char hc hr, ih .char htail]; rfl
      | true =>
        obtain ⟨hkeeps, hpassed⟩ := hgap.addSeparator hr hne (hraw hr)
        rw [folded_break hr, ih hkeeps htail, hpassed, List.append_assoc]
        rfl

/-- One line is kept. -/
theorem keepsLines_of_no_break (h : ∀ c ∈ cs, isRawBreak c = false) : keepsLines cs := by
  have hnext : cs.contains '\x85' = false := by
    rw [Bool.eq_false_iff]
    intro hmem
    cases h '\x85' (List.contains_iff_mem.mp hmem)
  have hadjacent (p : Char → Bool) : Style.hasAdjacent p isRawBreak cs = false ∧
      Style.hasAdjacent isRawBreak p cs = false := by
    clear hnext
    induction cs with
    | nil => exact ⟨rfl, rfl⟩
    | cons c cs ih =>
      cases cs with
      | nil => exact ⟨rfl, rfl⟩
      | cons d cs =>
        obtain ⟨hfirst, hsecond⟩ := ih fun e he => h e (List.mem_cons_of_mem _ he)
        rw [Style.hasAdjacent, Style.hasAdjacent, hfirst, hsecond, h c (by simp), h d (by simp)]
        simp
  rw [keepsLines, hnext, (hadjacent _).1, (hadjacent _).2]
  rfl

/-- **A string is read back if and only if its lines are kept.** -/
theorem asRead_eq_iff (s : String) : asRead s = s ↔ keepsLines s.toList := by
  have hlist : asRead s = s ↔ folded (some (.blanks [])) s.toList = s.toList := by
    rw [asRead]
    exact ⟨fun h => by rw [← String.toList_ofList (l := folded _ _), h], fun h => by rw [h]; simp⟩
  rw [hlist]
  constructor
  · intro h
    have hnext : '\x85' ∉ s.toList := h ▸ nextLine_not_mem_folded (by decide) s.toList
    have hadjacent : ¬ (Style.hasAdjacent Style.isSpace isRawBreak s.toList ∨
        Style.hasAdjacent isRawBreak Style.isSpace s.toList) := by
      intro hlost
      have hlt := length_folded_lt hlost (some (.blanks []))
      rw [h] at hlt
      exact absurd hlt (by simp [width, passed, Gap.text])
    simp only [not_or, Bool.not_eq_true] at hadjacent
    simp [keepsLines, hnext, hadjacent]
  · exact fun h => folded_of_keeps (.blanks [] (by simp)) h

end ConfigVault.Yaml.Quoted
