import ConfigVault.Proofs.Gives
import ConfigVault.Proofs.Yaml.Token.Lexer

/-! # A text that cannot be read to its end

Behind the last character of a text there may be a fault.  No scanner loses it from sight: whatever
a construct is, the cursor behind it has the fault of the cursor in front of it.  Since the end of
the text is only a token where nothing hides it, a lexer that delivers that token has read all of a
text without a fault (`fault_of_streamEnd`).
-/
namespace ConfigVault.Yaml

variable {α β : Type}

/-! ## Cursors -/

/-- Nothing to look at is no error only where the text simply ends. -/
theorem gives_lookAhead_nil (fault : Option ReaderFault) (n : Nat) :
    Gives (lookAhead fault (n + 1) []) fun _ => fault = none := by
  cases fault with
  | none => exact .ok rfl
  | some f => exact .error

namespace Cursor

@[simp] theorem skipComment_fault (c : Cursor) : c.skipComment.fault = c.fault := by
  unfold skipComment
  extract_lets c'
  split <;> rfl

end Cursor

/-! ## Scalars -/

theorem Quoted.gives_scan (single : Bool) (began : Mark) (fault : Option ReaderFault)
    (cs : List Char) (skip : Nat) (m : Mark) (gap : Option Gap) (seen : List Char) :
    Gives (scan single began fault cs skip m gap seen) fun r => r.2.fault = fault := by
  induction cs generalizing skip m gap seen with
  | nil =>
    unfold scan
    exact .after .error
  | cons c cs ih =>
    cases skip with
    | succ skip =>
      unfold scan
      exact ih _ _ _ _
    | zero =>
      unfold scan
      refine .ite (.ite (.after (ih _ _ _ _)) (ih _ _ _ _)) (.ite (ih _ _ _ _)
        (.ite (.after (ih _ _ _ _)) (.after ?_)))
      refine .ite (.ite (.ite (ih _ _ _ _) (.ok rfl)) (ih _ _ _ _)) (.ite (.ok rfl) ?_)
      refine .ite (.ite (.after (ih _ _ _ _)) ?_) (ih _ _ _ _)
      exact (Gives.trivial _).bind fun _ _ => ih _ _ _ _

theorem Quoted.gives_read (single : Bool) (c : Cursor) :
    Gives (read single c) fun r => r.2.fault = c.fault :=
  gives_scan single c.mark c.fault _ _ _ _ _

theorem Plain.gives_scan (flow : Bool) (indent : Int) (began : Mark) (fault : Option ReaderFault)
    (cs : List Char) (m : Mark) (gap : Option Gap) (seen : List Char) :
    Gives (scan flow indent began fault cs m gap seen) fun r => r.2.1.fault = fault := by
  induction cs generalizing m gap seen with
  | nil =>
    unfold scan
    exact .after (.ok rfl)
  | cons c cs ih =>
    have hblank : Gives (if gap.any Gap.isLines && decide ((m.column : Int) < indent) && c == '\t'
        then .error (.malformed .tabViolatesIndentation m (some (.plainScalar, began)))
        else scan flow indent began fault cs (m.past c cs)
          (some ((gap.getD (.blanks [])).addBlank c)) seen) fun r => r.2.1.fault = fault :=
      .ite .error (ih _ _ _)
    have htext : Gives (if gap.isSome && stopsAfterGap m c cs then
        .ok (stop fault m (c :: cs) gap seen)
        else if isStrayColon flow c cs then
          .error (.malformed .unexpectedColon m (some (.plainScalar, began)))
        else if isEnd flow c cs then .ok (stop fault m (c :: cs) gap seen)
        else scan flow indent began fault cs (m.past c cs) none (c :: Gap.before gap seen))
        fun r => r.2.1.fault = fault :=
      .ite (.ok rfl) (.ite .error (.ite (.ok rfl) (ih _ _ _)))
    unfold scan
    refine .ite (.ite (.after hblank) hblank) (.ite (ih _ _ _) (.ite (.after (ih _ _ _)) ?_))
    exact .ite (.ok rfl) (.after htext)

theorem Plain.gives_read (flow : Bool) (indent : Int) (c : Cursor) :
    Gives (read flow indent c) fun r => r.2.1.fault = c.fault :=
  gives_scan flow indent c.mark c.fault _ _ _ _

namespace BlockScalar

theorem gives_increment (began : Mark) (c : Cursor) :
    Gives (increment began c) fun r => r.2.fault = c.fault := by
  unfold increment
  split
  · exact .error
  · exact .ok rfl
  · exact .ok rfl

theorem chomping_fault {c : Cursor} {r : Chomping × Cursor} (h : chomping c = some r) :
    r.2.fault = c.fault := by
  obtain ⟨k, -, rfl⟩ := Option.map_eq_some_iff.mp h
  rfl

theorem gives_indicators (began : Mark) (c : Cursor) :
    Gives (indicators began c) fun r => r.2.2.fault = c.fault := by
  unfold indicators
  split
  · rename_i k c' hk
    refine .after ((gives_increment began c').bind fun r hr => .ok ?_)
    exact hr.trans (chomping_fault hk)
  · refine (gives_increment began c).bind fun r hr => .ite (.ok hr) (.after ?_)
    split
    · rename_i k c' hk
      exact .ok ((chomping_fault hk).trans hr)
    · exact .ok hr

theorem gives_header (began : Mark) (c : Cursor) :
    Gives (header began c) fun r => r.2.2.fault = c.fault := by
  unfold header
  refine .after ((gives_indicators began c).bind fun r hr => .after (.ite (.ok ?_) .error))
  rw [Lexer.skipBreak_fault, Cursor.skipComment_fault]
  exact hr

theorem gives_scan (literal : Bool) (k : Chomping) (indent : Nat) (began : Mark)
    (fault : Option ReaderFault) (cs : List Char) (m : Mark) (place : Place) (l : Lines) :
    Gives (scan literal k indent began fault cs m place l) fun r => r.2.fault = fault := by
  induction cs generalizing m place l with
  | nil =>
    unfold scan
    exact .after (.ok rfl)
  | cons c cs ih =>
    cases place with
    | line =>
      unfold scan
      exact .ite (ih _ _ _) (.ite (ih _ _ _) (ih _ _ _))
    | margin breaks =>
      unfold scan
      exact .ite (ih _ _ _) (.ite (ih _ _ _) (.ite .error (.ite (ih _ _ _)
        (.ite (ih _ _ _) (.ok rfl)))))

theorem gives_read (literal : Bool) (parent : Int) (c : Cursor) :
    Gives (read literal parent c) fun r => r.2.fault = c.fault := by
  unfold read
  refine (gives_header c.mark (c.skip 1)).bind ?_
  rintro ⟨k, n, c'⟩ hc
  change c'.fault = c.fault at hc
  rw [← hc]
  have hlines (indent : Nat) (cs : List Char) (m : Mark) (place : Place) :
      Gives (scan literal k indent c.mark c'.fault cs m place .empty) fun r => r.2.fault = c'.fault :=
    gives_scan literal k indent c.mark c'.fault cs m place .empty
  refine .ite ((Gives.trivial _).bind fun r _ => ?_) (hlines _ _ _ _)
  exact .ite (.after (hlines _ _ _ _)) (hlines _ _ _ _)

end BlockScalar

/-! ## Names, tags and directives -/

namespace Tag

theorem gives_escapedRest (context : Context) (began : Mark) (more : Nat) (r : Reading) :
    Gives (escapedRest context began more r) fun r' => r'.2.fault = r.2.fault := by
  induction more generalizing r with
  | zero => exact .ok rfl
  | succ more ih =>
    unfold escapedRest
    refine .after ?_
    split
    · exact .error
    · exact .ite (ih _) .error

theorem gives_escaped (context : Context) (began : Mark) (r : Reading) :
    Gives (escaped context began r) fun r' => r'.2.fault = r.2.fault := by
  unfold escaped
  refine .after ?_
  split
  · exact .error
  · split
    · exact .error
    · exact gives_escapedRest _ _ _ _

theorem gives_uriOctets (wide : Bool) (context : Context) (began : Mark) (fuel : Nat)
    (r : Reading) : Gives (uriOctets wide context began fuel r) fun r' => r'.2.fault = r.2.fault := by
  induction fuel generalizing r with
  | zero => exact .ok rfl
  | succ fuel ih =>
    unfold uriOctets
    split
    · exact .after (.ok rfl)
    · refine .ite (.ite ((gives_escaped context began _).bind fun r' hr' => ?_) (ih _)) (.ok rfl)
      exact fun x hx => (ih r' x hx).trans hr'

theorem gives_uri (wide : Bool) (context : Context) (head : List Char) (began : Mark)
    (c : Cursor) : Gives (uri wide context head began c) fun r => r.2.fault = c.fault :=
  (gives_uriOctets wide context began _ ([], c)).bind fun _ hr => .ite .error (.ok hr)

theorem gives_handle (inDirective : Bool) (began : Mark) (c : Cursor) :
    Gives (handle inDirective began c) fun r => r.2.fault = c.fault := by
  unfold handle
  exact .after (.ite .error (.after (.ite (.ok rfl) (.ite .error (.ok rfl)))))

theorem gives_shorthand (began : Mark) (c : Cursor) :
    Gives (shorthand began c) fun r => r.2.2.fault = c.fault := by
  unfold shorthand
  refine (gives_handle false began c).bind ?_
  rintro ⟨h, c'⟩ hc
  refine .ite ((gives_uri false .parsedTag [] began c').bind fun r hr => .ok (hr.trans hc)) ?_
  exact (gives_uri false .parsedTag h began c').bind fun r hr =>
    .ite (.ok (hr.trans hc)) (.ok (hr.trans hc))

theorem gives_verbatim (began : Mark) (c : Cursor) :
    Gives (verbatim began c) fun r => r.2.2.fault = c.fault :=
  (gives_uri true .parsedTag [] began (c.skip 2)).bind fun _ hr => .ite (.ok hr) .error

/-- What is read as a tag is one, and the fault is still there. -/
theorem gives_read (inFlow : Bool) (c : Cursor) :
    Gives (read inFlow c) fun r => r.1 ≠ .streamEnd ∧ r.2.fault = c.fault := by
  unfold read
  have hend (r : List Char × List UInt8 × Cursor) (hr : r.2.2.fault = c.fault) :
      Gives (do
        r.2.2.need 1
        if atSpace r.2.2.rest || (inFlow && r.2.2.at? ',') then
          .ok (.tag (String.ofList r.1) (untilZero r.2.1), r.2.2)
        else r.2.2.fail .expectedBlankOrBreak .tag c.mark : Except SyntaxError (Token.Kind × Cursor))
        fun r => r.1 ≠ .streamEnd ∧ r.2.fault = c.fault :=
    .after (.ite (.ok ⟨nofun, hr⟩) .error)
  exact .after (.ite ((gives_verbatim _ _).bind hend) ((gives_shorthand _ _).bind hend))

end Tag

theorem gives_readName (context : Context) (c : Cursor) :
    Gives (readName context c) fun r => r.2.fault = c.fault := by
  unfold readName
  exact .after (.ite .error (.ok rfl))

namespace Directive

theorem gives_versionPart (began : Mark) (c : Cursor) :
    Gives (versionPart began c) fun r => r.2.fault = c.fault := by
  unfold versionPart
  exact .ite .error (.after (.ite .error (.ok rfl)))

theorem gives_version (began : Mark) (c : Cursor) :
    Gives (version began c) fun r => r.1 ≠ .streamEnd ∧ r.2.fault = c.fault := by
  unfold version
  refine .after ((gives_versionPart began _).bind fun r hr => .ite ?_ .error)
  refine (gives_versionPart began _).bind fun r' hr' => .ok ⟨nofun, ?_⟩
  exact hr'.trans hr

theorem gives_tag (began : Mark) (c : Cursor) :
    Gives (tag began c) fun r => r.1 ≠ .streamEnd ∧ r.2.fault = c.fault := by
  unfold tag
  refine .after ((Tag.gives_handle true began _).bind fun r hr => .after (.ite .error ?_))
  refine .after ((Tag.gives_uri true .parsedTagDirective [] began _).bind fun r' hr' => ?_)
  exact .after (.ite (.ok ⟨nofun, hr'.trans hr⟩) .error)

theorem gives_name (began : Mark) (c : Cursor) :
    Gives (name began c) fun r => r.2.fault = c.fault := by
  unfold name
  exact .after (.ite .error (.ite (.ok rfl) .error))

/-- What is read as a directive is one, and the fault is still there. -/
theorem gives_read (c : Cursor) :
    Gives (read c) fun r => r.1 ≠ .streamEnd ∧ r.2.fault = c.fault := by
  unfold read
  refine (gives_name c.mark (c.skip 1)).bind fun r hr => ?_
  have hvalue : Gives (value r.1 c.mark r.2) fun r' => r'.1 ≠ .streamEnd ∧ r'.2.fault = r.2.fault :=
    .ite (gives_version _ _) (.ite (gives_tag _ _) .error)
  refine hvalue.bind fun r' hr' => .after (.ite (.ok ⟨hr'.1, ?_⟩) .error)
  rw [Lexer.skipBreak_fault, Cursor.skipComment_fault]
  exact hr'.2.trans hr

end Directive

/-! ## The lexer -/

namespace Lexer

open Token (Kind)

/-- The lexer went on in its text: the same fault is ahead, and it added no end of the text. -/
structure GoesOn (l l' : Lexer) : Prop where
  fault : l'.cursor.fault = l.cursor.fault
  ends : ∀ t ∈ l'.tokens, t.kind = .streamEnd → t ∈ l.tokens

namespace GoesOn

variable {l l' l'' : Lexer} {m : Mark}

theorem refl (l : Lexer) : GoesOn l l := ⟨rfl, fun _ ht _ => ht⟩

theorem trans (h : GoesOn l l') (h' : GoesOn l' l'') : GoesOn l l'' :=
  ⟨h'.fault.trans h.fault, fun t ht hk => h.ends t (h'.ends t ht hk) hk⟩

/-- Only the cursor and the tokens matter. -/
theorem congr (h : GoesOn l l') (hcursor : l''.cursor.fault = l'.cursor.fault)
    (htokens : l''.tokens = l'.tokens) : GoesOn l l'' :=
  ⟨hcursor.trans h.fault, htokens ▸ h.ends⟩

theorem pushed (h : GoesOn l l') (kind : Kind) (hkind : kind ≠ .streamEnd)
    (hcursor : l''.cursor.fault = l'.cursor.fault)
    (htokens : l''.tokens = ⟨kind, m⟩ :: l'.tokens) : GoesOn l l'' := by
  refine ⟨hcursor.trans h.fault, fun t ht hk => ?_⟩
  rw [htokens] at ht
  rcases List.mem_cons.mp ht with rfl | ht
  · exact absurd hk hkind
  · exact h.ends t ht hk

theorem insert (h : GoesOn l l') (position : Nat) (kind : Kind) (hkind : kind ≠ .streamEnd) :
    GoesOn l (l'.insert position kind m) := by
  refine ⟨h.fault, fun t ht hk => ?_⟩
  rcases List.mem_append.mp ht with ht | ht
  · exact h.ends t (List.mem_of_mem_take ht) hk
  · rcases List.mem_cons.mp ht with rfl | ht
    · exact absurd hk hkind
    · exact h.ends t (List.mem_of_mem_drop ht) hk

theorem roll (h : GoesOn l l') (column position : Nat) (kind : Kind) (hkind : kind ≠ .streamEnd) :
    GoesOn l (l'.roll column position kind m) := by
  unfold Lexer.roll
  split
  · exact (h.insert position kind hkind).congr rfl rfl
  · exact h

/-- Ends of collections are no ends of the text. -/
theorem mem_unrolled (column : Int) (m : Mark) (indent : Int) (indents : List Int)
    (ts : List Token) {t : Token} (ht : t ∈ (unrolled column m indent indents ts).2.2)
    (hk : t.kind = .streamEnd) : t ∈ ts := by
  have hcons {ts : List Token} (ht : t ∈ (⟨.blockEnd, m⟩ : Token) :: ts) : t ∈ ts := by
    rcases List.mem_cons.mp ht with rfl | ht
    · cases hk
    · exact ht
  induction indents generalizing indent ts with
  | nil =>
    unfold unrolled at ht
    split at ht
    · exact hcons ht
    · exact ht
  | cons outer indents ih =>
    unfold unrolled at ht
    split at ht
    · exact hcons (ih outer _ ht)
    · exact ht

theorem unroll (h : GoesOn l l') (column : Int) : GoesOn l (l'.unroll column) := by
  refine h.trans ⟨by rw [unroll_cursor], fun t ht hk => ?_⟩
  unfold Lexer.unroll at ht
  split at ht
  · exact mem_unrolled _ _ _ _ _ ht hk
  · exact ht

theorem dropStale (h : GoesOn l l') : Gives l'.dropStale (GoesOn l) := by
  unfold Lexer.dropStale
  extract_lets stale
  split
  · exact .error
  · exact .ok (h.congr rfl rfl)

theorem dropKey (h : GoesOn l l') : Gives l'.dropKey (GoesOn l) := by
  unfold Lexer.dropKey
  split
  · exact .ite .error (.ok (h.congr rfl rfl))
  · exact .ok h

theorem saveKey (h : GoesOn l l') : Gives l'.saveKey (GoesOn l) := by
  unfold Lexer.saveKey
  exact .ite (h.dropKey.bind fun _ h => .ok (h.congr rfl rfl)) (.ok h)

end GoesOn

/-! ### One construct -/

section

variable (l : Lexer)

theorem gives_fetchDirective : Gives l.fetchDirective (GoesOn l) := by
  unfold fetchDirective
  refine ((GoesOn.refl l).unroll (-1)).dropKey.bind fun l' h => ?_
  exact (Directive.gives_read l'.cursor).bind fun r hr => .ok (h.pushed _ hr.1 hr.2 rfl)

theorem gives_fetchDocumentIndicator {kind : Kind} (hkind : kind ≠ .streamEnd) :
    Gives (l.fetchDocumentIndicator kind) (GoesOn l) := by
  unfold fetchDocumentIndicator
  refine ((GoesOn.refl l).unroll (-1)).dropKey.bind fun l' h => ?_
  exact .ok (h.pushed _ hkind rfl rfl)

theorem gives_fetchFlowStart {kind : Kind} (hkind : kind ≠ .streamEnd) :
    Gives (l.fetchFlowStart kind) (GoesOn l) :=
  (GoesOn.refl l).saveKey.bind fun _ h => .ok (h.pushed _ hkind rfl rfl)

theorem gives_fetchFlowEnd {kind : Kind} (hkind : kind ≠ .streamEnd) :
    Gives (l.fetchFlowEnd kind) (GoesOn l) :=
  (GoesOn.refl l).dropKey.bind fun _ h => .ok (h.pushed _ hkind rfl rfl)

theorem gives_fetchFlowEntry : Gives l.fetchFlowEntry (GoesOn l) :=
  (GoesOn.refl l).dropKey.bind fun _ h => .ok (h.pushed .flowEntry nofun rfl rfl)

theorem gives_fetchBlockEntry : Gives l.fetchBlockEntry (GoesOn l) := by
  refine .after (((GoesOn.refl l).roll _ _ .blockSequenceStart nofun).dropKey.bind fun _ h => ?_)
  exact .ok (h.pushed .blockEntry nofun rfl rfl)

theorem gives_fetchKey : Gives l.fetchKey (GoesOn l) := by
  refine .after (((GoesOn.refl l).roll _ _ .blockMappingStart nofun).dropKey.bind fun _ h => ?_)
  exact .ok (h.pushed .key nofun rfl rfl)

theorem gives_fetchValue : Gives l.fetchValue (GoesOn l) := by
  unfold fetchValue
  split
  · rename_i k ks hkeys
    have h : GoesOn l { l with keys := none :: ks } := (GoesOn.refl l).congr rfl rfl
    refine .ok (((h.insert k.position .key nofun).roll k.mark.column k.position
      .blockMappingStart nofun).pushed .value nofun rfl rfl)
  · refine .after (.ok ?_)
    exact ((GoesOn.refl l).roll _ _ .blockMappingStart nofun).pushed .value nofun rfl rfl

theorem gives_fetchName (context : Context) {kind : String → Kind}
    (hkind : ∀ name, kind name ≠ .streamEnd) : Gives (l.fetchName context kind) (GoesOn l) := by
  refine (GoesOn.refl l).saveKey.bind fun l' h => ?_
  exact (gives_readName context l'.cursor).bind fun r hr => .ok (h.pushed _ (hkind r.1) hr rfl)

theorem gives_fetchTag : Gives l.fetchTag (GoesOn l) := by
  refine (GoesOn.refl l).saveKey.bind fun l' h => ?_
  exact (Tag.gives_read _ l'.cursor).bind fun r hr => .ok (h.pushed _ hr.1 hr.2 rfl)

theorem gives_fetchBlockScalar (literal : Bool) :
    Gives (l.fetchBlockScalar literal) (GoesOn l) := by
  refine (GoesOn.refl l).dropKey.bind fun l' h => ?_
  refine (BlockScalar.gives_read literal _ l'.cursor).bind fun r hr => .ok ?_
  exact h.pushed (.scalar r.1 _) nofun hr rfl

theorem gives_fetchQuoted (single : Bool) : Gives (l.fetchQuoted single) (GoesOn l) := by
  refine (GoesOn.refl l).saveKey.bind fun l' h => ?_
  refine (Quoted.gives_read single l'.cursor).bind fun r hr => .ok ?_
  exact h.pushed (.scalar r.1 _) nofun hr rfl

theorem gives_fetchPlain : Gives l.fetchPlain (GoesOn l) := by
  refine (GoesOn.refl l).saveKey.bind fun l' h => ?_
  refine (Plain.gives_read _ _ l'.cursor).bind fun r hr => .ok ?_
  exact h.pushed (.scalar r.1 .plain) nofun hr rfl

theorem gives_fetchAt (c : Char) (rest : List Char) : Gives (l.fetchAt c rest) (GoesOn l) := by
  unfold fetchAt
  refine .ite (gives_fetchDirective l) (.ite (gives_fetchDocumentIndicator l ?_) ?_)
  · split <;> nofun
  refine .ite (gives_fetchFlowStart l nofun) (.ite (gives_fetchFlowStart l nofun) ?_)
  refine .ite (gives_fetchFlowEnd l nofun) (.ite (gives_fetchFlowEnd l nofun) ?_)
  refine .ite (gives_fetchFlowEntry l) (.ite (gives_fetchBlockEntry l) ?_)
  refine .ite (gives_fetchKey l) (.ite (gives_fetchValue l) ?_)
  refine .ite (gives_fetchName l _ nofun) (.ite (gives_fetchName l _ nofun) ?_)
  refine .ite (gives_fetchTag l) (.ite (gives_fetchBlockScalar l true) ?_)
  refine .ite (gives_fetchBlockScalar l false) (.ite (gives_fetchQuoted l true) ?_)
  exact .ite (gives_fetchQuoted l false) (.ite (gives_fetchPlain l) .error)

end

theorem gives_fetchEnd (l : Lexer) : Gives l.fetchEnd fun l' => l'.isOver := by
  unfold fetchEnd
  exact (Gives.trivial _).bind fun _ _ => .ok rfl

/-- **Reading a construct goes on in the text**, unless it is the end of one without a fault. -/
theorem gives_fetch (l : Lexer) :
    Gives l.fetch fun l' => GoesOn l l' ∨ (l.cursor.fault = none ∧ l'.isOver) := by
  have hskip := toNextToken_fault (l.flow != 0) (l.cursor.rest.length + 1) l.keyAllowed l.cursor
  unfold fetch
  refine .after (.ite (.ok (.inl ?_)) ?_)
  · exact (GoesOn.refl l).pushed .streamStart nofun rfl rfl
  split
  rename_i ka c hc
  rw [hc] at hskip
  change c.fault = l.cursor.fault at hskip
  have hstart : GoesOn l { l with keyAllowed := ka, cursor := c } := ⟨hskip, fun _ ht _ => ht⟩
  cases hrest : c.rest with
  | nil =>
    -- The end is believed only where nothing hides the rest.
    have hneed : Gives (c.need 1) fun _ => c.fault = none := by
      rw [Cursor.need, hrest]
      exact gives_lookAhead_nil c.fault 0
    refine hneed.bind fun _ hnone => hstart.dropStale.bind fun l' _ => .after ?_
    intro l'' h
    exact .inr ⟨hskip.symm.trans hnone, gives_fetchEnd _ l'' h⟩
  | cons x rest =>
    refine .after (hstart.dropStale.bind fun l' h => .after ?_)
    intro l'' h''
    exact .inl ((h.unroll _).trans (gives_fetchAt _ x rest l'' h''))

/-- No token ends the text. -/
def IsOpen (l : Lexer) : Prop := ∀ t ∈ l.tokens, t.kind ≠ .streamEnd

theorem IsOpen.not_isOver {l : Lexer} (h : l.IsOpen) : l.isOver = false := by
  cases htokens : l.tokens with
  | nil => simp [isOver, htokens]
  | cons t ts => simpa [isOver, htokens] using h t (by simp [htokens])

theorem IsOpen.goesOn {l l' : Lexer} (hl : l.IsOpen) (h : GoesOn l l') : l'.IsOpen :=
  fun t ht hk => hl t (h.ends t ht hk) hk

/-- **One step of a run** goes on in the text, unless it ends one without a fault. -/
theorem gives_step (l : Lexer) : Gives (l.fetch >>= dropStale) fun l' =>
    GoesOn l l' ∨ (l.cursor.fault = none ∧ l'.isOver) := by
  refine (gives_fetch l).bind fun l' h => ?_
  rcases h with h | ⟨hnone, hover⟩
  · exact fun l'' hl'' => .inl (h.dropStale l'' hl'')
  · refine fun l'' hl'' => .inr ⟨hnone, ?_⟩
    unfold dropStale at hl''
    extract_lets stale at hl''
    split at hl''
    · cases hl''
    · cases hl''; exact hover

/-- **A run that delivers the end of the text found no error**, and the text has no fault. -/
theorem fault_run {l : Lexer} (hl : l.IsOpen) (fuel : Nat)
    (hend : ∃ t ∈ (run fuel l).tokens, t.kind = .streamEnd) :
    (run fuel l).fault = none ∧ l.cursor.fault = none := by
  induction fuel generalizing l with
  | zero =>
    obtain ⟨t, ht, hk⟩ := hend
    exact absurd hk (hl t (List.mem_reverse.mp ht))
  | succ fuel ih =>
    unfold run at hend ⊢
    cases hfetch : l.fetch >>= dropStale with
    | error e =>
      rw [hfetch] at hend
      obtain ⟨t, ht, hk⟩ := hend
      exact absurd hk (hl t (List.mem_reverse.mp (List.mem_of_mem_take ht)))
    | ok l' =>
      simp only [hfetch] at hend ⊢
      rcases gives_step l l' hfetch with h | ⟨hnone, hover⟩
      · have hopen := hl.goesOn h
        simp only [hopen.not_isOver, Bool.false_eq_true, if_false] at hend ⊢
        obtain ⟨hfault, hcursor⟩ := ih hopen hend
        exact ⟨hfault, h.fault ▸ hcursor⟩
      · simp only [hover, if_true]
        exact ⟨trivial, hnone⟩

end Lexer

/-- **Only a text that can be read to its end has a token for it.** -/
theorem fault_of_streamEnd {source : Source}
    (hend : ∃ t ∈ (TokenStream.ofSource source).tokens, t.kind = .streamEnd) :
    (TokenStream.ofSource source).fault = none ∧ source.fault = none :=
  Lexer.fault_run (fun _ ht => absurd ht (by simp [Lexer.ofSource])) _ hend

end ConfigVault.Yaml
