import ConfigVault.Proofs.Yaml.Node.Block
import ConfigVault.Proofs.Yaml.Source
import ConfigVault.Yaml.Document

/-! # Written documents are read back

The octets of a written mapping hold one document, nothing is wrong with it, and its root shows the
mapping (`allOf_render`).  This is the last of three steps: the characters of the text are all there,
they are cut into the tokens of the value, and the tokens make its node.
-/
namespace ConfigVault.Yaml

open Token (Kind)

/-! ## The characters -/

namespace Writer

theorem allAllowed_scalarLine {v : Json} (hv : isBlock v = false) (width : Nat) :
    AllAllowed (scalarLine width v) := by
  cases v with
  | string s => exact allAllowed_stringLine width s
  | null => exact allAllowed_line (allAllowed_word rfl)
  | bool b => cases b <;> exact allAllowed_line (allAllowed_word rfl)
  | int i => exact allAllowed_line (allAllowed_word (isWord_int i))
  | float x => exact allAllowed_line (allAllowed_word (isWord_float false x))
  | array vs =>
    cases vs with
    | nil => exact allAllowed_cons.mpr ⟨rfl, allAllowed_cons.mpr ⟨rfl, allAllowed_line allAllowed_nil⟩⟩
    | cons => cases hv
  | object ms =>
    cases ms with
    | nil => exact allAllowed_cons.mpr ⟨rfl, allAllowed_cons.mpr ⟨rfl, allAllowed_line allAllowed_nil⟩⟩
    | cons => cases hv

/-- Documents may hold the text of a value, wherever it stands. -/
def Holds (v : Json) : Prop :=
  ∀ width, AllAllowed (Lexer.behindText width v) ∧ AllAllowed (Lexer.underText width v)

theorem allAllowed_items {vs : List Json} (h : ∀ v ∈ vs, Holds v) (width : Nat) (compact : Bool) :
    AllAllowed (items width compact vs) := by
  induction vs generalizing compact with
  | nil => exact allAllowed_nil
  | cons v vs ih =>
    rw [items, Lexer.behindIndicator_eq]
    have hrest := ih (fun u hu => h u (by simp [hu])) false
    refine allAllowed_append.mpr ⟨allAllowed_append.mpr ⟨?_, allAllowed_cons.mpr ⟨rfl,
      allAllowed_cons.mpr ⟨rfl, (h v (by simp) width).1⟩⟩⟩, hrest⟩
    split
    · exact allAllowed_nil
    · exact allAllowed_spaces width

theorem allAllowed_entries {es : List (String × Json)} (h : ∀ e ∈ es, Holds e.2) (width : Nat) :
    AllAllowed (entries width true es) := by
  induction es with
  | nil => exact allAllowed_nil
  | cons e es ih =>
    obtain ⟨k, v⟩ := e
    have hv : Holds v := h (k, v) (by simp)
    have hrest : AllAllowed (entries width false es) := by
      cases es with
      | nil => exact allAllowed_nil
      | cons e es =>
        rw [Lexer.entries_fresh]
        exact allAllowed_append.mpr ⟨allAllowed_spaces width, ih fun u hu => h u (by simp [hu])⟩
    rw [Lexer.entries_cons]
    split
    · refine allAllowed_append.mpr ⟨allAllowed_keyText k, allAllowed_cons.mpr ⟨rfl,
        allAllowed_append.mpr ⟨?_, hrest⟩⟩⟩
      rw [Lexer.behindKey_eq]
      split
      · exact allAllowed_cons.mpr ⟨rfl, allAllowed_append.mpr ⟨allAllowed_spaces _, (hv width).2⟩⟩
      · exact allAllowed_cons.mpr ⟨rfl, (hv width).2⟩
    · exact allAllowed_cons.mpr ⟨rfl, allAllowed_cons.mpr ⟨rfl,
        allAllowed_append.mpr ⟨allAllowed_stringLine _ k, allAllowed_append.mpr
          ⟨allAllowed_spaces width, allAllowed_cons.mpr ⟨rfl, allAllowed_cons.mpr ⟨rfl,
            allAllowed_append.mpr ⟨(hv width).1, hrest⟩⟩⟩⟩⟩⟩⟩

theorem holds_scalar {v : Json} (hv : isBlock v = false)
    (hbehind : ∀ i, Lexer.behindText i v = scalarLine (i + 2) v)
    (hunder : ∀ i, Lexer.underText i v = scalarLine (i + 2) v) : Holds v := by
  intro width
  rw [hbehind, hunder]
  exact ⟨allAllowed_scalarLine hv _, allAllowed_scalarLine hv _⟩

/-- **Documents may hold whatever is written.** -/
theorem holds (v : Json) : Holds v := by
  induction v using Json.induction with
  | null => exact holds_scalar rfl (fun _ => rfl) fun _ => rfl
  | bool b => exact holds_scalar rfl (fun _ => rfl) fun _ => rfl
  | int i => exact holds_scalar rfl (fun _ => rfl) fun _ => rfl
  | float x => exact holds_scalar rfl (fun _ => rfl) fun _ => rfl
  | string s => exact holds_scalar rfl (fun _ => rfl) fun _ => rfl
  | array vs ih =>
    cases vs with
    | nil => exact holds_scalar rfl (fun _ => rfl) fun _ => rfl
    | cons v vs => exact fun width => ⟨allAllowed_items ih _ _, allAllowed_items ih _ _⟩
  | object ms ih =>
    cases ms with
    | nil => exact holds_scalar rfl (fun _ => rfl) fun _ => rfl
    | cons e es => exact fun width => ⟨allAllowed_entries ih _, allAllowed_entries ih _⟩

end Writer

/-! ## The document -/

/-- Tokens that make a node, with the end of the text behind them, are one document. -/
theorem Document.ofTokens_eq {stop : DocumentFault} {us : List Token} {t e : Token} {node : Node}
    (hstart : isExplicitStart t = false) (hend : t.kind ≠ .streamEnd) (he : e.kind = .streamEnd)
    (hnode : content ⟨defaultHandles, stop⟩ (t :: us ++ [e]) = ⟨node, [], .ok [e]⟩) :
    ofTokens stop ((t :: us ++ [e]).length + 1) true (t :: us ++ [e]) = [⟨node, none⟩] := by
  rw [ofTokens]
  simp only [if_true, List.cons_append, beq_iff_eq, hend, if_false, hstart, Bool.not_false,
    Bool.and_self]
  rw [List.cons_append] at hnode
  rw [hnode, finish]
  simp only [he]
  rw [if_neg (by simp), List.length_cons]
  simp [ofTokens, skipEnds, he]

/-- **A written mapping is read back**: its text is one document, whose root shows the mapping. -/
theorem allOf_render {ms : List (String × Json)} (hne : ms ≠ []) :
    ∃ node, Document.allOf (Text.Utf8.encodeString (render (.object ms))) = [⟨node, none⟩] ∧
      Shows (.object ms) node := by
  obtain ⟨e, es, rfl⟩ := List.exists_cons_of_ne_nil hne
  have hchars : Source.ofBytes (Text.Utf8.encodeString (render (.object (e :: es)))) =
      ⟨Writer.document (.object (e :: es)), none⟩ := by
    rw [Text.Utf8.encodeString, render, String.toList_ofList]
    exact Source.ofBytes_encode (Writer.allAllowed_entries (fun m _ => Writer.holds m.2) 0)
  obtain ⟨ts, hts, hkinds⟩ := tokens_document hne
  obtain ⟨m₀, us, m₁, rfl, hus⟩ := Node.exists_of_map_between hkinds
  obtain ⟨m₂, us', rfl, -⟩ := Node.exists_of_map_cons hus
  obtain ⟨node, hnode, hshows⟩ := Node.parses false (.object (e :: es))
    ⟨Document.defaultHandles, .endOfStream⟩
    (4 * (Token.mk .blockMappingStart m₂ :: us' ++ [Token.mk .streamEnd m₁]).length + 4) false [] _
    ⟨.streamEnd, m₁⟩ [] hus (by simp; omega) (by simp)
  refine ⟨node, ?_, hshows⟩
  rw [Document.allOf, hchars]
  simp only [hts]
  exact Document.ofTokens_eq rfl (by simp) rfl hnode

end ConfigVault.Yaml
