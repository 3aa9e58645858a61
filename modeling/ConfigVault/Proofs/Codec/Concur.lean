import ConfigVault.Proofs.Codec.Basic
import ConfigVault.Proofs.Yaml.MaskedNull

/-! # Lenient and strict reading concur

A document can be read leniently, node by node, or strictly, as a value first.  The strict way refuses
more, but where both return something it is the same (`Codec.Concurs`), as long as no scalar masks a
null: each codec reads a node as it reads the value that the node means.

Two computations agree when both cannot return different things (`Agree`).  There is a rule for each
way to put computations together on both sides at once.
-/
namespace ConfigVault.Codec

open Yaml

variable {α β σ ρ : Type}

/-- **Whatever both return is the same.** -/
def Agree (r : Reading α) (e : Except Mismatch α) : Prop := Returns r fun x => Gives e (x = ·)

namespace Agree

variable {r : Reading α} {e : Except Mismatch α}

theorem pure (x : α) : Agree (Pure.pure x) (.ok x) := Returns.pure (.ok rfl)

theorem mismatch (m : Mismatch) : Agree (Codec.mismatch m) e := Returns.mismatch m

theorem throw (c : ReadError) : Agree (MonadExcept.throw c : Reading α) e := Returns.throw c

/-- Nothing is said where the strict way fails. -/
theorem error (m : Mismatch) : Agree r (.error m) := fun _ _ _ _ => .error

theorem lift (e : Except Mismatch α) : Agree (Value.lift e) e := by
  cases e with
  | error m => exact mismatch m
  | ok x => exact pure x

theorem bind {f : α → Reading β} {g : α → Except Mismatch β} (h : Agree r e)
    (hf : ∀ x, Agree (f x) (g x)) : Agree (r >>= f) (e >>= g) := by
  refine Returns.bind h fun x hx => (hf x).weaken fun y hy z hz => ?_
  obtain ⟨w, hw, hg⟩ := bind_eq_ok.mp hz
  obtain rfl := hx w hw
  exact hy z hg

theorem map (h : Agree r e) (f : α → β) : Agree (f <$> r) (f <$> e) := by
  rw [map_eq_pure_bind, map_eq_pure_bind]
  exact h.bind fun x => pure (f x)

/-- What the lenient way does besides does not matter. -/
theorem skip {s : Reading β} {P : β → Prop} {f : β → Reading α} (hs : Returns s P)
    (hf : ∀ x, P x → Agree (f x) e) : Agree (s >>= f) e := Returns.bind hs hf

/-- What the strict way finds out first. -/
theorem given {e : Except Mismatch β} {P : β → Prop} {f : β → Except Mismatch α} (he : Gives e P)
    (hf : ∀ y, P y → Agree r (f y)) : Agree r (e >>= f) := by
  cases e with
  | error m => exact error m
  | ok y => exact hf y (he y rfl)

theorem after {e : Except Mismatch β} {y : β} {f : β → Except Mismatch α} (he : e = .ok y)
    (hf : Agree r (f y)) : Agree r (e >>= f) := by
  rw [he]
  exact hf

theorem locate (h : Agree r e) (p : Place) (m : Mark) : Agree (p.locate m r) e := Returns.locate h m

end Agree

/-! ## Nodes and what they mean -/

/-- A place among nodes that mask no nulls. -/
def Place.Unmasked (q : Place) : Prop := UnmaskedScope q.scope

/-- An alias is read by what it leads to. -/
theorem Agree.follow {q : Place} {anchor : Nat} {target : Node} {f : Node → Reading α}
    {e : Except Mismatch α} (hfind : q.scope.find? anchor = some target) (h : Agree (f target) e) :
    Agree (q.follow anchor >>= f) e := by
  refine Agree.skip (returns_follow q anchor) fun node hnode => ?_
  obtain rfl : target = node := Option.some.inj (hfind.symm.trans hnode)
  exact h

/-- Whatever node an alias leads to means the same. -/
theorem Agree.target {q : Place} {node : Node} {v : Value} {f : Node → Reading α}
    {e : Except Mismatch α} (hq : q.Unmasked) (hnode : node.masksNull = false)
    (hv : Means q.scope false node v)
    (h : ∀ node : Node, node.masksNull = false → (∀ m a, node ≠ .alias m a) →
      Means q.scope false node v → Agree (f node) e) : Agree (target q node >>= f) e := by
  cases hv with
  | scalar hmeaning hv => exact h _ hnode (by simp) (.scalar hmeaning hv)
  | sequence hvs => exact h _ hnode (by simp) (.sequence hvs)
  | mapping hes => exact h _ hnode (by simp) (.mapping hes)
  | @«alias» _ m anchor target v hfind hcontent hv =>
    exact .follow hfind (h target (hq anchor target hfind) hcontent hv)

/-- Reading agrees if it does with what an alias leads to, or the node itself. -/
theorem Agree.visit {q : Place} {node : Node} {v : Value} {tagged : Bool} {read : Node → Reading α}
    {e : Except Mismatch α} (hq : q.Unmasked) (hnode : node.masksNull = false)
    (hv : Means q.scope tagged node v)
    (h : ∀ (tagged : Bool) (node : Node), node.masksNull = false → Means q.scope tagged node v →
      Agree (read node) e) : Agree (q.visit node read) e := by
  cases hv with
  | scalar hmeaning hv => exact (h tagged _ hnode (.scalar hmeaning hv)).locate q _
  | sequence hvs => exact (h tagged _ hnode (.sequence hvs)).locate q _
  | mapping hes => exact (h tagged _ hnode (.mapping hes)).locate q _
  | @«alias» _ m anchor target v hfind _ hv =>
    have htarget := h false target (hq anchor target hfind) hv
    exact (Agree.follow hfind (htarget.locate q _)).locate q m

/-- Whatever is read from a node and from the value that the node means is the same. -/
def ReadAlike (read : Place → Node → Reading α) (ofValue : Value → Except Mismatch α) : Prop :=
  ∀ (q : Place) (node : Node) (v : Value), q.Unmasked → node.masksNull = false →
    Means q.scope false node v → Agree (read q node) (ofValue v)

/-- **The codec reads a node as it reads the value that the node means**, if it reads both. -/
def Concurs (c : Codec α) : Prop := ReadAlike c.ofNode c.ofValue

/-! ## What a node means, one by one -/

section Means

variable {s : Scope} {tagged : Bool} {m : Mark} {props : Properties} {v : Value}

theorem means_scalar {style : ScalarStyle} {text : String}
    (h : Means s tagged (.scalar m props style text) v) :
    ∃ meaning w, scalarMeaning (Value.isInner tagged props.tag) props.tag style text = .ok meaning ∧
      Value.ofScalar text meaning = .ok w ∧ v = Value.behind tagged props.tag w := by
  cases h with
  | scalar hmeaning hv => exact ⟨_, _, hmeaning, hv, rfl⟩

theorem means_sequence {items : List Node} (h : Means s tagged (.sequence m props items) v) :
    ∃ vs, MeanItems s items vs ∧ v = Value.behind tagged props.tag (.sequence vs) := by
  cases h with
  | sequence hvs => exact ⟨_, hvs, rfl⟩

theorem means_mapping {entries : List (Node × Node)}
    (h : Means s tagged (.mapping m props entries) v) :
    ∃ es, MeanEntries s (Value.isInner tagged props.tag) entries es ∧
      v = Value.behind tagged props.tag (.mapping es) := by
  cases h with
  | mapping hes => exact ⟨_, hes, rfl⟩

theorem not_means_cut : ¬ Means s tagged .cut v := by
  rintro ⟨⟩

/-- A scalar is no collection. -/
theorem untagged_of_means_scalar {style : ScalarStyle} {text : String}
    (h : Means s tagged (.scalar m props style text) v) :
    (∀ vs, v.untagged ≠ .sequence vs) ∧ ∀ es, v.untagged ≠ .mapping es := by
  obtain ⟨meaning, w, -, hw, rfl⟩ := means_scalar h
  rw [Value.untagged_behind]
  cases meaning with
  | int i => simp [Value.eq_int_of_ofScalar hw, Value.untagged]
  | _ => cases hw; simp [Value.untagged]

end Means

/-! ## Scalars -/

/-- Only a string has a text, and it is the text of its scalar. -/
theorem gives_textOfValue {text expected : String} {meaning : Meaning} {w : Value}
    (h : Value.ofScalar text meaning = .ok w) (tagged : Bool) (tag : Option (List UInt8)) :
    Gives (textOfValue expected (Value.behind tagged tag w)) (text = ·) := by
  unfold textOfValue
  rw [Value.untagged_behind]
  cases meaning with
  | int i => rw [Value.eq_int_of_ofScalar h]; exact .error
  | string => cases h; exact .ok rfl
  | _ => cases h; exact .error

theorem agree_text {q : Place} {node : Node} {v : Value} {tagged : Bool} (hq : q.Unmasked)
    (hnode : node.masksNull = false) (hv : Means q.scope tagged node v) (expected expected' : String) :
    Agree (textOfNode expected q node) (textOfValue expected' v) := by
  refine Agree.visit hq hnode hv fun tagged node _ hv => ?_
  cases node with
  | scalar m props style text =>
    obtain ⟨meaning, w, -, hw, rfl⟩ := means_scalar hv
    exact Returns.pure (gives_textOfValue hw tagged props.tag)
  | _ => exact .mismatch _

theorem Concurs.string : Concurs string := fun _ _ _ hq hnode hv => agree_text hq hnode hv _ _

theorem bool?_of_resolve {text : String} {b : Bool} (h : resolve text = .bool b) :
    bool? text = some b := by
  unfold resolve at h
  split at h
  · cases h
  split at h
  case h_1 c hc => cases h; exact hc
  case h_2 =>
    split at h
    · cases h
    split at h
    · cases h
    split at h <;> cases h

/-- Whatever means a truth value has the text of one. -/
theorem bool?_of_scalarMeaning {tagged : Bool} {tag : Option (List UInt8)} {style : ScalarStyle}
    {text : String} {b : Bool} (h : scalarMeaning tagged tag style text = .ok (.bool b)) :
    bool? text = some b := by
  have hplain {P : Prop} [Decidable P] (h : (if P then resolve text else .string) = .bool b) :
      bool? text = some b := by
    split at h
    · exact bool?_of_resolve h
    · cases h
  unfold scalarMeaning at h
  split at h
  · exact hplain (Except.ok.inj h)
  dsimp only at h
  split at h
  · split at h
    case h_1 c hc => cases h; exact hc
    case h_2 => cases h
  split at h
  · split at h <;> cases h
  split at h
  · split at h <;> cases h
  split at h
  · split at h <;> cases h
  · exact hplain (Except.ok.inj h)

theorem Concurs.bool : Concurs bool := by
  intro q node v hq hnode hv
  refine Agree.visit hq hnode hv fun tagged node _ hv => ?_
  cases node with
  | scalar m props style text =>
    obtain ⟨meaning, w, hmeaning, hw, rfl⟩ := means_scalar hv
    dsimp only
    split
    case h_2 => exact .mismatch _
    case h_1 b hb =>
      have htext : bool? text = some b := by
        split at hb
        · exact hb
        · cases hb
      dsimp only [Codec.bool]
      rw [Value.untagged_behind]
      cases meaning with
      | bool c =>
        cases hw
        obtain rfl : c = b := Option.some.inj ((bool?_of_scalarMeaning hmeaning).symm.trans htext)
        exact .pure c
      | int i => rw [Value.eq_int_of_ofScalar hw]; exact .error _
      | _ => cases hw; exact .error _
  | _ => exact .mismatch _

/-! ## Absence -/

/-- Absent values mean null, and no others do. -/
theorem agree_unlessAbsent {q : Place} {node : Node} {v : Value} {absent : α}
    {read : Place → Node → Reading α} {present e : Except Mismatch α} (hq : q.Unmasked)
    (hnode : node.masksNull = false) (hv : Means q.scope false node v)
    (hnull : v = .null → e = .ok absent) (hpresent : v ≠ .null → e = present)
    (hread : ∀ node : Node, node.masksNull = false → Means q.scope false node v →
      Agree (read q node) present) : Agree (unlessAbsent absent read q node) e := by
  refine Agree.target hq hnode hv fun target htarget hcontent hv => ?_
  have hread (h : v ≠ .null) : Agree (read q target) e := hpresent h ▸ hread target htarget hv
  cases target with
  | scalar m props style text =>
    -- Here the two ways could part: what is absent to one has to be the null of the other.
    have hiff := hv.null_iff htarget
    by_cases hstyle : style = .plain
    case neg =>
      have hne : v ≠ .null := fun h => hstyle (hiff.mp h).1
      cases style with
      | plain => exact absurd rfl hstyle
      | _ => exact hread hne
    case pos =>
      subst hstyle
      dsimp only
      cases habsent : isAbsent props.tag text with
      | error c => exact .mismatch c
      | ok absent =>
        rw [habsent] at hiff
        cases absent with
        | true => rw [hnull (hiff.mpr ⟨rfl, rfl⟩)]; exact .pure _
        | false => exact hread fun h => by cases (hiff.mp h).2
  | sequence m props items =>
    obtain ⟨vs, -, rfl⟩ := means_sequence hv
    exact hread (Value.behind_ne_null (by simp [Value.untagged]) _ _)
  | mapping m props entries =>
    obtain ⟨es, -, rfl⟩ := means_mapping hv
    exact hread (Value.behind_ne_null (by simp [Value.untagged]) _ _)
  | «alias» m a => exact absurd rfl (hcontent m a)
  | cut => exact absurd hv not_means_cut

theorem Concurs.option {c : Codec α} (hc : Concurs c) : Concurs (option c) := by
  intro q node v hq hnode hv
  rw [option_ofNode]
  refine agree_unlessAbsent hq hnode hv ?_ (option_ofValue c) fun node hnode hv =>
    (hc q node v hq hnode hv).map some
  rintro rfl
  rfl

theorem Concurs.orDefault {c : Codec α} (hc : Concurs c) (default : α) :
    Concurs (orDefault c default) := by
  intro q node v hq hnode hv
  refine agree_unlessAbsent hq hnode hv ?_ (orDefault_ofValue c default) fun node hnode hv =>
    hc q node v hq hnode hv
  rintro rfl
  rfl

/-! ## Collections -/

theorem agree_items {read : Place → Node → Reading α} {ofValue : Value → Except Mismatch α}
    (h : ReadAlike read ofValue) {q : Place} (hq : q.Unmasked) {nodes : List Node}
    (hnodes : Node.anyMasksNull nodes = false) {vs : List Value} (hvs : MeanItems q.scope nodes vs)
    (i : Nat) : Agree (q.items read i nodes) (vs.mapM ofValue) := by
  induction nodes generalizing vs i with
  | nil => cases hvs; exact .pure []
  | cons node nodes ih =>
    cases hvs with
    | @cons _ v _ vs hv hvs =>
      rw [Node.anyMasksNull, Bool.or_eq_false_iff] at hnodes
      rw [List.mapM_cons]
      refine (h (q.step (.index i)) node v hq hnodes.1 hv).bind fun x => ?_
      exact (ih hnodes.2 hvs (i + 1)).bind fun xs => .pure (x :: xs)

theorem Place.Unmasked.enter {q r : Place} (hq : q.Unmasked) (hr : r.scope = q.scope) :
    r.Unmasked := by
  rwa [Place.Unmasked, hr]

theorem Concurs.list {c : Codec α} (hc : Concurs c) : Concurs (list c) := by
  intro q node v hq hnode hv
  dsimp only [Codec.list]
  refine Agree.visit hq hnode hv fun tagged node hnode hv => ?_
  cases node with
  | sequence m props items =>
    obtain ⟨vs, hvs, rfl⟩ := means_sequence hv
    rw [Value.untagged_behind]
    refine Agree.skip (returns_enter_scope q m) fun r hr => ?_
    exact agree_items hc (hq.enter hr) hnode (hr ▸ hvs) 0
  | scalar m props style text =>
    dsimp only
    split
    case isFalse => exact .mismatch _
    case isTrue =>
      split
      case h_1 vs hvs => exact absurd hvs ((untagged_of_means_scalar hv).1 vs)
      case h_2 => exact .pure []
      case h_3 => exact .error _
  | _ => exact .mismatch _

/-- The entries of a mapping are read alike if each of them is. -/
theorem agree_entries {q : Place} {step : σ → Node → Node → Reading σ}
    {step' : σ → Value × Value → Except Mismatch σ} {tagged : Bool} {entries : List (Node × Node)}
    (hentries : Node.entriesMaskNull entries = false) {es : List (Value × Value)}
    (hes : MeanEntries q.scope tagged entries es)
    (h : ∀ (s : σ) (key node : Node) (k v : Value), key.masksNull = false → node.masksNull = false →
      Means q.scope tagged key k → Means q.scope false node v →
      Agree (step s key node) (step' s (k, v))) (s : σ) :
    Agree (Place.entries step s entries) (es.foldlM step' s) := by
  induction entries generalizing es s with
  | nil => cases hes; exact .pure s
  | cons e entries ih =>
    cases hes with
    | @cons _ key node k v entries es hk hv hes =>
      rw [Node.entriesMaskNull, Bool.or_eq_false_iff, Bool.or_eq_false_iff] at hentries
      rw [List.foldlM_cons]
      exact (h s key node k v hentries.1.1 hentries.1.2 hk hv).bind fun s => ih hentries.2 hes s

/-- A scalar has no entries. -/
theorem gives_entriesOfValue {s : Scope} {tagged : Bool} {m : Mark} {props : Properties}
    {style : ScalarStyle} {text : String} {v : Value}
    (h : Means s tagged (.scalar m props style text) v) (expected : String) :
    Gives (entriesOfValue expected v) (· = []) := by
  unfold entriesOfValue
  split
  case h_1 es hes => exact absurd hes ((untagged_of_means_scalar h).2 es)
  case h_2 => exact .ok rfl
  case h_3 => exact .error

theorem entriesOfValue_behind (expected : String) (tagged : Bool) (tag : Option (List UInt8))
    (es : List (Value × Value)) :
    entriesOfValue expected (Value.behind tagged tag (.mapping es)) = .ok es := by
  rw [entriesOfValue, Value.untagged_behind]
  rfl

theorem Concurs.mapWith {μ : Type} {c : Codec α} {empty : μ} {insert : μ → String → α → μ}
    {entries : μ → List (String × α)} (hc : Concurs c) :
    Concurs (mapWith c empty insert entries) := by
  intro q node v hq hnode hv
  refine Agree.visit hq hnode hv fun tagged node hnode hv => ?_
  cases node with
  | mapping m props entries =>
    obtain ⟨es, hes, rfl⟩ := means_mapping hv
    refine Agree.skip (returns_enter_scope q m) fun r hr => ?_
    refine Agree.after (entriesOfValue_behind ..) ?_
    refine agree_entries hnode (hr ▸ hes) (fun s key node k v hkey hnode hk hv => ?_) empty
    have hr : Place.Unmasked r := hq.enter hr
    refine (agree_text hr hkey hk _ _).bind fun name => ?_
    refine Agree.bind ?_ fun x => .pure (insert s name x)
    exact hc (r.value key) node v (hr.enter (value_scope r key)) hnode ((value_scope r key).symm ▸ hv)
  | scalar m props style text =>
    dsimp only
    split
    case isFalse => exact .mismatch _
    case isTrue =>
      refine Agree.given (gives_entriesOfValue hv _) ?_
      rintro es rfl
      exact .pure empty
  | _ => exact .mismatch _

theorem Concurs.stringTable : Concurs stringTable := .mapWith .string

/-! ## Choices -/

section Choice

variable {names : List (String × α)} {nameOf : α → String} {q : Place} {node : Node}

/-- A node with a tag of its own is a choice by its tag alone, so what stands behind the tag matters
only where there is none. -/
theorem agree_choice_behind {tag : Option (List UInt8)} {w : Value}
    (htag : ownTagOf? node = ownTag? tag)
    (h : ownTag? tag = none →
      Agree (choiceOfContent names q node) ((choice names nameOf).ofValue w)) :
    Agree (choiceOfContent names q node)
      ((choice names nameOf).ofValue (Value.behind false tag w)) := by
  cases hown : ownTag? tag with
  | none => rw [Value.behind_of_none hown]; exact h hown
  | some name =>
    simp only [choiceOfContent, htag, hown]
    rw [Value.behind_of_some hown]
    refine (Agree.lift (choiceOf names name)).bind fun x => ?_
    refine Agree.skip (Returns.trivial (nothingElse q node)) fun _ _ => ?_
    cases w with
    | null => exact .pure x
    | _ => exact .error _

theorem agree_choiceOfContent {v : Value} (hv : Means q.scope false node v) :
    Agree (choiceOfContent names q node) ((choice names nameOf).ofValue v) := by
  cases node with
  | scalar m props style text =>
    obtain ⟨meaning, w, -, hw, rfl⟩ := means_scalar hv
    refine agree_choice_behind rfl fun hown => ?_
    simp only [choiceOfContent, ownTagOf?, hown]
    refine Agree.locate ?_ q _
    cases meaning with
    | string => cases hw; exact .lift _
    | int i => rw [Value.eq_int_of_ofScalar hw]; exact .error _
    | _ => cases hw; exact .error _
  | sequence m props items =>
    obtain ⟨vs, -, rfl⟩ := means_sequence hv
    refine agree_choice_behind rfl fun hown => ?_
    simp only [choiceOfContent, ownTagOf?, hown]
    exact (Agree.mismatch _).locate q _
  | mapping m props entries =>
    obtain ⟨es, -, rfl⟩ := means_mapping hv
    refine agree_choice_behind rfl fun hown => ?_
    simp only [choiceOfContent, ownTagOf?, hown]
    exact (Agree.mismatch _).locate q _
  | «alias» m anchor => exact (Agree.mismatch _).locate q _
  | cut => exact absurd hv not_means_cut

end Choice

theorem Concurs.choice (names : List (String × α)) (nameOf : α → String) :
    Concurs (choice names nameOf) := by
  intro q node v _ _ hv
  cases hv with
  | scalar hmeaning hv => exact agree_choiceOfContent (.scalar hmeaning hv)
  | sequence hvs => exact agree_choiceOfContent (.sequence hvs)
  | mapping hes => exact agree_choiceOfContent (.mapping hes)
  | @«alias» _ m anchor target v hfind _ hv =>
    exact (Agree.follow hfind (agree_choiceOfContent hv)).locate q m

/-! ## Any JSON value -/

namespace AnyJson

/-- A scalar is the same JSON value on either way. -/
theorem ofMeaning_eq_ofValue {text : String} {meaning : Meaning} {w : Value}
    (h : Value.ofScalar text meaning = .ok w) : ofMeaning text meaning = ofValue w := by
  cases meaning with
  | int i => rw [Value.eq_int_of_ofScalar h]; rfl
  | _ => cases h; rfl

theorem ofItems_eq_mapM (vs : List Value) : ofItems vs = vs.mapM ofValue := by
  induction vs with
  | nil => rfl
  | cons v vs ih => rw [ofItems, List.mapM_cons, ih]

/-- Adds an entry to the members before it. -/
def addValue (ms : List (String × Json)) (e : Value × Value) :
    Except Mismatch (List (String × Json)) := do
  let key ← textOfValue (keyText ms.isEmpty) e.1
  let value ← ofValue e.2
  pure (SortedEntries.insert key value ms)

theorem ofEntries_eq_foldlM (ms : List (String × Json)) (es : List (Value × Value)) :
    ofEntries ms es = es.foldlM addValue ms := by
  induction es generalizing ms with
  | nil => rfl
  | cons e es ih =>
    obtain ⟨k, v⟩ := e
    rw [ofEntries, List.foldlM_cons, addValue, bind_assoc]
    refine congrArg _ (funext fun key => ?_)
    rw [bind_assoc]
    refine congrArg _ (funext fun value => ?_)
    rw [pure_bind, ih]

theorem agree_addMember {read : Place → Node → Reading Json} (h : ReadAlike read ofValue) {r : Place}
    {tagged : Bool} {key node : Node} {k v : Value} (hr : r.Unmasked) (hkey : key.masksNull = false)
    (hnode : node.masksNull = false) (hk : Means r.scope tagged key k)
    (hv : Means r.scope false node v) (ms : List (String × Json)) :
    Agree (addMember read r ms key node) (addValue ms (k, v)) := by
  refine (agree_text hr hkey hk _ _).bind fun name => ?_
  refine Agree.bind ?_ fun x => .pure (SortedEntries.insert name x ms)
  exact h (r.value key) node v (hr.enter (value_scope r key)) hnode ((value_scope r key).symm ▸ hv)

theorem agree_ofContent {read : Place → Node → Reading Json} (h : ReadAlike read ofValue) {q : Place}
    {node : Node} {v : Value} (hq : q.Unmasked) (hnode : node.masksNull = false)
    (hv : Means q.scope false node v) : Agree (ofContent read q node) (ofValue v) := by
  refine Agree.locate ?_ q _
  split
  case isTrue => exact .mismatch _
  case isFalse hown =>
    -- Without a tag of its own the value of the node is not wrapped in one.
    rw [Bool.not_eq_true, Option.isSome_eq_false_iff, Option.isNone_iff_eq_none] at hown
    cases node with
    | scalar m props style text =>
      have hown : ownTag? props.tag = none := hown
      obtain ⟨meaning, w, hmeaning, hw, rfl⟩ := means_scalar hv
      rw [Value.isInner, hown] at hmeaning
      have hscalar : scalarMeaning false props.tag style text = .ok meaning := hmeaning
      rw [Value.behind_of_none hown, ← ofMeaning_eq_ofValue hw]
      show Agree (Value.lift ((scalarMeaning false props.tag style text).bind (ofMeaning text))) _
      rw [hscalar]
      exact .lift _
    | sequence m props items =>
      have hown : ownTag? props.tag = none := hown
      obtain ⟨vs, hvs, rfl⟩ := means_sequence hv
      rw [Value.behind_of_none hown]
      refine Agree.skip (returns_enter_scope q m) fun r hr => ?_
      show Agree _ (Json.array <$> ofItems vs)
      rw [ofItems_eq_mapM]
      exact (agree_items h (hq.enter hr) hnode (hr ▸ hvs) 0).map _
    | mapping m props entries =>
      have hown : ownTag? props.tag = none := hown
      obtain ⟨es, hes, rfl⟩ := means_mapping hv
      rw [Value.behind_of_none hown]
      refine Agree.skip (returns_enter_scope q m) fun r hr => ?_
      show Agree _ (Json.object <$> ofEntries [] es)
      rw [ofEntries_eq_foldlM]
      refine Agree.map ?_ _
      exact agree_entries hnode (hr ▸ hes) (fun ms key node k v hkey hnode hk hv =>
        agree_addMember h (hq.enter hr) hkey hnode hk hv ms) []
    | «alias» m anchor => exact .throw _
    | cut => exact .throw _

theorem readAlike_ofNode {read : Place → Node → Reading Json} (h : ReadAlike read ofValue) :
    ReadAlike (ofNode read) ofValue := by
  intro q node v hq hnode hv
  cases hv with
  | scalar hmeaning hv => exact agree_ofContent h hq hnode (.scalar hmeaning hv)
  | sequence hvs => exact agree_ofContent h hq hnode (.sequence hvs)
  | mapping hes => exact agree_ofContent h hq hnode (.mapping hes)
  | @«alias» _ m anchor target v hfind _ hv =>
    exact (Agree.follow hfind (agree_ofContent h hq (hq anchor target hfind) hv)).locate q m

theorem readAlike_readNested (k : Nat) : ReadAlike (readNested k) ofValue := by
  induction k with
  | zero => exact readAlike_ofNode fun _ _ _ _ _ _ => .throw _
  | succ k ih => exact readAlike_ofNode ih

end AnyJson

theorem Concurs.json : Concurs json := fun q node v hq hnode hv =>
  AnyJson.readAlike_readNested q.depth q node v hq hnode hv

/-! ## Records -/

namespace Record

variable {R : Record ρ}

theorem agree_step (h : ∀ f ∈ R.fields, Concurs f.codec) {r : Place} {tagged : Bool}
    {key node : Node} {k v : Value} (hr : r.Unmasked) (hkey : key.masksNull = false)
    (hnode : node.masksNull = false) (hk : Means r.scope tagged key k)
    (hv : Means r.scope false node v) (s : Partial ρ) :
    Agree (R.stepNode r s key node) (R.stepValue s (k, v)) := by
  refine (agree_text hr hkey hk _ _).bind fun name => ?_
  cases hfield : R.field? name with
  | none => exact Agree.skip (Returns.trivial _) fun _ _ => .pure s
  | some f =>
    have hf := h f (List.mem_of_find?_eq_some hfield)
    have hvalue := hf (r.value key) node v (hr.enter (value_scope r key)) hnode
      ((value_scope r key).symm ▸ hv)
    refine (Agree.lift (R.checkRepeat s name)).bind fun _ => ?_
    have hrecord : Agree (f.ofNode (r.value key) node s.record) (f.ofValue v s.record) :=
      hvalue.bind fun x => .pure (f.put x s.record)
    exact hrecord.bind fun record => .pure (Partial.mk record (name :: s.seen))

/-- **A record concurs if all of its fields do.** -/
theorem concurs (h : ∀ f ∈ R.fields, Concurs f.codec) : Concurs R.codec := by
  intro q node v hq hnode hv
  refine Agree.visit hq hnode hv fun tagged node hnode hv => ?_
  cases node with
  | mapping m props entries =>
    obtain ⟨es, hes, rfl⟩ := means_mapping hv
    refine Agree.skip (returns_enter_scope q m) fun r hr => ?_
    refine Agree.after (entriesOfValue_behind ..) (Agree.bind ?_ fun s => .lift _)
    exact agree_entries hnode (hr ▸ hes) (fun s key node k v hkey hnode hk hv =>
      agree_step h (hq.enter hr) hkey hnode hk hv s) _
  | scalar m props style text =>
    dsimp only
    split
    case isFalse => exact .mismatch _
    case isTrue =>
      refine Agree.given (gives_entriesOfValue hv _) ?_
      rintro es rfl
      exact .lift _
  | _ => exact .mismatch _

end Record

end ConfigVault.Codec
