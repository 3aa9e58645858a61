import ConfigVault.Proofs.Codec.Document

/-! # Reading through another form

Some values can be read in two steps: first in a form that is closer to the text, and then as what that
form decodes to, if it decodes to anything (`Through`).  Whether the second step is taken at once or
only at the end makes no difference to what is read, as long as nothing that fails to decode can be
mended by what is read after it.

There is a rule for each way to put readings together, codecs that read through one another
(`ReadsThrough`) are made of others that do, and so are records, field by field.
-/
namespace ConfigVault.Codec

open Yaml

variable {α β γ δ σ τ ρ ω : Type}

/-- **One reading is another, decoded**: it returns what the result of the other decodes to, and
nothing where that does not decode. -/
def Through (dec : β → Option α) (q : Reading β) (r : Reading α) : Prop :=
  ∀ n x m, r n = .ok (x, m) ↔ ∃ y, q n = .ok (y, m) ∧ dec y = some x

namespace Through

variable {dec : β → Option α} {dec' : δ → Option γ} {q : Reading β} {r : Reading α}

theorem refl (r : Reading α) : Through some r r := by
  intro n x m
  constructor
  · intro h
    exact ⟨x, h, rfl⟩
  · rintro ⟨y, hy, ⟨⟩⟩
    exact hy

theorem pure {y : β} {x : α} (h : dec y = some x) : Through dec (Pure.pure y) (Pure.pure x) := by
  intro n z m
  constructor
  · rintro ⟨⟩
    exact ⟨y, rfl, h⟩
  · rintro ⟨y, ⟨⟩, hz⟩
    obtain rfl : x = z := Option.some.inj (h.symm.trans hz)
    rfl

/-- What never decodes is no better than an error. -/
theorem throw (h : Returns q fun y => dec y = none) (c : ReadError) :
    Through dec q (MonadExcept.throw c) := by
  intro n x m
  constructor
  · rintro ⟨⟩
  · rintro ⟨y, hy, hx⟩
    rw [h n y m hy] at hx
    cases hx

theorem mismatch (c d : Mismatch) : Through dec (Codec.mismatch c) (Codec.mismatch d) :=
  throw (.mismatch c) _

theorem lift {y : β} {e : Except Mismatch α} (h : dec y = e.toOption) :
    Through dec (Pure.pure y) (Value.lift e) := by
  cases e with
  | ok x => exact pure h
  | error c => exact throw (.pure h) _

/-- **What is read after a beginning that decodes goes through as well, and nothing comes of one that
does not.** -/
theorem bind {p : β → Reading δ} {f : α → Reading γ} (h : Through dec q r)
    (hsome : ∀ y x, dec y = some x → Through dec' (p y) (f x))
    (hnone : ∀ y, dec y = none → Returns (p y) fun z => dec' z = none) :
    Through dec' (q >>= p) (r >>= f) := by
  intro n z m
  rw [Reading.bind_eq_ok]
  constructor
  · rintro ⟨x, k, hr, hf⟩
    obtain ⟨y, hq, hdec⟩ := (h n x k).mp hr
    obtain ⟨w, hp, hw⟩ := (hsome y x hdec k z m).mp hf
    exact ⟨w, Reading.bind_eq_ok.mpr ⟨y, k, hq, hp⟩, hw⟩
  · rintro ⟨w, hqp, hw⟩
    obtain ⟨y, k, hq, hp⟩ := Reading.bind_eq_ok.mp hqp
    cases hdec : dec y with
    | none =>
      rw [hnone y hdec k w m hp] at hw
      cases hw
    | some x => exact ⟨x, k, (h n x k).mpr ⟨y, hq, hdec⟩, (hsome y x hdec k z m).mpr ⟨w, hp, hw⟩⟩

/-- Both begin with the same. -/
theorem after (s : Reading σ) {p : σ → Reading β} {f : σ → Reading α}
    (h : ∀ x, Through dec (p x) (f x)) : Through dec (s >>= p) (s >>= f) := by
  refine (refl s).bind (fun y x hx => ?_) fun y hy => by cases hy
  obtain rfl : y = x := Option.some.inj hx
  exact h y

/-- Both results are made into something else. -/
theorem map {f : β → δ} {g : α → γ} (h : Through dec q r)
    (hfg : ∀ y, dec' (f y) = (dec y).map g) : Through dec' (f <$> q) (g <$> r) := by
  rw [map_eq_pure_bind, map_eq_pure_bind]
  refine h.bind (fun y x hx => .pure ?_) fun y hy => .pure ?_
  · rw [hfg, hx]
    rfl
  · rw [hfg, hy]
    rfl

theorem locate (h : Through dec q r) (p : Place) (mark : Mark) :
    Through dec (p.locate mark q) (p.locate mark r) := by
  intro n x m
  have hlocate {ζ : Type} (s : Reading ζ) (z : ζ) :
      p.locate mark s n = .ok (z, m) ↔ s n = .ok (z, m) := mapError_eq_ok
  simp only [hlocate]
  exact h n x m

theorem visit {p : Place} {q : Node → Reading β} {r : Node → Reading α}
    (h : ∀ node, Through dec (q node) (r node)) (node : Node) :
    Through dec (p.visit node q) (p.visit node r) := by
  cases node with
  | «alias» m anchor => exact (after _ fun target => (h target).locate p _).locate p m
  | cut => exact throw (.throw _) _
  | _ => exact (h _).locate p _

/-- **Entries go through one by one**, if nothing comes of a state that does not decode. -/
theorem entries {dec : τ → Option σ} {step' : τ → Node → Node → Reading τ}
    {step : σ → Node → Node → Reading σ}
    (hsome : ∀ t s k v, dec t = some s → Through dec (step' t k v) (step s k v))
    (hnone : ∀ t k v, dec t = none → Returns (step' t k v) fun t => dec t = none) {t : τ} {s : σ}
    (h : dec t = some s) (es : List (Node × Node)) :
    Through dec (Place.entries step' t es) (Place.entries step s es) := by
  induction es generalizing t s with
  | nil => exact pure h
  | cons e es ih =>
    refine (hsome t s e.1 e.2 h).bind (fun t s hs => ih hs) fun t ht => ?_
    exact Returns.entries (I := fun t => dec t = none) ht (fun t k v ht => hnone t k v ht) es

end Through

/-! ## Codecs -/

/-- **One codec reads nodes through another.** -/
def ReadsThrough (dec : β → Option α) (d : Codec β) (c : Codec α) : Prop :=
  ∀ (p : Place) (node : Node), Through dec (d.ofNode p node) (c.ofNode p node)

namespace ReadsThrough

variable {dec : β → Option α} {d : Codec β} {c : Codec α}

theorem refl (c : Codec α) : ReadsThrough some c c := fun _ _ => .refl _

/-- **What is written as a string of a certain form is read through the string.** -/
theorem ofText {expected : String} {parse : String → Except Mismatch α} {print : α → String} :
    ReadsThrough (fun text => (parse text).toOption) string (ofText expected parse print) := by
  intro p node
  refine Through.visit (fun node => ?_) node
  cases node with
  | scalar m props style text => exact .lift rfl
  | _ => exact .mismatch _ _

theorem unlessAbsent {y : β} {x : α} {q : Place → Node → Reading β} {r : Place → Node → Reading α}
    (habsent : dec y = some x) (h : ∀ p node, Through dec (q p node) (r p node)) (p : Place)
    (node : Node) : Through dec (unlessAbsent y q p node) (unlessAbsent x r p node) := by
  refine Through.after _ fun node => ?_
  split
  case h_1 =>
    split
    · exact .mismatch _ _
    · exact .pure habsent
    · exact h p _
  case h_2 => exact h p _

theorem orDefault {y : β} {x : α} (habsent : dec y = some x) (h : ReadsThrough dec d c) :
    ReadsThrough dec (orDefault d y) (orDefault c x) := unlessAbsent habsent h

theorem option (h : ReadsThrough dec d c) :
    ReadsThrough (fun o => o.elim (some none) fun y => (dec y).map some) (option d) (option c) :=
  unlessAbsent rfl fun p node => (h p node).map fun _ => rfl

/-- **The entries of a map go through one by one**, if an entry is put where it belongs before or after
it is decoded. -/
theorem mapWith {μ ν : Type} {decMap : ν → Option μ} {empty : μ} {insert : μ → String → α → μ}
    {entries : μ → List (String × α)} {empty' : ν} {insert' : ν → String → β → ν}
    {entries' : ν → List (String × β)} (h : ReadsThrough dec d c)
    (hempty : decMap empty' = some empty)
    (hinsert : ∀ es k y, decMap (insert' es k y) =
      (decMap es).bind fun m => (dec y).map fun x => insert m k x) :
    ReadsThrough decMap (mapWith d empty' insert' entries') (mapWith c empty insert entries) := by
  intro p node
  refine Through.visit (fun node => ?_) node
  cases node with
  | mapping mark props es =>
    refine .after _ fun inner => .entries (fun es m k v hes => ?_) (fun es k v hes => ?_) hempty _
    · refine .after _ fun key => (h _ v).bind (fun y x hx => .pure ?_) fun y hy => .pure ?_
      · rw [hinsert, hes, hx]
        rfl
      · rw [hinsert, hes, hy]
        rfl
    · refine (Returns.trivial _).bind fun key _ => (Returns.trivial _).bind fun y _ => .pure ?_
      rw [hinsert, hes]
      rfl
  | scalar mark props style text =>
    dsimp only
    split
    · exact .pure hempty
    · exact .mismatch _ _
  | _ => exact .mismatch _ _

end ReadsThrough

/-! ## Records -/

/-- **One field is read through another of the same name**, and decoding a record decodes what was put
into it. -/
structure Field.ReadsThrough (dec : ω → Option ρ) (g : Field ω) (f : Field ρ) : Prop where
  name : g.name = f.name
  required : g.required = f.required
  codec : ∃ part : g.type → Option f.type, Codec.ReadsThrough part g.codec f.codec ∧
    ∀ y w, dec (g.put y w) = (dec w).bind fun s => (part y).map fun x => f.put x s

namespace Record

variable {dec : ω → Option ρ} {S : Record ω} {R : Record ρ}

/-- What a record decodes to that is still being read. -/
def decodePartial (dec : ω → Option ρ) (t : Partial ω) : Option (Partial ρ) :=
  (dec t.record).map fun record => ⟨record, t.seen⟩

/-- What decides which field comes next is the same on both sides. -/
theorem find?_of_forall₂ {gs : List (Field ω)} {fs : List (Field ρ)}
    (h : List.Forall₂ (Field.ReadsThrough dec) gs fs) (P : String → Bool → Bool) :
    Option.Rel (Field.ReadsThrough dec) (gs.find? fun g => P g.name g.required)
      (fs.find? fun f => P f.name f.required) := by
  induction h with
  | nil => exact .none
  | @cons g f gs fs hgf _ ih =>
    rw [List.find?_cons, List.find?_cons, hgf.name, hgf.required]
    cases P f.name f.required with
    | true => exact .some hgf
    | false => exact ih

theorem through_step (hfields : List.Forall₂ (Field.ReadsThrough dec) S.fields R.fields)
    (hrepeats : S.rejectsRepeats = R.rejectsRepeats) (p : Place) {t : Partial ω} {s : Partial ρ}
    (k v : Node) (hs : decodePartial dec t = some s) :
    Through (decodePartial dec) (S.stepNode p t k v) (R.stepNode p s k v) := by
  refine .after _ fun name => ?_
  obtain ⟨record, hrecord, rfl⟩ := Option.map_eq_some_iff.mp hs
  -- Both records look the name up among fields that correspond, so they find corresponding ones.
  have hfield := find?_of_forall₂ hfields fun other _ => other == name
  change Option.Rel _ (S.field? name) (R.field? name) at hfield
  cases hg : S.field? name with
  | none =>
    rw [hg] at hfield
    cases hf : R.field? name with
    | some f => rw [hf] at hfield; cases hfield
    | none => exact .after _ fun _ => .pure hs
  | some g =>
    rw [hg] at hfield
    cases hf : R.field? name with
    | none => rw [hf] at hfield; cases hfield
    | some f =>
      rw [hf] at hfield
      cases hfield with
      | some hgf =>
        obtain ⟨part, hcodec, hput⟩ := hgf.codec
        have hcheck : S.checkRepeat t name = R.checkRepeat ⟨record, t.seen⟩ name := by
          rw [checkRepeat, checkRepeat, hrepeats]
        dsimp only
        rw [hcheck]
        refine .after _ fun _ => ?_
        have hread : Through dec (g.ofNode (p.value k) v t.record) (f.ofNode (p.value k) v record) := by
          refine (hcodec _ v).bind (fun y x hx => .pure ?_) fun y hy => .pure ?_
          · rw [hput, hrecord, hx]
            rfl
          · rw [hput, hrecord, hy]
            rfl
        refine hread.bind (fun w s hw => .pure ?_) fun w hw => .pure ?_
        · rw [decodePartial, hw]
          rfl
        · rw [decodePartial, hw]
          rfl

/-- A record that does not decode is not mended by another entry. -/
theorem returns_step_none (hfields : List.Forall₂ (Field.ReadsThrough dec) S.fields R.fields)
    (p : Place) {t : Partial ω} (k v : Node) (ht : decodePartial dec t = none) :
    Returns (S.stepNode p t k v) fun t => decodePartial dec t = none := by
  refine (Returns.trivial _).bind fun name _ => ?_
  have hrecord : dec t.record = none := Option.map_eq_none_iff.mp ht
  cases hg : S.field? name with
  | none => exact (Returns.trivial _).bind fun _ _ => .pure ht
  | some g =>
    obtain ⟨f, -, hgf⟩ : ∃ f ∈ R.fields, Field.ReadsThrough dec g f := by
      obtain ⟨i, hi, rfl⟩ := List.getElem_of_mem (List.mem_of_find?_eq_some hg)
      have hlength := hfields.length_eq
      exact ⟨R.fields[i], List.getElem_mem _, hfields.get hi (hlength ▸ hi)⟩
    obtain ⟨part, -, hput⟩ := hgf.codec
    refine (Returns.trivial _).bind fun _ _ => ?_
    have hread : Returns (g.ofNode (p.value k) v t.record) fun w => dec w = none := by
      refine (Returns.trivial _).bind fun y _ => .pure ?_
      rw [hput, hrecord]
      rfl
    refine hread.bind fun w hw => .pure ?_
    rw [decodePartial, hw]
    rfl

/-- A record is complete on both sides, or on neither. -/
theorem through_complete (hfields : List.Forall₂ (Field.ReadsThrough dec) S.fields R.fields)
    {t : Partial ω} {s : Partial ρ} (hs : decodePartial dec t = some s) :
    Through dec (Value.lift (S.complete t)) (Value.lift (R.complete s)) := by
  obtain ⟨record, hrecord, rfl⟩ := Option.map_eq_some_iff.mp hs
  have hmissing := find?_of_forall₂ hfields fun name required => required && !t.seen.contains name
  unfold complete
  cases hg : S.fields.find? fun g => g.required && !t.seen.contains g.name with
  | none =>
    rw [hg] at hmissing
    cases hf : R.fields.find? fun f => f.required && !t.seen.contains f.name with
    | some f => rw [hf] at hmissing; cases hmissing
    | none => exact .pure hrecord
  | some g =>
    rw [hg] at hmissing
    cases hf : R.fields.find? fun f => f.required && !t.seen.contains f.name with
    | none => rw [hf] at hmissing; cases hmissing
    | some f => exact .mismatch _ _

theorem returns_complete_none {t : Partial ω} (ht : decodePartial dec t = none) :
    Returns (Value.lift (S.complete t)) fun w => dec w = none := by
  have hrecord : dec t.record = none := Option.map_eq_none_iff.mp ht
  unfold complete
  split
  · exact .mismatch _
  · exact .pure hrecord

/-- **A record is read through another if each of its fields is.** -/
theorem readsThrough (hfields : List.Forall₂ (Field.ReadsThrough dec) S.fields R.fields)
    (hrepeats : S.rejectsRepeats = R.rejectsRepeats) (hblank : dec S.blank = some R.blank) :
    Codec.ReadsThrough dec S.codec R.codec := by
  have hstart : decodePartial dec ⟨S.blank, []⟩ = some ⟨R.blank, []⟩ := by
    rw [decodePartial, hblank]
    rfl
  intro p node
  refine Through.visit (fun node => ?_) node
  cases node with
  | mapping mark props es =>
    refine .after _ fun inner => ?_
    refine Through.bind ?_ (fun t s => through_complete hfields) fun t => returns_complete_none
    exact .entries (fun t s k v => through_step hfields hrepeats inner k v)
      (fun t k v => returns_step_none hfields inner k v) hstart es
  | scalar mark props style text =>
    dsimp only
    split
    · exact through_complete hfields hstart
    · exact .mismatch _ _
  | _ => exact .mismatch _ _

end Record

/-! ## Documents -/

theorem readDocument_eq_ok {read : Place → Node → Reading α} {bytes : List UInt8} {x : α} :
    readDocument read bytes = .ok x ↔ ∃ node n, Document.allOf bytes = [⟨node, none⟩] ∧
      read (Place.root ⟨node, none⟩) node 0 = .ok (x, n) := by
  constructor
  · exact exists_of_readDocument
  · rintro ⟨node, n, hdocument, hread⟩
    have hrun : (read (Place.root ⟨node, none⟩) node).run 0 = .ok (x, n) := hread
    rw [readDocument, hdocument]
    dsimp only
    rw [hrun]
    rfl

/-- **A document is read through another form of its value.** -/
theorem ReadsThrough.readDocument_eq_ok {dec : β → Option α} {d : Codec β} {c : Codec α}
    (h : ReadsThrough dec d c) {bytes : List UInt8} {x : α} :
    readDocument c.ofNode bytes = .ok x ↔
      ∃ y, readDocument d.ofNode bytes = .ok y ∧ dec y = some x := by
  constructor
  · intro hread
    obtain ⟨node, n, hdocument, hx⟩ := Codec.readDocument_eq_ok.mp hread
    obtain ⟨y, hy, hdec⟩ := (h _ _ 0 x n).mp hx
    exact ⟨y, Codec.readDocument_eq_ok.mpr ⟨node, n, hdocument, hy⟩, hdec⟩
  · rintro ⟨y, hread, hdec⟩
    obtain ⟨node, n, hdocument, hy⟩ := Codec.readDocument_eq_ok.mp hread
    exact Codec.readDocument_eq_ok.mpr ⟨node, n, hdocument, (h _ _ 0 x n).mpr ⟨y, hy, hdec⟩⟩

end ConfigVault.Codec
