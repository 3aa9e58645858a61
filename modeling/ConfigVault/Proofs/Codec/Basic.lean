import ConfigVault.Codec.Record
import ConfigVault.Proofs.Codec.Reading
import ConfigVault.Proofs.Maps
import ConfigVault.Proofs.Yaml.Node.Shows
import ConfigVault.Proofs.Yaml.Number
import ConfigVault.Proofs.Yaml.ShownValue

/-! # Codecs read what they write

A codec reads a value as another one (`ReadsAs`) when every node that shows the written form of the
first is read as the second, wherever enough collections can be entered, and when the written form
is read as it from a value too.  Most values are read as themselves.  What a codec reads at all can
be told apart from that (`Yields` and `YieldsValue`): a property of whatever comes out of a node or
a value, at a depth.

Both are proved for one codec from those of its parts.
-/
namespace ConfigVault.Codec

open Yaml

variable {α β : Type}

/-- **The written form of `x` is read as `y`**, where `d` collections can be entered: leniently, with
no alias followed, and strictly. -/
structure ReadsAs (c : Codec α) (d : Nat) (x y : α) : Prop where
  ofNode (p : Place) (node : Node) (hp : d ≤ p.depth) (h : Shows (c.toJson x) node) :
    c.ofNode p node = pure y
  readable : (c.toJson x).Readable d
  ofValue : c.ofValue (Value.ofJson (c.toJson x)) = .ok y

/-- Whatever is read from a node has the property, at the depth that is left there. -/
def Yields (c : Codec α) (P : Nat → α → Prop) : Prop :=
  ∀ (p : Place) (node : Node), Returns (c.ofNode p node) (P p.depth)

/-- No value is written as null. -/
def NeverNull (c : Codec α) : Prop := ∀ x, c.toJson x ≠ .null

theorem Yields.always {c : Codec α} {P : Nat → α → Prop} (h : ∀ d x, P d x) : Yields c P :=
  fun _ _ _ _ _ _ => h _ _

theorem Yields.weaken {c : Codec α} {P Q : Nat → α → Prop} (h : Yields c P)
    (hQ : ∀ d x, P d x → Q d x) : Yields c Q := fun p node => (h p node).weaken (hQ p.depth)

/-! ## Scalars -/

theorem textOfNode_of_shows {s expected : String} {node : Node} (h : Shows (.string s) node)
    (p : Place) : textOfNode expected p node = pure s := by
  cases h
  rfl

theorem ReadsAs.string (d : Nat) (s : String) : ReadsAs string d s s where
  ofNode p _ _ h := textOfNode_of_shows h p
  readable := .string d s
  ofValue := rfl

theorem ReadsAs.bool (d : Nat) (b : Bool) : ReadsAs bool d b b where
  ofNode p node _ h := by
    cases h
    cases b <;> rfl
  readable := .bool d b
  ofValue := rfl

theorem isNarrow_of_isInt64 {i : Int} (h : isInt64 i) : isNarrow i := by
  simp only [isInt64, isNarrow, Bool.and_eq_true, decide_eq_true_eq] at h ⊢
  omega

theorem ReadsAs.int64 (d : Nat) {i : Int} (hi : isInt64 i) : ReadsAs int64 d i i where
  ofNode p node _ h := by
    cases h
    have hread : (if isReadable "int" .none .plain then integer? (toString i).toList
        else none).filter isInt64 = some i := by
      rw [integer?_toString]
      exact (Option.filter_some ..).trans (if_pos hi)
    dsimp only [Codec.int64, Place.visit]
    rw [hread]
    rfl
  readable := .int d (isNarrow_of_isInt64 hi)
  ofValue := if_pos hi

theorem ReadsAs.ofText {expected : String} {parse : String → Except Mismatch α}
    {print : α → String} {x y : α} (h : parse (print x) = .ok y) (d : Nat) :
    ReadsAs (ofText expected parse print) d x y where
  ofNode p node _ hshows := by
    cases hshows
    show p.locate _ (Value.lift (parse (print x))) = _
    rw [h]
    rfl
  readable := .string d (print x)
  ofValue := h

/-- Only numbers that fit are read. -/
theorem Yields.int64 : Yields int64 fun _ i => isInt64 i := by
  intro p node
  refine Returns.visit (fun node => ?_) node
  cases node with
  | scalar m props style text =>
    dsimp only
    split
    case h_1 i hi => exact .pure (Option.filter_eq_some_iff.mp hi).2
    case h_2 => exact .mismatch _
  | _ => exact .mismatch _

/-! ## Absence -/

/-- **What is shown is absent only if it is null.** -/
theorem unlessAbsent_of_shows {v : Json} {node : Node} (h : Shows v node) (hv : v ≠ .null)
    (absent : α) (read : Place → Node → Reading α) (p : Place) :
    unlessAbsent absent read p node = read p node := by
  have hpresent {m : Mark} {text : String} (ht : (text.isEmpty || isNullText text) = false) :
      unlessAbsent absent read p (.scalar m .none .plain text) =
        read p (.scalar m .none .plain text) := by
    have habsent : isAbsent Properties.none.tag text = .ok false := congrArg Except.ok ht
    rw [unlessAbsent]
    simp only [target, pure_bind, habsent]
  have hnumber {s : String} (hs : beginsAsNumber s.toList) :
      (s.isEmpty || isNullText s) = false := by
    rw [isEmpty_of_beginsAsNumber hs, isNullText_of_beginsAsNumber hs]
    rfl
  cases h with
  | null => exact absurd rfl hv
  | bool m b => exact hpresent (by cases b <;> rfl)
  | int m i => exact hpresent (hnumber (beginsAsNumber_int i))
  | float m plus x =>
    exact hpresent (hnumber (by rw [String.toList_ofList]; exact beginsAsNumber_float x plus))
  | @string m style s hkeep =>
    by_cases hstyle : style = .plain
    · subst hstyle
      refine hpresent ?_
      cases hs : (s.isEmpty || isNullText s) with
      | false => rfl
      | true =>
        have := hkeep rfl
        rw [resolve, if_pos hs] at this
        cases this
    · cases style <;> first | exact absurd rfl hstyle | rfl
  | array => rfl
  | object => rfl

theorem unlessAbsent_null {node : Node} (h : Shows .null node) (absent : α)
    (read : Place → Node → Reading α) (p : Place) : unlessAbsent absent read p node = pure absent := by
  cases h
  rfl

theorem option_ofNode (c : Codec α) (p : Place) (node : Node) :
    (option c).ofNode p node =
      unlessAbsent none (fun p node => some <$> c.ofNode p node) p node := rfl

theorem option_ofValue (c : Codec α) {v : Value} (hv : v ≠ .null) :
    (option c).ofValue v = some <$> c.ofValue v := by
  cases v with
  | null => exact absurd rfl hv
  | _ => rfl

/-- A value that is written as null is lost. -/
theorem ReadsAs.some_null {c : Codec α} {x : α} (hx : c.toJson x = .null) (d : Nat) :
    ReadsAs (option c) d (some x) .none := by
  have hjson : (Codec.option c).toJson (Option.some x) = .null := hx
  constructor
  case ofNode =>
    intro p node _ h
    rw [hjson] at h
    rw [option_ofNode]
    exact unlessAbsent_null h _ _ p
  case readable => rw [hjson]; exact .null d
  case ofValue => rw [hjson]; rfl

theorem ReadsAs.some {c : Codec α} {d : Nat} {x y : α} (h : ReadsAs c d x y)
    (hx : c.toJson x ≠ .null) : ReadsAs (option c) d (some x) (some y) where
  ofNode p node hp hshows := by
    have hshows : Shows (c.toJson x) node := hshows
    rw [option_ofNode, unlessAbsent_of_shows hshows hx, h.ofNode p node hp hshows]
    rfl
  readable := h.readable
  ofValue := by
    have hjson : (Codec.option c).toJson (Option.some x) = c.toJson x := rfl
    rw [hjson, option_ofValue c (Value.ofJson_ne_null hx), h.ofValue]
    rfl

theorem orDefault_ofValue (c : Codec α) (default : α) {v : Value} (hv : v ≠ .null) :
    (orDefault c default).ofValue v = c.ofValue v := by
  cases v with
  | null => exact absurd rfl hv
  | _ => rfl

theorem ReadsAs.orDefault {c : Codec α} {d : Nat} {default x y : α} (hx : c.toJson x ≠ .null)
    (h : ReadsAs c d x y) : ReadsAs (orDefault c default) d x y where
  ofNode p node hp hshows := by
    show unlessAbsent _ _ p node = _
    rw [unlessAbsent_of_shows hshows hx]
    exact h.ofNode p node hp hshows
  readable := h.readable
  ofValue := (orDefault_ofValue c default (Value.ofJson_ne_null hx)).trans h.ofValue

theorem Returns.unlessAbsent {P : α → Prop} {absent : α} {read : Place → Node → Reading α}
    {p : Place} (habsent : P absent) (h : ∀ node, Returns (read p node) P) (node : Node) :
    Returns (unlessAbsent absent read p node) P := by
  refine (Returns.trivial (target p node)).bind fun node _ => ?_
  split
  · split
    · exact .mismatch _
    · exact .pure habsent
    · exact h _
  · exact h _

theorem Yields.option {c : Codec α} {P : Nat → α → Prop} (h : Yields c P) :
    Yields (option c) fun d o => ∀ x ∈ o, P d x := by
  intro p node
  rw [option_ofNode]
  refine Returns.unlessAbsent (fun x hx => by cases hx) (fun node => ?_) node
  exact (h p node).map fun x hx y hy => (Option.some.inj hy) ▸ hx

theorem Yields.orDefault {c : Codec α} {P : Nat → α → Prop} {default : α} (hdefault : ∀ d, P d default)
    (h : Yields c P) : Yields (orDefault c default) P := fun p node =>
  Returns.unlessAbsent (hdefault _) (h p) node

/-! ## Collections -/

theorem mapM_ofJson {c : Codec α} {d : Nat} {f : α → α} {xs : List α}
    (h : ∀ x ∈ xs, ReadsAs c d x (f x)) :
    (Value.ofJsonItems (xs.map c.toJson)).mapM c.ofValue = .ok (xs.map f) := by
  induction xs with
  | nil => rfl
  | cons x xs ih =>
    have hxs := ih fun y hy => h y (by simp [hy])
    rw [List.map_cons, Value.ofJsonItems, List.mapM_cons, (h x (by simp)).ofValue, hxs]
    rfl

/-- **A list is read item by item.** -/
theorem ReadsAs.list {c : Codec α} {d : Nat} {f : α → α} {xs : List α}
    (h : ∀ x ∈ xs, ReadsAs c d x (f x)) : ReadsAs (list c) (d + 1) xs (xs.map f) where
  ofNode p node hp hshows := by
    cases hshows with
    | @array m _ nodes hitems =>
      obtain ⟨q, hq, henter⟩ := p.enter_of_lt hp m
      have hread : q.items c.ofNode 0 nodes = pure (xs.map f) := by
        refine q.items_of_shows hitems ?_ 0
        intro x hx r node hr hnode
        exact (h x hx).ofNode r node (by omega) hnode
      show p.locate m (p.enter m >>= fun inner => inner.items c.ofNode 0 _) = _
      rw [henter, pure_bind, hread]
      rfl
  readable := by
    refine .array fun v hv => ?_
    obtain ⟨x, hx, rfl⟩ := List.mem_map.mp hv
    exact (h x hx).readable
  ofValue := mapM_ofJson h

theorem Yields.list {c : Codec α} {P : Nat → α → Prop} (h : Yields c P) :
    Yields (list c) fun d xs => ∀ x ∈ xs, P (d - 1) x := by
  intro p node
  refine Returns.visit (fun node => ?_) node
  cases node with
  | sequence m props items =>
    refine (Returns.enter m).bind fun q hq => ?_
    have hdepth : q.depth = p.depth - 1 := by omega
    have hitem (r : Place) (hr : r.depth = q.depth) (node : Node) :
        Returns (c.ofNode r node) (P q.depth) := hr ▸ h r node
    refine (Returns.items hitem 0 items).weaken fun xs hxs x hx => ?_
    rw [← hdepth]
    exact hxs x hx
  | scalar m props style text =>
    dsimp only
    split
    · exact .pure (by simp)
    · exact .mismatch _
  | _ => exact .mismatch _

theorem entries_of_shows {μ : Type} {c : Codec α} {insert : μ → String → α → μ} {d : Nat} {f : α → α}
    {es : List (String × α)} {p : Place} {entries : List (Node × Node)}
    (h : ∀ e ∈ es, ReadsAs c d e.2 (f e.2)) (hp : d ≤ p.depth)
    (hshows : ShowEntries (es.map fun e => (e.1, c.toJson e.2)) entries) (m : μ) :
    Place.entries (fun m k v => do
      let key ← string.ofNode p k
      let value ← c.ofNode (p.value k) v
      pure (insert m key value)) m entries =
      pure (es.foldl (fun m e => insert m e.1 (f e.2)) m) := by
  induction es generalizing entries m with
  | nil => cases hshows; rfl
  | cons e es ih =>
    cases hshows with
    | cons hk hv hms =>
      rw [Place.entries, (ReadsAs.string d e.1).ofNode _ _ hp hk, pure_bind,
        (h e (by simp)).ofNode _ _ (by simpa using hp) hv, pure_bind, pure_bind,
        ih (fun e he => h e (by simp [he])) hms]
      rfl

theorem foldlM_ofJson {μ : Type} {c : Codec α} {insert : μ → String → α → μ} {d : Nat} {f : α → α}
    {es : List (String × α)} (h : ∀ e ∈ es, ReadsAs c d e.2 (f e.2)) (m : μ) :
    (Value.ofJsonMembers (es.map fun e => (e.1, c.toJson e.2))).foldlM (fun m (k, v) => do
      let key ← string.ofValue k
      let value ← c.ofValue v
      pure (insert m key value)) m =
      (.ok (es.foldl (fun m e => insert m e.1 (f e.2)) m) : Except Mismatch μ) := by
  induction es generalizing m with
  | nil => rfl
  | cons e es ih =>
    have hkey : string.ofValue (.string e.1) = .ok e.1 := rfl
    have hvalue := (h e (by simp)).ofValue
    rw [List.map_cons, Value.ofJsonMembers, List.foldlM_cons, List.foldl_cons,
      ← ih fun e he => h e (by simp [he])]
    dsimp only
    rw [hkey, hvalue]
    rfl

/-- **A map is read entry by entry.** -/
theorem ReadsAs.mapWith {μ : Type} {c : Codec α} {empty : μ} {insert : μ → String → α → μ}
    {entries : μ → List (String × α)} {d : Nat} {m : μ} (h : ∀ e ∈ entries m, ReadsAs c d e.2 e.2)
    (hnames : ((entries m).map Prod.fst).Nodup)
    (hm : (entries m).foldl (fun m e => insert m e.1 e.2) empty = m) :
    ReadsAs (mapWith c empty insert entries) (d + 1) m m where
  ofNode p node hp hshows := by
    cases hshows with
    | object mark hentries =>
      obtain ⟨q, hq, henter⟩ := p.enter_of_lt hp mark
      show p.locate mark (p.enter mark >>= fun inner => Place.entries _ _ _) = _
      rw [henter, pure_bind, entries_of_shows (f := id) h hq hentries, Place.locate_pure]
      exact congrArg pure hm
  readable := by
    refine .object (by simpa [Function.comp_def] using hnames) fun v hv => ?_
    obtain ⟨e, he, rfl⟩ := List.mem_map.mp hv
    exact (h e he).readable
  ofValue := (foldlM_ofJson (f := id) h empty).trans (congrArg Except.ok hm)

theorem ReadsAs.sortedMap {c : Codec α} {d : Nat} {m : SortedMap α}
    (h : ∀ e ∈ m.entries, ReadsAs c d e.2 e.2) : ReadsAs (sortedMap c) (d + 1) m m :=
  .mapWith h m.sorted.nodup m.insertEntries_entries

theorem ReadsAs.stringTable (d : Nat) (t : StringTable) : ReadsAs stringTable (d + 1) t t :=
  .mapWith (fun e _ => .string d e.2) t.distinct t.insertEntries_entries

/-! ## Choices -/

theorem ReadsAs.choice {names : List (String × α)} {nameOf : α → String} {x : α}
    (h : names.lookup (nameOf x) = Option.some x) (d : Nat) :
    ReadsAs (choice names nameOf) d x x := by
  have hchoice : choiceOf names (nameOf x) = .ok x := by rw [choiceOf, h]
  refine ⟨fun p node _ hshows => ?_, .string d (nameOf x), hchoice⟩
  cases hshows
  show p.locate _ (Value.lift (choiceOf names (nameOf x))) = _
  rw [hchoice]
  rfl

/-! ## Values that are never written as null -/

namespace NeverNull

theorem string : NeverNull string := by
  rintro x ⟨⟩

theorem bool : NeverNull bool := by
  rintro x ⟨⟩

theorem int64 : NeverNull int64 := by
  rintro x ⟨⟩

theorem ofText {expected : String} {parse : String → Except Mismatch α} {print : α → String} :
    NeverNull (ofText expected parse print) := by
  rintro x ⟨⟩

theorem list (c : Codec α) : NeverNull (list c) := by
  rintro x ⟨⟩

theorem sortedMap (c : Codec α) : NeverNull (sortedMap c) := by
  rintro x ⟨⟩

theorem choice {names : List (String × α)} {nameOf : α → String} :
    NeverNull (choice names nameOf) := by
  rintro x ⟨⟩

end NeverNull

/-! ## Faithful codecs -/

/-- **What the codec reads it also writes so that it is read again**, where at least `k` collections
can be entered: what comes out of a node has the property, and a value with the property is read as
its normal form. -/
structure Faithful (c : Codec α) (k : Nat) (P : Nat → α → Prop) (normal : α → α) : Prop where
  yields : Yields c P
  reads : ∀ {d : Nat} {x : α}, k ≤ d → P d x → ReadsAs c d x (normal x)

namespace Faithful

theorem string (k : Nat) : Faithful string k (fun _ _ => True) id :=
  ⟨.always fun _ _ => trivial, fun _ _ => .string _ _⟩

theorem bool (k : Nat) : Faithful bool k (fun _ _ => True) id :=
  ⟨.always fun _ _ => trivial, fun _ _ => .bool _ _⟩

theorem int64 (k : Nat) : Faithful int64 k (fun _ i => isInt64 i) id :=
  ⟨.int64, fun _ hi => .int64 _ hi⟩

theorem stringTable (k : Nat) : Faithful stringTable (k + 1) (fun _ _ => True) id := by
  refine ⟨.always fun _ _ => trivial, fun {d} x hd _ => ?_⟩
  obtain ⟨d, rfl⟩ : ∃ e, d = e + 1 := ⟨d - 1, by omega⟩
  exact .stringTable d x

theorem choice {names : List (String × α)} {nameOf : α → String}
    (h : ∀ x, names.lookup (nameOf x) = some x) (k : Nat) :
    Faithful (choice names nameOf) k (fun _ _ => True) id :=
  ⟨.always fun _ _ => trivial, fun _ _ => .choice (h _) _⟩

theorem list {c : Codec α} {k : Nat} {P : Nat → α → Prop} {normal : α → α}
    (h : Faithful c k P normal) :
    Faithful (list c) (k + 1) (fun d xs => ∀ x ∈ xs, P (d - 1) x) (List.map normal) := by
  refine ⟨h.yields.list, fun {d} xs hd hxs => ?_⟩
  obtain ⟨d, rfl⟩ : ∃ e, d = e + 1 := ⟨d - 1, by omega⟩
  exact .list fun x hx => h.reads (by omega) (hxs x hx)

theorem list_id {c : Codec α} {k : Nat} {P : Nat → α → Prop} (h : Faithful c k P id) :
    Faithful (Codec.list c) (k + 1) (fun d xs => ∀ x ∈ xs, P (d - 1) x) id := by
  have hlist := h.list
  rwa [List.map_id_fun] at hlist

theorem orDefault {c : Codec α} {k : Nat} {P : Nat → α → Prop} {default : α} {normal : α → α}
    (hc : NeverNull c) (hdefault : ∀ d, P d default) (h : Faithful c k P normal) :
    Faithful (Codec.orDefault c default) k P normal :=
  ⟨h.yields.orDefault hdefault, fun hd hx => .orDefault (hc _) (h.reads hd hx)⟩

end Faithful

end ConfigVault.Codec
