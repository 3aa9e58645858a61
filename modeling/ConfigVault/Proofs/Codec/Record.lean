import ConfigVault.Proofs.Codec.Json

/-! # Records read what they write

A record is put together from its fields as the entries of a mapping come.  When its fields do not
get into each other's way (`Record.Lawful`), every entry that was written puts back what it was
written for, and what was left out is as it is in a blank record (`Record.readsAs`).

What is known of a record that was read at all is an invariant of putting in what the fields read
(`Record.yields`, `Record.yieldsValue`).
-/
namespace ConfigVault.Codec

open Yaml

variable {α ρ : Type}

/-! ## Strict reading -/

/-- Whatever is read from a value that fits has the property at the same depth. -/
def YieldsValue (c : Codec α) (P : Nat → α → Prop) : Prop :=
  ∀ (d : Nat) (v : Value), v.Fits d → Gives (c.ofValue v) (P d)

namespace YieldsValue

theorem always {c : Codec α} {P : Nat → α → Prop} (h : ∀ d x, P d x) : YieldsValue c P :=
  fun _ _ _ _ _ => h _ _

theorem weaken {c : Codec α} {P Q : Nat → α → Prop} (h : YieldsValue c P)
    (hQ : ∀ d x, P d x → Q d x) : YieldsValue c Q := fun d v hv x hx => hQ d x (h d v hv x hx)

theorem json : YieldsValue json Json.Fits := fun _ _ hv => AnyJson.fits_ofValue hv

theorem option {c : Codec α} {P : Nat → α → Prop} (h : YieldsValue c P) :
    YieldsValue (option c) fun d o => ∀ x ∈ o, P d x := by
  intro d v hv
  have hsome : Gives (some <$> c.ofValue v) fun o => ∀ x ∈ o, P d x :=
    (h d v hv).map fun x hx y hy => (Option.some.inj hy) ▸ hx
  cases v with
  | null => exact .ok fun x hx => by cases hx
  | _ => exact hsome

theorem orDefault {c : Codec α} {P : Nat → α → Prop} {default : α} (hdefault : ∀ d, P d default)
    (h : YieldsValue c P) : YieldsValue (orDefault c default) P := by
  intro d v hv
  have hread := h d v hv
  cases v with
  | null => exact .ok (hdefault d)
  | _ => exact hread

theorem list {c : Codec α} {P : Nat → α → Prop} (h : YieldsValue c P) :
    YieldsValue (list c) fun d xs => ∀ x ∈ xs, P (d - 1) x := by
  intro d v hv
  have huntagged := hv.untagged
  dsimp only [Codec.list]
  split
  case h_1 vs heq =>
    rw [heq] at huntagged
    cases huntagged with
    | sequence hvs => exact .mapM fun v hv => h _ v (hvs v hv)
  case h_2 => exact .ok (by simp)
  case h_3 => exact .error

end YieldsValue

theorem fits_entriesOfValue {d : Nat} {v : Value} (hv : v.Fits d) (expected : String) :
    Gives (entriesOfValue expected v) fun es => ∀ e ∈ es, e.2.Fits (d - 1) := by
  have huntagged := hv.untagged
  unfold entriesOfValue
  split
  case h_1 es heq =>
    rw [heq] at huntagged
    cases huntagged with
    | mapping hes => exact .ok hes
  case h_2 => exact .ok (by simp)
  case h_3 => exact .error

/-! ## Fields that do not get into each other's way -/

/-- **The fields of a record are its parts**: they have different names, what is put in can be taken
out again, putting one in leaves the others alone, and all of them together determine the record. -/
structure Record.Lawful (R : Record ρ) : Prop where
  names : (R.fields.map Field.name).Nodup
  get_put : ∀ f ∈ R.fields, ∀ x r, f.get (f.put x r) = x
  apart : R.fields.Pairwise fun f g =>
    (∀ x r, g.get (f.put x r) = g.get r) ∧ ∀ x r, f.get (g.put x r) = f.get r
  ext : ∀ r s, (∀ f ∈ R.fields, f.get r = f.get s) → r = s
  required : ∀ f ∈ R.fields, f.required = true → ∀ x, f.leftOut x = false

/-- How a field comes out of a record that was written: blank if it was left out. -/
def Field.ReadsAs (f : Field ρ) (blank : ρ) (d : Nat) (r s : ρ) : Prop :=
  if f.leftOut (f.get r) then f.get s = f.get blank else Codec.ReadsAs f.codec d (f.get r) (f.get s)

namespace Field.ReadsAs

variable {f : Field ρ} {blank r s : ρ} {d : Nat}

theorem of_leftOut (h : f.ReadsAs blank d r s) (hout : f.leftOut (f.get r) = true) :
    f.get s = f.get blank := by
  rwa [Field.ReadsAs, if_pos hout] at h

theorem of_written (h : f.ReadsAs blank d r s) (hout : f.leftOut (f.get r) = false) :
    Codec.ReadsAs f.codec d (f.get r) (f.get s) := by
  rwa [Field.ReadsAs, hout, if_neg Bool.false_ne_true] at h

end Field.ReadsAs

theorem Field.member_of_leftOut {f : Field ρ} {r : ρ} (h : f.leftOut (f.get r) = true) :
    f.member r = none := if_pos h

theorem Field.member_of_written {f : Field ρ} {r : ρ} (h : f.leftOut (f.get r) = false) :
    f.member r = some (f.name, f.codec.toJson (f.get r)) := if_neg (by simp [h])

namespace Record

variable {R : Record ρ}

/-- A field is found by its name. -/
theorem field?_name (h : R.Lawful) {f : Field ρ} (hf : f ∈ R.fields) : R.field? f.name = some f := by
  have hnames := h.names
  unfold field?
  generalize R.fields = fs at hf hnames
  induction fs with
  | nil => cases hf
  | cons g gs ih =>
    rw [List.map_cons, List.nodup_cons] at hnames
    rcases List.mem_cons.mp hf with rfl | hf
    · simp
    · have hne : g.name ≠ f.name := fun he => hnames.1 (he ▸ List.mem_map_of_mem hf)
      rw [List.find?_cons_of_neg (by simpa using hne)]
      exact ih hf hnames.2

theorem checkRepeat_of_not_mem {s : Partial ρ} {name : String} (h : name ∉ s.seen) :
    R.checkRepeat s name = .ok () := by
  simp [checkRepeat, h]

/-! ## Putting back what was written -/

/-- What was read so far, after the fields of `fs` that `r` does not leave out have been put in as
they are in `s`. -/
def refill (r s : ρ) (acc : Partial ρ) : List (Field ρ) → Partial ρ
  | [] => acc
  | f :: fs =>
    if f.leftOut (f.get r) then refill r s acc fs
    else refill r s ⟨f.put (f.get s) acc.record, f.name :: acc.seen⟩ fs

section refill

variable {r s : ρ} {acc : Partial ρ} {f : Field ρ} {fs : List (Field ρ)}

theorem refill_leftOut (h : f.leftOut (f.get r) = true) :
    refill r s acc (f :: fs) = refill r s acc fs := if_pos h

theorem refill_written (h : f.leftOut (f.get r) = false) :
    refill r s acc (f :: fs) = refill r s ⟨f.put (f.get s) acc.record, f.name :: acc.seen⟩ fs :=
  if_neg (by simp [h])

/-- Other fields are left alone. -/
theorem get_refill_of_apart {g : Field ρ} (hg : ∀ f ∈ fs, ∀ x r, g.get (f.put x r) = g.get r) :
    g.get (refill r s acc fs).record = g.get acc.record := by
  induction fs generalizing acc with
  | nil => rfl
  | cons f fs ih =>
    have hfs : ∀ f ∈ fs, ∀ x r, g.get (f.put x r) = g.get r := fun f hf => hg f (by simp [hf])
    cases hout : f.leftOut (f.get r) with
    | true => rw [refill_leftOut hout, ih hfs]
    | false =>
      rw [refill_written hout, ih hfs]
      exact hg f (by simp) _ _

/-- **The fields come out as they are in `s`**: those that were written have been put in, and those
that were left out are blank in both. -/
theorem get_refill (hput : ∀ f ∈ fs, ∀ x r, f.get (f.put x r) = x)
    (hapart : fs.Pairwise fun f g =>
      (∀ x r, g.get (f.put x r) = g.get r) ∧ ∀ x r, f.get (g.put x r) = f.get r)
    (hblank : ∀ f ∈ fs, f.leftOut (f.get r) = true → f.get s = f.get acc.record) :
    ∀ f ∈ fs, f.get (refill r s acc fs).record = f.get s := by
  induction fs generalizing acc with
  | nil => simp
  | cons f fs ih =>
    rw [List.pairwise_cons] at hapart
    have hput' : ∀ g ∈ fs, ∀ x r, g.get (g.put x r) = x := fun g hg => hput g (by simp [hg])
    -- What comes behind a field leaves it alone, so it is settled when it has been put in.
    have halone : ∀ g ∈ fs, ∀ x r, f.get (g.put x r) = f.get r := fun g hg => (hapart.1 g hg).2
    rw [List.forall_mem_cons]
    cases hout : f.leftOut (f.get r) with
    | true =>
      rw [refill_leftOut hout, get_refill_of_apart halone]
      exact ⟨(hblank f (by simp) hout).symm,
        ih hput' hapart.2 fun g hg => hblank g (by simp [hg])⟩
    | false =>
      rw [refill_written hout, get_refill_of_apart halone]
      refine ⟨hput f (by simp) _ _, ih hput' hapart.2 fun g hg hg' => ?_⟩
      rw [(hapart.1 g hg).1]
      exact hblank g (by simp [hg]) hg'

theorem seen_refill {name : String} (h : name ∈ acc.seen) : name ∈ (refill r s acc fs).seen := by
  induction fs generalizing acc with
  | nil => exact h
  | cons f fs ih =>
    cases hout : f.leftOut (f.get r) with
    | true => rw [refill_leftOut hout]; exact ih h
    | false => rw [refill_written hout]; exact ih (by simp [h])

/-- What was written has been seen. -/
theorem seen_refill_of_written (hf : f ∈ fs) (hout : f.leftOut (f.get r) = false) :
    f.name ∈ (refill r s acc fs).seen := by
  induction fs generalizing acc with
  | nil => cases hf
  | cons g fs ih =>
    rcases List.mem_cons.mp hf with rfl | hf
    · rw [refill_written hout]
      exact seen_refill (by simp)
    · cases hg : g.leftOut (g.get r) with
      | true => rw [refill_leftOut hg]; exact ih hf
      | false => rw [refill_written hg]; exact ih hf

/-- **All fields together make the record.** -/
theorem complete_refill (hR : R.Lawful)
    (hblank : ∀ f ∈ R.fields, f.leftOut (f.get r) = true → f.get s = f.get R.blank) :
    R.complete (refill r s ⟨R.blank, []⟩ R.fields) = .ok s := by
  have hfind : R.fields.find? (fun f => f.required &&
      !(refill r s ⟨R.blank, []⟩ R.fields).seen.contains f.name) = none := by
    rw [List.find?_eq_none]
    intro f hf
    cases hreq : f.required with
    | false => simp
    | true => simp [seen_refill_of_written hf (hR.required f hf hreq _)]
  rw [complete, hfind, hR.ext _ s (get_refill hR.get_put hR.apart hblank)]

/-- A name that comes later has not been seen when the field before it has been. -/
theorem not_seen_cons (hnames : ((f :: fs).map Field.name).Nodup)
    (hseen : ∀ g ∈ f :: fs, g.name ∉ acc.seen) : ∀ g ∈ fs, g.name ∉ f.name :: acc.seen := by
  intro g hg
  rw [List.map_cons, List.nodup_cons] at hnames
  rw [List.mem_cons, not_or]
  exact ⟨fun he => hnames.1 (he ▸ List.mem_map_of_mem hg), hseen g (by simp [hg])⟩

/-- **The written members of some fields put them back**, one after the other. -/
theorem entries_of_shows (hR : R.Lawful) {d : Nat} {p : Place} (hp : d ≤ p.depth)
    (hmem : ∀ f ∈ fs, f ∈ R.fields) (hnames : (fs.map Field.name).Nodup)
    (hread : ∀ f ∈ fs, f.ReadsAs R.blank d r s) {entries : List (Node × Node)}
    (hshows : ShowEntries (fs.filterMap fun f => f.member r) entries)
    (hseen : ∀ f ∈ fs, f.name ∉ acc.seen) :
    Place.entries (R.stepNode p) acc entries = pure (refill r s acc fs) := by
  induction fs generalizing acc entries with
  | nil => cases hshows; rfl
  | cons f fs ih =>
    have hmem' : ∀ g ∈ fs, g ∈ R.fields := fun g hg => hmem g (by simp [hg])
    have hread' : ∀ g ∈ fs, g.ReadsAs R.blank d r s := fun g hg => hread g (by simp [hg])
    have hnames' := (List.nodup_cons.mp hnames).2
    cases hout : f.leftOut (f.get r) with
    | true =>
      simp only [List.filterMap_cons, Field.member_of_leftOut hout] at hshows
      rw [refill_leftOut hout]
      exact ih hmem' hnames' hread' hshows fun g hg => hseen g (by simp [hg])
    | false =>
      simp only [List.filterMap_cons, Field.member_of_written hout] at hshows
      cases hshows with
      | @cons k v ms key node entries hk hv hms =>
        -- The field is found by the key, was not seen before, and puts in what it reads.
        have hvalue := ((hread f (by simp)).of_written hout).ofNode (p.value key) node
          (by simpa using hp) hv
        have hcheck : R.checkRepeat acc f.name = .ok () :=
          checkRepeat_of_not_mem (hseen f (by simp))
        have hstep : R.stepNode p acc key node =
            pure ⟨f.put (f.get s) acc.record, f.name :: acc.seen⟩ := by
          rw [stepNode, textOfNode_of_shows hk, pure_bind, field?_name hR (hmem f (by simp))]
          simp only [hcheck, lift_ok, pure_bind, Field.ofNode, hvalue]
        rw [refill_written hout, Place.entries, hstep, pure_bind]
        exact ih hmem' hnames' hread' hms (not_seen_cons hnames hseen)

/-- The written members put the fields back when they are read as values, too. -/
theorem foldlM_ofJson (hR : R.Lawful) {d : Nat} (hmem : ∀ f ∈ fs, f ∈ R.fields)
    (hnames : (fs.map Field.name).Nodup) (hread : ∀ f ∈ fs, f.ReadsAs R.blank d r s)
    (hseen : ∀ f ∈ fs, f.name ∉ acc.seen) :
    (Value.ofJsonMembers (fs.filterMap fun f => f.member r)).foldlM R.stepValue acc =
      .ok (refill r s acc fs) := by
  -- Names that were seen are those of the fields before, so no name of the rest is refused as
  -- repeated.
  induction fs generalizing acc with
  | nil => rfl
  | cons f fs ih =>
    have hmem' : ∀ g ∈ fs, g ∈ R.fields := fun g hg => hmem g (by simp [hg])
    have hread' : ∀ g ∈ fs, g.ReadsAs R.blank d r s := fun g hg => hread g (by simp [hg])
    have hnames' := (List.nodup_cons.mp hnames).2
    cases hout : f.leftOut (f.get r) with
    | true =>
      simp only [List.filterMap_cons, Field.member_of_leftOut hout]
      rw [refill_leftOut hout]
      exact ih hmem' hnames' hread' fun g hg => hseen g (by simp [hg])
    | false =>
      simp only [List.filterMap_cons, Field.member_of_written hout]
      have hkey : textOfValue keyText (.string f.name) = .ok f.name := rfl
      have hvalue := ((hread f (by simp)).of_written hout).ofValue
      have hcheck : R.checkRepeat acc f.name = .ok () :=
        checkRepeat_of_not_mem (hseen f (by simp))
      have hstep : R.stepValue acc (.string f.name, Value.ofJson (f.codec.toJson (f.get r))) =
          .ok ⟨f.put (f.get s) acc.record, f.name :: acc.seen⟩ := by
        rw [stepValue, hkey]
        simp only [field?_name hR (hmem f (by simp)), hcheck, Field.ofValue, hvalue, bind, pure,
          Except.bind, Except.pure]
      rw [refill_written hout, Value.ofJsonMembers, List.foldlM_cons, hstep]
      exact ih hmem' hnames' hread' (not_seen_cons hnames hseen)

end refill

/-- The members of a record have different names. -/
theorem nodup_members (hR : R.Lawful) (r : ρ) : ((R.members r).map Prod.fst).Nodup := by
  -- The written members are some of the fields, in order, under their own names.
  have hsub : ((R.members r).map Prod.fst).Sublist (R.fields.map Field.name) := by
    unfold members
    induction R.fields with
    | nil => exact List.Sublist.slnil
    | cons f fs ih =>
      cases hout : f.leftOut (f.get r) with
      | true =>
        simp only [List.filterMap_cons, Field.member_of_leftOut hout]
        exact ih.cons _
      | false =>
        simp only [List.filterMap_cons, Field.member_of_written hout]
        exact ih.cons_cons _
  exact hsub.nodup hR.names

/-- **A record is read as its fields are.** -/
theorem readsAs (hR : R.Lawful) {d : Nat} {r s : ρ}
    (h : ∀ f ∈ R.fields, f.ReadsAs R.blank d r s) : Codec.ReadsAs R.codec (d + 1) r s := by
  have hcomplete : R.complete (refill r s ⟨R.blank, []⟩ R.fields) = .ok s :=
    complete_refill hR fun f hf hout => (h f hf).of_leftOut hout
  constructor
  case ofNode =>
    intro p node hp hshows
    cases hshows with
    | @object m _ entries hentries =>
      obtain ⟨q, hq, henter⟩ := p.enter_of_lt hp m
      have hread : Place.entries (R.stepNode q) ⟨R.blank, []⟩ entries =
          pure (refill r s ⟨R.blank, []⟩ R.fields) :=
        entries_of_shows hR hq (fun f hf => hf) hR.names h hentries (by simp)
      show p.locate m (p.enter m >>= fun inner =>
        Place.entries (R.stepNode inner) ⟨R.blank, []⟩ _ >>= fun s => Value.lift (R.complete s)) = _
      rw [henter, pure_bind, hread, pure_bind, hcomplete]
      rfl
  case readable =>
    refine .object (nodup_members hR r) fun m hm => ?_
    obtain ⟨f, hf, hmember⟩ := List.mem_filterMap.mp hm
    cases hout : f.leftOut (f.get r) with
    | true =>
      rw [Field.member_of_leftOut hout] at hmember
      cases hmember
    | false =>
      rw [Field.member_of_written hout] at hmember
      cases hmember
      exact ((h f hf).of_written hout).readable
  case ofValue =>
    have hread : (Value.ofJsonMembers (R.members r)).foldlM R.stepValue ⟨R.blank, []⟩ =
        .ok (refill r s ⟨R.blank, []⟩ R.fields) :=
      foldlM_ofJson hR (fun f hf => hf) hR.names h (by simp)
    show ((Value.ofJsonMembers (R.members r)).foldlM R.stepValue ⟨R.blank, []⟩ >>= R.complete) = _
    rw [hread]
    exact hcomplete

theorem complete_record {s : Partial ρ} {P : ρ → Prop} (h : P s.record) :
    Gives (R.complete s) P := by
  unfold complete
  split
  · exact .error
  · exact .ok h

/-- **Whatever is read keeps the invariant**, if it holds of a blank record and every field keeps it
when it is put in. -/
theorem yields {I : Nat → ρ → Prop} (hblank : ∀ d, I d R.blank)
    (h : ∀ f ∈ R.fields, Yields f.codec fun d x => ∀ r, I d r → I d (f.put x r)) :
    Yields R.codec fun d r => I (d - 1) r := by
  intro p node
  refine Returns.visit (fun node => ?_) node
  cases node with
  | mapping m props entries =>
    refine (Returns.enter m).bind fun q hq => ?_
    have hdepth : p.depth - 1 = q.depth := by omega
    have hentries : Returns (Place.entries (R.stepNode q) ⟨R.blank, []⟩ entries)
        fun s => I q.depth s.record := by
      refine Returns.entries (I := fun s : Partial ρ => I q.depth s.record) (hblank _)
        (fun s k v hs => ?_) entries
      refine (Returns.trivial _).bind fun name _ => ?_
      -- An unknown field changes nothing, whatever its value is.
      split
      case h_1 => exact (Returns.trivial _).bind fun _ _ => .pure hs
      case h_2 f hf =>
        have hfield := h f (List.mem_of_find?_eq_some hf) (q.value k) v
        rw [Place.value_depth] at hfield
        refine (Returns.trivial _).bind fun _ _ => ?_
        refine Returns.bind ?_ fun record (hrecord : I q.depth record) => .pure hrecord
        exact hfield.bind fun x hx => .pure (hx s.record hs)
    refine hentries.bind fun s hs => .lift (complete_record ?_)
    show I (p.depth - 1) s.record
    rw [hdepth]
    exact hs
  | scalar m props style text =>
    dsimp only
    split
    · exact .lift (complete_record (hblank _))
    · exact .mismatch _
  | sequence => exact .mismatch _
  | «alias» => exact .mismatch _
  | cut => exact .mismatch _

/-- Strict reading keeps the invariant as well. -/
theorem yieldsValue {I : Nat → ρ → Prop} (hblank : ∀ d, I d R.blank)
    (h : ∀ f ∈ R.fields, YieldsValue f.codec fun d x => ∀ r, I d r → I d (f.put x r)) :
    YieldsValue R.codec fun d r => I (d - 1) r := by
  intro d v hv
  refine (fits_entriesOfValue hv _).bind fun es hes => ?_
  have hentries : Gives (es.foldlM R.stepValue ⟨R.blank, []⟩) fun s => I (d - 1) s.record := by
    refine .foldlM (hblank _) fun s e he hs => ?_
    refine (Gives.trivial _).bind fun name _ => ?_
    split
    case h_1 => exact .pure hs
    case h_2 f hf =>
      have hfield := h f (List.mem_of_find?_eq_some hf) (d - 1) e.2 (hes e he)
      refine (Gives.trivial _).bind fun _ _ => ?_
      refine Gives.bind ?_ fun record (hrecord : I (d - 1) record) => .pure hrecord
      exact hfield.bind fun x hx => .pure (hx s.record hs)
  exact hentries.bind fun s hs => complete_record hs

end Record

/-! ## Faithful records -/

/-- The field keeps an invariant of the record when it is read, and comes out of a record with the
invariant as it is in the normal form of the record. -/
structure Field.Faithful (f : Field ρ) (blank : ρ) (k : Nat) (I : Nat → ρ → Prop) (normal : ρ → ρ) :
    Prop where
  keeps : Yields f.codec fun d x => ∀ r, I d r → I d (f.put x r)
  reads : ∀ {d : Nat} {r : ρ}, k ≤ d → I d r → f.ReadsAs blank d r (normal r)

/-- **A record is as faithful as its fields.** -/
theorem Record.faithful {R : Record ρ} (hR : R.Lawful) {k : Nat} {I : Nat → ρ → Prop}
    {normal : ρ → ρ} (hblank : ∀ d, I d R.blank)
    (h : ∀ f ∈ R.fields, f.Faithful R.blank k I normal) :
    Codec.Faithful R.codec (k + 1) (fun d r => I (d - 1) r) normal := by
  refine ⟨Record.yields hblank fun f hf => (h f hf).keeps, fun {d} r hd hr => ?_⟩
  obtain ⟨d, rfl⟩ : ∃ e, d = e + 1 := ⟨d - 1, by omega⟩
  exact Record.readsAs hR fun f hf => (h f hf).reads (by omega) hr

/-- A record of plain values is read as it is written, whatever is in it. -/
theorem Record.faithful_free {R : Record ρ} (hR : R.Lawful) {k : Nat}
    (h : ∀ f ∈ R.fields, f.Faithful R.blank k (fun _ _ => True) id) :
    Codec.Faithful R.codec (k + 1) (fun _ _ => True) id :=
  Record.faithful hR (fun _ => trivial) h

theorem NeverNull.record (R : Record ρ) : NeverNull R.codec := by
  rintro x ⟨⟩

namespace Field.Faithful

variable {c : Codec α} {name : String} {blank : ρ} {k : Nat} {P : Nat → α → Prop}
  {I : Nat → ρ → Prop} {normal : ρ → ρ} {g : α → α}

/-- A field that is always written. -/
theorem written {f : Field ρ} (hout : ∀ x, f.leftOut x = false) {P : Nat → f.type → Prop}
    {g : f.type → f.type} (hc : Codec.Faithful f.codec k P g)
    (hput : ∀ d x r, I d r → P d x → I d (f.put x r)) (hget : ∀ d r, I d r → P d (f.get r))
    (hnormal : ∀ r, f.get (normal r) = g (f.get r)) : Field.Faithful f blank k I normal := by
  refine ⟨hc.yields.weaken fun d x hx r hr => hput d x r hr hx, fun {d r} hd hr => ?_⟩
  rw [Field.ReadsAs, hout, if_neg Bool.false_ne_true, hnormal]
  exact hc.reads hd (hget d r hr)

/-- A field that may be missing and is left out then. -/
theorem optional {get : ρ → Option α} {put : Option α → ρ → ρ} (hblank : get blank = none)
    (hnull : NeverNull c) (hc : Codec.Faithful c k P g)
    (hput : ∀ d o r, I d r → (∀ x ∈ o, P d x) → I d (put o r))
    (hget : ∀ d r, I d r → ∀ x ∈ get r, P d x) (hnormal : ∀ r, get (normal r) = (get r).map g) :
    Field.Faithful (optionalField name c get put) blank k I normal := by
  refine ⟨hc.yields.option.weaken fun d o ho r hr => hput d o r hr ho, fun {d r} hd hr => ?_⟩
  have hfield : (optionalField name c get put).get = get := rfl
  rw [Field.ReadsAs, hfield, hnormal, hblank]
  cases hr' : get r with
  | none => rfl
  | some x =>
    rw [if_neg (by simp [optionalField])]
    exact .some (hc.reads hd (hget d r hr x hr')) (hnull x)

/-- A field of plain values, which the invariant does not speak of. -/
theorem optional_plain {get : ρ → Option α} {put : Option α → ρ → ρ} (hblank : get blank = none)
    (hnull : NeverNull c) (hc : Codec.Faithful c k (fun _ _ => True) id)
    (hput : ∀ d o r, I d r → I d (put o r)) (hnormal : ∀ r, get (normal r) = get r) :
    Field.Faithful (optionalField name c get put) blank k I normal :=
  optional hblank hnull hc (fun d o r hr _ => hput d o r hr) (fun _ _ _ _ _ => trivial)
    fun r => by simp [hnormal]

/-- A field of plain values in a record of plain values. -/
theorem optional_free {get : ρ → Option α} {put : Option α → ρ → ρ} (hblank : get blank = none)
    (hnull : NeverNull c) (hc : Codec.Faithful c k (fun _ _ => True) id) :
    Field.Faithful (optionalField name c get put) blank k (fun _ _ => True) id :=
  optional_plain hblank hnull hc (fun _ _ _ _ => trivial) fun _ => rfl

theorem written_free {f : Field ρ} (hout : ∀ x, f.leftOut x = false)
    (hc : Codec.Faithful f.codec k (fun _ _ => True) id) :
    Field.Faithful f blank k (fun _ _ => True) id :=
  written hout hc (fun _ _ _ _ _ => trivial) (fun _ _ _ => trivial) fun _ => rfl

end Field.Faithful

end ConfigVault.Codec
