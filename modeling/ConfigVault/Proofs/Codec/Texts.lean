import ConfigVault.Codec.Record
import ConfigVault.Proofs.Codec.Json
import ConfigVault.Proofs.Json.Texts

/-! # Other strings in what is written

Replacing the strings that are values in the written form is the same as replacing them in the value
itself (`Codec.Retexts`): a codec has a way to do so for each replacement, put together from those of
its parts.  Strings that are made by a codec are plain ASCII, and a replacement leaves those alone.
-/
namespace ConfigVault

/-- The map with other values under its keys. -/
def SortedMap.mapValues {β γ : Type} (g : β → γ) (m : SortedMap β) : SortedMap γ :=
  ⟨m.entries.map fun e => (e.1, g e.2), by
    rw [SortedEntries.Sorted, List.pairwise_map]
    exact m.sorted⟩

/-- Every character is one of the first 128. -/
def IsAscii (cs : List Char) : Prop := ∀ c ∈ cs, c.toNat < 0x80

theorem isAscii_cons {c : Char} {cs : List Char} :
    IsAscii (c :: cs) ↔ c.toNat < 0x80 ∧ IsAscii cs := List.forall_mem_cons

theorem isAscii_append {cs ds : List Char} : IsAscii (cs ++ ds) ↔ IsAscii cs ∧ IsAscii ds :=
  List.forall_mem_append

/-- Replaced strings change nothing about where a value fits. -/
theorem Json.Fits.mapTexts {d : Nat} {v : Json} (h : v.Fits d) (f : String → String) :
    (v.mapTexts f).Fits d := by
  induction h with
  | null => exact .null _
  | bool _ b => exact .bool _ b
  | int _ h => exact .int _ h
  | float _ h => exact .float _ h
  | string _ s => exact .string _ (f s)
  | array _ ih =>
    refine .array fun v hv => ?_
    rw [mapItems_eq] at hv
    obtain ⟨u, hu, rfl⟩ := List.mem_map.mp hv
    exact ih u hu
  | object hsorted _ ih =>
    refine .object ?_ fun m hm => ?_
    · rw [mapMembers_eq, SortedEntries.Sorted, List.pairwise_map]
      exact hsorted
    · rw [mapMembers_eq] at hm
      obtain ⟨u, hu, rfl⟩ := List.mem_map.mp hm
      exact ih u hu

namespace Codec

variable {α β ρ : Type}

/-- What is written of a value changed by `g` is what is written of the value itself, with the strings
replaced by `f`. -/
def Retexts (c : Codec α) (f : String → String) (g : α → α) : Prop :=
  ∀ x, c.toJson (g x) = (c.toJson x).mapTexts f

namespace Retexts

variable {c : Codec α} {f : String → String} {g : α → α}

theorem string : Retexts string f f := fun _ => rfl

theorem bool : Retexts bool f id := fun _ => rfl

theorem int64 : Retexts int64 f id := fun _ => rfl

theorem json : Retexts json f (Json.mapTexts f) := fun _ => rfl

/-- A value that is written as a string of its own making. -/
theorem ofText {expected : String} {parse : String → Except Mismatch α} {print : α → String}
    (h : ∀ x, f (print x) = print x) : Retexts (ofText expected parse print) f id :=
  fun x => congrArg Json.string (h x).symm

theorem option (h : Retexts c f g) : Retexts (option c) f (Option.map g) := by
  rintro (_ | x)
  · rfl
  · exact h x

theorem orDefault (h : Retexts c f g) (default : α) : Retexts (orDefault c default) f g := h

theorem list (h : Retexts c f g) : Retexts (list c) f (List.map g) := by
  intro xs
  show Json.array ((xs.map g).map c.toJson) = .array (Json.mapItems f (xs.map c.toJson))
  rw [Json.mapItems_eq, List.map_map, List.map_map]
  exact congrArg Json.array (List.map_congr_left fun x _ => h x)

theorem sortedMap (h : Retexts c f g) : Retexts (sortedMap c) f (SortedMap.mapValues g) := by
  intro m
  show Json.object ((m.entries.map fun e => (e.1, g e.2)).map fun e => (e.1, c.toJson e.2)) =
    .object (Json.mapMembers f (m.entries.map fun e => (e.1, c.toJson e.2)))
  rw [Json.mapMembers_eq, List.map_map, List.map_map]
  exact congrArg Json.object (List.map_congr_left fun e _ => congrArg (Prod.mk e.1) (h e.2))

end Retexts

/-! ## Records -/

/-- The member of the field, with its strings replaced, is that of the changed record. -/
def Field.Retexts (F : Field ρ) (f : String → String) (g : ρ → ρ) : Prop :=
  ∀ r, F.member (g r) = (F.member r).map fun m => (m.1, m.2.mapTexts f)

/-- **A record is changed field by field.** -/
theorem Retexts.record {R : Record ρ} {f : String → String} {g : ρ → ρ}
    (h : ∀ F ∈ R.fields, F.Retexts f g) : Retexts R.codec f g := by
  intro r
  show Json.object (R.members (g r)) = .object (Json.mapMembers f (R.members r))
  rw [Json.mapMembers_eq, Record.members, Record.members, List.map_filterMap]
  refine congrArg Json.object ?_
  exact List.filterMap_congr fun F hF => h F hF r

namespace Field.Retexts

variable {c : Codec α} {f : String → String} {g : ρ → ρ} {change : α → α} {name : String}

theorem optional {get : ρ → Option α} {put : Option α → ρ → ρ} (h : Codec.Retexts c f change)
    (hget : ∀ r, get (g r) = (get r).map change) :
    Field.Retexts (optionalField name c get put) f g := by
  intro r
  show (if (get (g r)).isNone then none else some (name, (option c).toJson (get (g r)))) =
    (if (get r).isNone then none else some (name, (option c).toJson (get r))).map _
  rw [hget, Option.isNone_map, h.option]
  split <;> rfl

/-- A field that is left as it is. -/
theorem optional_id {get : ρ → Option α} {put : Option α → ρ → ρ} (h : Codec.Retexts c f id)
    (hget : ∀ r, get (g r) = get r) : Field.Retexts (optionalField name c get put) f g :=
  optional h fun r => by rw [hget, Option.map_id_fun, id]

theorem defaulted {get : ρ → α} {put : α → ρ → ρ} (h : Codec.Retexts c f change)
    (hget : ∀ r, get (g r) = change (get r)) :
    Field.Retexts (defaultedField name c get put) f g := by
  intro r
  show some (name, c.toJson (get (g r))) = (some (name, c.toJson (get r))).map _
  rw [hget, h]
  rfl

end Field.Retexts

end Codec

end ConfigVault
