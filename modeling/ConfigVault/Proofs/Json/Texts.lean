import ConfigVault.Proofs.Json.Basic

/-! # The strings of a JSON value

A value holds strings in two roles: as values and as keys.  `Json.all` tests them all, in either role
by a test of its own, and `Json.mapTexts` replaces those that are values.  Nothing is changed by that
if and only if every one of them is left as it is (`Json.mapTexts_eq_self_iff`).
-/
namespace ConfigVault.Json

mutual

/-- Every string that is a value passes one test, and every key the other. -/
def all (text key : String → Bool) : Json → Bool
  | .string s => text s
  | .array vs => allItems text key vs
  | .object ms => allMembers text key ms
  | _ => true

/-- The strings of every item pass. -/
def allItems (text key : String → Bool) : List Json → Bool
  | [] => true
  | v :: vs => all text key v && allItems text key vs

/-- The key and the strings of every member pass. -/
def allMembers (text key : String → Bool) : List (String × Json) → Bool
  | [] => true
  | (k, v) :: ms => key k && all text key v && allMembers text key ms

end

mutual

/-- The value with other strings for those that are values. -/
def mapTexts (f : String → String) : Json → Json
  | .string s => .string (f s)
  | .array vs => .array (mapItems f vs)
  | .object ms => .object (mapMembers f ms)
  | v => v

/-- The items with other strings. -/
def mapItems (f : String → String) : List Json → List Json
  | [] => []
  | v :: vs => mapTexts f v :: mapItems f vs

/-- The members with other strings; their keys stay. -/
def mapMembers (f : String → String) : List (String × Json) → List (String × Json)
  | [] => []
  | (k, v) :: ms => (k, mapTexts f v) :: mapMembers f ms

end

variable {text text' key key' : String → Bool} {f : String → String}

theorem mapItems_eq (vs : List Json) : mapItems f vs = vs.map (mapTexts f) := by
  induction vs with
  | nil => rfl
  | cons v vs ih => rw [mapItems, ih, List.map_cons]

theorem mapMembers_eq (ms : List (String × Json)) :
    mapMembers f ms = ms.map fun m => (m.1, mapTexts f m.2) := by
  induction ms with
  | nil => rfl
  | cons m ms ih => rw [mapMembers, ih, List.map_cons]

/-- **Tests are made together or one after the other.** -/
theorem all_and (v : Json) :
    v.all (fun s => text s && text' s) (fun k => key k && key' k) =
      (v.all text key && v.all text' key') := by
  induction v using Json.induction with
  | array vs ih =>
    show allItems _ _ vs = (allItems _ _ vs && allItems _ _ vs)
    induction vs with
    | nil => rfl
    | cons v vs ihs =>
      rw [allItems, allItems, allItems, ih v (by simp), ihs fun u hu => ih u (by simp [hu])]
      ac_rfl
  | object ms ih =>
    show allMembers _ _ ms = (allMembers _ _ ms && allMembers _ _ ms)
    induction ms with
    | nil => rfl
    | cons m ms ihs =>
      obtain ⟨k, v⟩ := m
      rw [allMembers, allMembers, allMembers, ih (k, v) (by simp),
        ihs fun u hu => ih u (by simp [hu])]
      ac_rfl
  | _ => rfl

/-- **The value is unchanged if and only if its strings are.** -/
theorem mapTexts_eq_self_iff (f : String → String) (v : Json) :
    v.mapTexts f = v ↔ v.all (fun s => f s == s) fun _ => true := by
  induction v using Json.induction with
  | string s => simp [mapTexts, all]
  | array vs ih =>
    rw [mapTexts, all, Json.array.injEq]
    induction vs with
    | nil => simp [mapItems, allItems]
    | cons v vs ihs =>
      rw [mapItems, allItems, List.cons.injEq, Bool.and_eq_true, ih v (by simp),
        ihs fun u hu => ih u (by simp [hu])]
  | object ms ih =>
    rw [mapTexts, all, Json.object.injEq]
    induction ms with
    | nil => simp [mapMembers, allMembers]
    | cons m ms ihs =>
      obtain ⟨k, v⟩ := m
      rw [mapMembers, allMembers, List.cons.injEq, Prod.mk.injEq, Bool.and_eq_true, Bool.and_eq_true,
        ih (k, v) (by simp), ihs fun u hu => ih u (by simp [hu])]
      simp
  | _ => simp [mapTexts, all]

end ConfigVault.Json
