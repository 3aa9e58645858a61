/-!
# String tables

A map from strings to strings whose entries come in no particular order: a list of entries with
distinct keys (`StringTable`).  Two tables that list the same entries differently are the same map,
but they are written differently, in the order in which each happens to list them.
-/

namespace ConfigVault

/-- A map between strings, with an order in which its entries happen to be listed. -/
structure StringTable where
  entries : List (String × String)
  distinct : (entries.map Prod.fst).Nodup

namespace StringTable

/-- The entries with one more; it replaces the entry with the same key. -/
def insertEntry (k v : String) : List (String × String) → List (String × String)
  | [] => [(k, v)]
  | (l, w) :: es => if k = l then (k, v) :: es else (l, w) :: insertEntry k v es

theorem mem_keys_insertEntry {j k v : String} {es : List (String × String)} :
    j ∈ (insertEntry k v es).map Prod.fst ↔ j = k ∨ j ∈ es.map Prod.fst := by
  induction es with
  | nil => simp [insertEntry]
  | cons f es ih =>
    obtain ⟨l, w⟩ := f
    grind [insertEntry]

theorem distinct_insertEntry {k v : String} {es : List (String × String)}
    (h : (es.map Prod.fst).Nodup) : ((insertEntry k v es).map Prod.fst).Nodup := by
  induction es with
  | nil => simp [insertEntry]
  | cons f es ih =>
    obtain ⟨l, w⟩ := f
    rw [List.map_cons, List.nodup_cons] at h
    rw [insertEntry]
    split
    case isTrue hk => subst hk; simpa using h
    case isFalse hk =>
      rw [List.map_cons, List.nodup_cons]
      refine ⟨fun hm => ?_, ih h.2⟩
      rcases mem_keys_insertEntry.1 hm with hl | hl
      · exact hk hl.symm
      · exact h.1 hl

/-- The table without entries. -/
def empty : StringTable := ⟨[], .nil⟩

/-- The table with one more entry; it replaces the one with the same key. -/
def insert (t : StringTable) (k v : String) : StringTable :=
  ⟨insertEntry k v t.entries, distinct_insertEntry t.distinct⟩

/-- The table of these entries; of two with the same key the later wins. -/
def ofList (es : List (String × String)) : StringTable :=
  es.foldl (fun t e => t.insert e.1 e.2) empty

/-- The value of a key. -/
def get? (t : StringTable) (k : String) : Option String := t.entries.lookup k

@[simp] theorem get?_empty (k : String) : empty.get? k = none := rfl

theorem lookup_insertEntry (j k v : String) (es : List (String × String)) :
    (insertEntry k v es).lookup j = if j = k then some v else es.lookup j := by
  induction es with
  | nil => by_cases h : j = k <;> simp [insertEntry, List.lookup_cons, h, beq_eq_false_iff_ne.2]
  | cons f es ih =>
    obtain ⟨l, w⟩ := f
    by_cases hk : k = l
    · subst hk
      by_cases h : j = k <;> simp [insertEntry, List.lookup_cons, h, beq_eq_false_iff_ne.2]
    · rw [insertEntry, if_neg hk]
      by_cases h : j = l
      · subst h; simp [Ne.symm hk]
      · simp [List.lookup_cons, beq_eq_false_iff_ne.2 h, ih]

@[simp] theorem get?_insert (t : StringTable) (j k v : String) :
    (t.insert k v).get? j = if j = k then some v else t.get? j :=
  lookup_insertEntry j k v t.entries

/-- The table can be listed in one order only. -/
def HasOneOrder (t : StringTable) : Prop := t.entries.length ≤ 1

instance (t : StringTable) : Decidable t.HasOneOrder := inferInstanceAs (Decidable (_ ≤ _))

/-- The two tables list the same entries. -/
def Same (s t : StringTable) : Prop := s.entries.Perm t.entries

end StringTable

end ConfigVault
