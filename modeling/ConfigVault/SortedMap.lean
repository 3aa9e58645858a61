/-!
# Sorted maps

A map from strings that is written in the order of its keys: a list of entries whose keys strictly
increase (`SortedMap`).  The operations are those of the list, and `get?` is what they are
described by: a later insertion under the same key wins, and other keys are not touched.
-/

namespace ConfigVault

namespace SortedEntries

variable {β : Type}

/-- The keys strictly increase. -/
def Sorted (es : List (String × β)) : Prop :=
  es.Pairwise fun a b => a.1 < b.1

/-- The entries with one more; it replaces the entry with the same key. -/
def insert (k : String) (v : β) : List (String × β) → List (String × β)
  | [] => [(k, v)]
  | (l, w) :: es =>
    if k < l then (k, v) :: (l, w) :: es
    else if k = l then (k, v) :: es
    else (l, w) :: insert k v es

/-- The entries without the one with this key. -/
def erase (k : String) (es : List (String × β)) : List (String × β) :=
  es.filter fun e => e.1 != k

theorem mem_insert {k : String} {v : β} {e : String × β} {es : List (String × β)}
    (h : e ∈ insert k v es) : e = (k, v) ∨ e ∈ es := by
  induction es with
  | nil => simpa [insert] using h
  | cons f es ih =>
    obtain ⟨l, w⟩ := f
    grind [insert]

theorem sorted_insert {k : String} {v : β} {es : List (String × β)} (h : Sorted es) :
    Sorted (insert k v es) := by
  induction es with
  | nil => simp [insert, Sorted]
  | cons f es ih =>
    obtain ⟨l, w⟩ := f
    have hl := List.pairwise_cons.1 h
    rw [insert]
    split
    case isTrue hk =>
      exact List.pairwise_cons.2 ⟨fun e he => by
        rcases List.mem_cons.1 he with rfl | he
        · exact hk
        · exact String.lt_trans hk (hl.1 e he), h⟩
    case isFalse hk =>
      split
      case isTrue he => subst he; exact List.pairwise_cons.2 ⟨hl.1, hl.2⟩
      case isFalse he =>
        refine List.pairwise_cons.2 ⟨fun e hm => ?_, ih hl.2⟩
        rcases mem_insert hm with rfl | hm
        · exact String.not_le.1 fun hle => he (String.le_antisymm hle (String.not_lt.1 hk))
        · exact hl.1 e hm

theorem sorted_erase {k : String} {es : List (String × β)} (h : Sorted es) :
    Sorted (erase k es) :=
  h.filter _

theorem lookup_entry_cons (j l : String) (w : β) (es : List (String × β)) :
    ((l, w) :: es).lookup j = if j = l then some w else es.lookup j := by
  by_cases h : j = l
  · subst h; simp
  · simp [List.lookup_cons, h, beq_eq_false_iff_ne.2 h]

@[simp] theorem lookup_insert (j k : String) (v : β) (es : List (String × β)) :
    (insert k v es).lookup j = if j = k then some v else es.lookup j := by
  induction es with
  | nil => simp [insert, lookup_entry_cons]
  | cons f es ih =>
    obtain ⟨l, w⟩ := f
    grind [insert, lookup_entry_cons]

@[simp] theorem lookup_erase (j k : String) (es : List (String × β)) :
    (erase k es).lookup j = if j = k then none else es.lookup j := by
  induction es with
  | nil => simp [erase]
  | cons f es ih =>
    obtain ⟨l, w⟩ := f
    rw [erase] at ih
    rw [erase, List.filter_cons]
    grind [lookup_entry_cons]

/-- A key below all others is not among them. -/
theorem lookup_of_lt {k : String} {es : List (String × β)} (h : ∀ e ∈ es, k < e.1) :
    es.lookup k = none := by
  induction es with
  | nil => rfl
  | cons f es ih =>
    obtain ⟨l, w⟩ := f
    have hk : k ≠ l := fun he => String.lt_irrefl k (he ▸ h (l, w) (List.mem_cons_self ..))
    rw [lookup_entry_cons, if_neg hk]
    exact ih fun e he => h e (List.mem_cons_of_mem _ he)

/-- **Sorted entries are determined by what they say about each key.** -/
theorem ext_lookup {as bs : List (String × β)} (ha : Sorted as) (hb : Sorted bs)
    (h : ∀ k, as.lookup k = bs.lookup k) : as = bs := by
  induction as generalizing bs with
  | nil =>
    cases bs with
    | nil => rfl
    | cons g bs => have := h g.1; rw [lookup_entry_cons] at this; simp at this
  | cons f as ih =>
    obtain ⟨k, v⟩ := f
    cases bs with
    | nil => have := h k; simp at this
    | cons g bs =>
      obtain ⟨l, w⟩ := g
      have hka := List.pairwise_cons.1 ha
      have hlb := List.pairwise_cons.1 hb
      have hk := h k
      have hl := h l
      simp only [lookup_entry_cons, if_true] at hk hl
      have hkl : k = l := by
        by_cases hne : k = l
        · exact hne
        · rcases Std.lt_trichotomy k l with hlt | he | hgt
          · rw [if_neg hne, lookup_of_lt fun e he => String.lt_trans hlt (hlb.1 e he)] at hk
            exact absurd hk (by simp)
          · exact he
          · rw [if_neg (Ne.symm hne), lookup_of_lt fun e he => String.lt_trans hgt (hka.1 e he)]
              at hl
            exact absurd hl (by simp)
      subst hkl
      have hvw : v = w := by simpa using hk
      subst hvw
      rw [ih hka.2 hlb.2 fun j => ?_]
      have hj := h j
      simp only [lookup_entry_cons] at hj
      by_cases hjk : j = k
      · rw [hjk, lookup_of_lt hka.1, lookup_of_lt hlb.1]
      · simpa [hjk] using hj

end SortedEntries

/-- A map from strings, in the order of its keys. -/
structure SortedMap (β : Type) where
  entries : List (String × β)
  sorted : SortedEntries.Sorted entries

namespace SortedMap

variable {β : Type}

instance [DecidableEq β] : DecidableEq (SortedMap β) := fun a b =>
  decidable_of_iff (a.entries = b.entries) ⟨fun h => by cases a; cases b; simp_all, fun h => h ▸ rfl⟩

/-- The map without entries. -/
def empty : SortedMap β := ⟨[], .nil⟩

/-- The value of a key. -/
def get? (m : SortedMap β) (k : String) : Option β := m.entries.lookup k

/-- The map with one more entry; it replaces the one with the same key. -/
def insert (m : SortedMap β) (k : String) (v : β) : SortedMap β :=
  ⟨SortedEntries.insert k v m.entries, SortedEntries.sorted_insert m.sorted⟩

/-- The map without a key. -/
def erase (m : SortedMap β) (k : String) : SortedMap β :=
  ⟨SortedEntries.erase k m.entries, SortedEntries.sorted_erase m.sorted⟩

/-- The map with all of these entries; of two with the same key the later wins. -/
def insertAll (m : SortedMap β) (es : List (String × β)) : SortedMap β :=
  es.foldl (fun m e => m.insert e.1 e.2) m

/-- The map of these entries. -/
def ofList (es : List (String × β)) : SortedMap β := empty.insertAll es

/-- The keys in order. -/
def keys (m : SortedMap β) : List String := m.entries.map Prod.fst

@[simp] theorem get?_empty (k : String) : (empty : SortedMap β).get? k = none := rfl

@[simp] theorem get?_insert (m : SortedMap β) (j k : String) (v : β) :
    (m.insert k v).get? j = if j = k then some v else m.get? j :=
  SortedEntries.lookup_insert j k v m.entries

@[simp] theorem get?_erase (m : SortedMap β) (j k : String) :
    (m.erase k).get? j = if j = k then none else m.get? j :=
  SortedEntries.lookup_erase j k m.entries

/-- **A sorted map is determined by the values of its keys.** -/
theorem ext_get? {a b : SortedMap β} (h : ∀ k, a.get? k = b.get? k) : a = b := by
  obtain ⟨as, ha⟩ := a
  obtain ⟨bs, hb⟩ := b
  simpa using SortedEntries.ext_lookup ha hb h

end SortedMap

end ConfigVault
