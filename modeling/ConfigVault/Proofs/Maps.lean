import ConfigVault.SortedMap
import ConfigVault.StringTable

/-! # Maps from their entries

A map that is built up from its own entries, one after the other, is the map again: each entry
goes behind the ones before it (`SortedMap.insertEntries_entries`,
`StringTable.insertEntries_entries`).  A string table keeps the very order of its entries that way.
-/
namespace ConfigVault

namespace SortedEntries

variable {β : Type}

/-- An entry with a key above all others goes behind them. -/
theorem insert_eq_append {k : String} {v : β} {es : List (String × β)} (h : ∀ e ∈ es, e.1 < k) :
    insert k v es = es ++ [(k, v)] := by
  induction es with
  | nil => rfl
  | cons f es ih =>
    obtain ⟨l, w⟩ := f
    have hl : l < k := h (l, w) (by simp)
    have hne : k ≠ l := fun he => String.lt_irrefl l (he ▸ hl)
    rw [insert, if_neg (String.lt_asymm hl), if_neg hne, ih fun e he => h e (by simp [he])]
    rfl

/-- No two entries in order have the same key. -/
theorem Sorted.nodup {es : List (String × β)} (h : Sorted es) : (es.map Prod.fst).Nodup := by
  rw [List.Nodup, List.pairwise_map]
  refine h.imp fun hlt => ?_
  exact String.ne_of_lt hlt

/-- **Sorted entries are inserted one behind the other.** -/
theorem foldl_insert {es fs : List (String × β)} (h : Sorted (es ++ fs)) :
    fs.foldl (fun m e => insert e.1 e.2 m) es = es ++ fs := by
  induction fs generalizing es with
  | nil => simp
  | cons f fs ih =>
    have hlt : ∀ e ∈ es, e.1 < f.1 := fun e he =>
      (List.pairwise_append.mp h).2.2 e he f (by simp)
    rw [List.foldl_cons, insert_eq_append hlt, ih (by simpa using h)]
    simp

end SortedEntries

namespace SortedMap

variable {β : Type}

theorem entries_foldl_insert (m : SortedMap β) (es : List (String × β)) :
    (es.foldl (fun m e => m.insert e.1 e.2) m).entries =
      es.foldl (fun m e => SortedEntries.insert e.1 e.2 m) m.entries := by
  induction es generalizing m with
  | nil => rfl
  | cons e es ih => exact ih (m.insert e.1 e.2)

theorem eq_of_entries {a b : SortedMap β} (h : a.entries = b.entries) : a = b := by
  cases a
  cases b
  simpa using h

/-- **A sorted map is what its entries make.** -/
theorem insertEntries_entries (m : SortedMap β) :
    m.entries.foldl (fun m e => m.insert e.1 e.2) empty = m := by
  apply eq_of_entries
  rw [entries_foldl_insert]
  exact SortedEntries.foldl_insert m.sorted

end SortedMap

namespace StringTable

theorem insertEntry_eq_append {k v : String} {es : List (String × String)}
    (h : k ∉ es.map Prod.fst) : insertEntry k v es = es ++ [(k, v)] := by
  induction es with
  | nil => rfl
  | cons f es ih =>
    obtain ⟨l, w⟩ := f
    rw [List.map_cons, List.mem_cons, not_or] at h
    rw [insertEntry, if_neg h.1, ih h.2]
    rfl

theorem foldl_insertEntry {es fs : List (String × String)} (h : ((es ++ fs).map Prod.fst).Nodup) :
    fs.foldl (fun m e => insertEntry e.1 e.2 m) es = es ++ fs := by
  induction fs generalizing es with
  | nil => simp
  | cons f fs ih =>
    have hmem : f.1 ∉ es.map Prod.fst := by
      rw [List.map_append, List.nodup_append] at h
      exact fun hm => h.2.2 f.1 hm f.1 (by simp) rfl
    rw [List.foldl_cons, insertEntry_eq_append hmem, ih (by simpa using h)]
    simp

theorem entries_foldl_insert (t : StringTable) (es : List (String × String)) :
    (es.foldl (fun t e => t.insert e.1 e.2) t).entries =
      es.foldl (fun m e => insertEntry e.1 e.2 m) t.entries := by
  induction es generalizing t with
  | nil => rfl
  | cons e es ih => exact ih (t.insert e.1 e.2)

theorem eq_of_entries {s t : StringTable} (h : s.entries = t.entries) : s = t := by
  cases s
  cases t
  simpa using h

/-- **A string table is what its entries make**, in the order that it lists them. -/
theorem insertEntries_entries (t : StringTable) :
    t.entries.foldl (fun t e => t.insert e.1 e.2) empty = t := by
  apply eq_of_entries
  rw [entries_foldl_insert]
  exact foldl_insertEntry t.distinct

theorem nodup_entries (t : StringTable) : t.entries.Nodup :=
  List.Pairwise.of_map Prod.fst (fun _ _ h he => h (congrArg Prod.fst he)) t.distinct

theorem mem_entries_iff {t : StringTable} {k v : String} :
    (k, v) ∈ t.entries ↔ t.get? k = some v := by
  obtain ⟨es, hes⟩ := t
  rw [get?]
  induction es with
  | nil => simp
  | cons e es ih =>
    obtain ⟨l, w⟩ := e
    rw [List.map_cons, List.nodup_cons] at hes
    have hrest := ih hes.2
    rw [List.mem_cons, List.lookup_cons]
    by_cases hk : k = l
    · subst hk
      have hnot : (k, v) ∉ es := fun hm =>
        hes.1 (List.mem_map.mpr ⟨(k, v), hm, rfl⟩)
      simp [hnot, eq_comm]
    · rw [beq_eq_false_iff_ne.mpr hk]
      simpa [hk] using hrest

/-- **Tables are the same when they have the same value under every key.** -/
theorem same_iff {s t : StringTable} : s.Same t ↔ ∀ k, s.get? k = t.get? k := by
  constructor
  · intro h k
    ext v
    rw [← mem_entries_iff, ← mem_entries_iff]
    exact h.mem_iff
  · intro h
    refine (List.perm_ext_iff_of_nodup s.nodup_entries t.nodup_entries).mpr ?_
    rintro ⟨k, v⟩
    rw [mem_entries_iff, mem_entries_iff, h]

end StringTable

end ConfigVault
