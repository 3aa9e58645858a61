import ConfigVault.Proofs.Codec.Through
import ConfigVault.Secret.Codec

/-! # Secrets as they are written

Of a manifest, a secret keeps only what counts: the octets under each key of the last `data` that is
given.  A `WrittenSecret` is closer to the text.  It has every entry of every `data` in the order in
which they were written, with texts that may or may not be Base64.  A secret is read from a document
exactly if it is what a written one decodes to (`Secret.ofBytes_eq_ok`).

Everything under `data` has to be Base64, also what does not count; the last text under a key of the
last `data` does (`WrittenSecret.get?_of_secret?`).
-/
namespace ConfigVault

open Codec

/-- A secret as its manifest writes it. -/
structure WrittenSecret where
  /-- What is given as data, each time that it is. -/
  data : List (Option (List (String × String)))
  immutable : Option Bool
  metadata : ObjectMeta
  stringData : Option (SortedMap String)
  type : Option String

namespace WrittenSecret

/-- A secret of which nothing is written. -/
def empty : WrittenSecret := ⟨[], none, .empty, none, none⟩

/-- The entries of a map from strings to texts, in the order in which they are written. -/
def entriesCodec : Codec (List (String × String)) :=
  mapWith (orDefault string "") [] (fun es key text => es ++ [(key, text)]) id

/-- The fields of a secret, with its data as it is written. -/
def record : Record WrittenSecret where
  title := "Secret"
  blank := empty
  rejectsRepeats := false
  fields := [
    constantField "apiVersion" "v1",
    constantField "kind" "Secret",
    optionalField "data" entriesCodec (fun w => w.data.getLast?.join)
      fun x w => { w with data := w.data ++ [x] },
    optionalField "immutable" bool immutable fun x w => { w with immutable := x },
    defaultedField "metadata" (orDefault ObjectMeta.record.codec .empty) metadata
      fun x w => { w with metadata := x },
    optionalField "stringData" (sortedMap string) stringData
      fun x w => { w with stringData := x },
    optionalField "type" string type fun x w => { w with type := x }]

/-- Reads a secret as it is written from the octets of a document. -/
def ofBytes (bytes : List UInt8) : Except ReadError WrittenSecret :=
  readDocument record.ofNode bytes

/-! ## Decoding -/

/-- The octets that a text stands for, if it is Base64. -/
def octets? (text : String) : Option (List UInt8) :=
  (Text.Base64.decode? (Text.Utf8.encodeString text)).toOption

/-- The map of these entries, if all of their texts are Base64; the last one under a key counts. -/
def decodeEntries (es : List (String × String)) : Option (SortedMap (List UInt8)) :=
  es.foldlM (fun m e => (octets? e.2).map fun octets => m.insert e.1 octets) .empty

/-- What was given as data once. -/
def decodeMember (member : Option (List (String × String))) :
    Option (Option (SortedMap (List UInt8))) :=
  member.elim (some none) fun es => (decodeEntries es).map some

/-- All that was given as data has to be Base64, and the last of it counts. -/
def decodeMembers (members : List (Option (List (String × String)))) :
    Option (Option (SortedMap (List UInt8))) :=
  members.foldlM (fun _ member => decodeMember member) none

/-- **The secret that is written**, if its data is Base64. -/
def secret? (w : WrittenSecret) : Option Secret :=
  (decodeMembers w.data).map fun data => ⟨data, w.immutable, w.metadata, w.stringData, w.type⟩

theorem decodeEntries_append_singleton (es : List (String × String)) (key text : String) :
    decodeEntries (es ++ [(key, text)]) =
      (decodeEntries es).bind fun m => (octets? text).map fun octets => m.insert key octets := by
  rw [decodeEntries, List.foldlM_append]
  refine congrArg _ (funext fun m => ?_)
  rw [List.foldlM_cons]
  cases octets? text <;> rfl

theorem decodeMembers_append_singleton (members : List (Option (List (String × String))))
    (member : Option (List (String × String))) :
    decodeMembers (members ++ [member]) =
      (decodeMembers members).bind fun _ => decodeMember member := by
  rw [decodeMembers, List.foldlM_append]
  refine congrArg _ (funext fun _ => ?_)
  rw [List.foldlM_cons]
  cases decodeMember member <;> rfl

/-! ## Secrets are read through what is written -/

/-- A codec of octets reads Base64. -/
theorem readsThrough_octets : ReadsThrough octets? string octets := by
  have hoctets : octets? = fun text =>
      ((Text.Base64.decode? (Text.Utf8.encodeString text)).mapError
        fun fault => Mismatch.badContent fault.message).toOption := by
    funext text
    rw [octets?]
    cases Text.Base64.decode? (Text.Utf8.encodeString text) <;> rfl
  rw [hoctets]
  exact .ofText

theorem readsThrough_entries :
    ReadsThrough decodeEntries entriesCodec (sortedMap (orDefault octets [])) :=
  .mapWith (readsThrough_octets.orDefault rfl) rfl decodeEntries_append_singleton

/-- A field that is written as it is read. -/
theorem through_field {α : Type} {name : String} {required : Bool} {c : Codec α}
    {get' : WrittenSecret → α} {put' : α → WrittenSecret → WrittenSecret} {get : Secret → α}
    {put : α → Secret → Secret} {leftOut' leftOut : α → Bool}
    (h : ∀ x w, (put' x w).secret? = w.secret?.map (put x)) :
    Field.ReadsThrough secret? ⟨name, α, c, get', put', required, leftOut'⟩
      ⟨name, α, c, get, put, required, leftOut⟩ where
  name := rfl
  required := rfl
  codec := by
    refine ⟨some, .refl c, fun x w => ?_⟩
    show (put' x w).secret? = w.secret?.bind fun s => some (put x s)
    rw [h]
    cases w.secret? <;> rfl

theorem readsThrough : ReadsThrough secret? record.codec Secret.record.codec := by
  refine Record.readsThrough ?_ rfl rfl
  refine .cons (through_field fun x w => ?_) <| .cons (through_field fun x w => ?_) <| .cons ?_ <|
    .cons (through_field fun x w => ?_) <| .cons (through_field fun x w => ?_) <|
    .cons (through_field fun x w => ?_) <| .cons (through_field fun x w => ?_) .nil
  case refine_3 =>
    refine ⟨rfl, rfl, decodeMember, readsThrough_entries.option, ?_⟩
    intro (member : Option (List (String × String))) w
    show (decodeMembers (w.data ++ [member])).map _ = _
    rw [decodeMembers_append_singleton, secret?]
    cases decodeMembers w.data with
    | none => rfl
    | some data => cases decodeMember member <;> rfl
  all_goals
    unfold secret?
    cases decodeMembers w.data <;> rfl

/-! ## What the data decodes to -/

theorem isSome_decodeEntries {es : List (String × String)} :
    (decodeEntries es).isSome ↔ ∀ e ∈ es, (octets? e.2).isSome := by
  induction es using List.reverseRecOn with
  | nil => simp [decodeEntries]
  | append_singleton es e ih =>
    obtain ⟨key, text⟩ := e
    rw [decodeEntries_append_singleton, List.forall_mem_append, ← ih]
    cases decodeEntries es <;> simp

/-- The last text under a key counts. -/
theorem get?_of_decodeEntries {es : List (String × String)} {m : SortedMap (List UInt8)}
    (h : decodeEntries es = some m) (key : String) :
    m.get? key = (es.reverse.lookup key).bind octets? := by
  induction es using List.reverseRecOn generalizing m with
  | nil =>
    obtain rfl : SortedMap.empty = m := Option.some.inj h
    rfl
  | append_singleton es e ih =>
    obtain ⟨last, text⟩ := e
    rw [decodeEntries_append_singleton] at h
    obtain ⟨n, hn, hinsert⟩ := Option.bind_eq_some_iff.mp h
    obtain ⟨octets, hoctets, rfl⟩ := Option.map_eq_some_iff.mp hinsert
    rw [SortedMap.get?_insert, List.reverse_append, List.reverse_singleton, List.singleton_append,
      SortedEntries.lookup_entry_cons, ih hn]
    split
    · exact hoctets.symm
    · rfl

/-- Every text that is written as data, whether it counts or not. -/
def texts (w : WrittenSecret) : List String :=
  w.data.flatMap fun member => (member.getD []).map Prod.snd

/-- The text under a key of the data that counts. -/
def dataText? (w : WrittenSecret) (key : String) : Option String :=
  (w.data.getLast?.join.getD []).reverse.lookup key

theorem isSome_decodeMember {member : Option (List (String × String))} :
    (decodeMember member).isSome ↔ ∀ e ∈ member.getD [], (octets? e.2).isSome := by
  cases member with
  | none => simp [decodeMember]
  | some es => simp [decodeMember, isSome_decodeEntries]

theorem isSome_decodeMembers {members : List (Option (List (String × String)))} :
    (decodeMembers members).isSome ↔
      ∀ member ∈ members, ∀ e ∈ member.getD [], (octets? e.2).isSome := by
  induction members using List.reverseRecOn with
  | nil => simp [decodeMembers]
  | append_singleton members member ih =>
    rw [decodeMembers_append_singleton, List.forall_mem_append, ← ih, List.forall_mem_singleton,
      ← isSome_decodeMember]
    cases decodeMembers members <;> simp

/-- **A secret can be read if every text of its data is Base64**, whether it counts or not. -/
theorem isSome_secret? {w : WrittenSecret} :
    w.secret?.isSome ↔ ∀ text ∈ w.texts, (octets? text).isSome := by
  rw [secret?, Option.isSome_map, isSome_decodeMembers, texts]
  simp only [List.mem_flatMap, List.mem_map]
  constructor
  · rintro h _ ⟨member, hmember, e, he, rfl⟩
    exact h member hmember e he
  · intro h member hmember e he
    exact h e.2 ⟨member, hmember, e, he, rfl⟩

/-- **The octets under a key are those of the text that counts.** -/
theorem get?_of_secret? {w : WrittenSecret} {s : Secret} (h : w.secret? = some s) (key : String) :
    s.get? key = (w.dataText? key).bind octets? := by
  obtain ⟨data, hdata, rfl⟩ := Option.map_eq_some_iff.mp h
  show data.bind (·.get? key) = _
  rw [dataText?]
  cases hmembers : w.data using List.reverseRecOn with
  | nil =>
    rw [hmembers] at hdata
    obtain rfl : none = data := Option.some.inj hdata
    rfl
  | append_singleton members member =>
    rw [hmembers, decodeMembers_append_singleton] at hdata
    obtain ⟨_, -, hmember⟩ := Option.bind_eq_some_iff.mp hdata
    rw [List.getLast?_concat]
    cases member with
    | none =>
      obtain rfl : none = data := Option.some.inj hmember
      rfl
    | some es =>
      obtain ⟨m, hm, rfl⟩ := Option.map_eq_some_iff.mp hmember
      exact get?_of_decodeEntries hm key

end WrittenSecret

/-- **A secret is read exactly if it is what a written one decodes to.** -/
theorem Secret.ofBytes_eq_ok {bytes : List UInt8} {s : Secret} :
    ofBytes bytes = .ok s ↔ ∃ w, WrittenSecret.ofBytes bytes = .ok w ∧ w.secret? = some s :=
  WrittenSecret.readsThrough.readDocument_eq_ok

end ConfigVault
