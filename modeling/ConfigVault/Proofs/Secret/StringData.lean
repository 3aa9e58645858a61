import ConfigVault.Proofs.Secret.Manifest
import ConfigVault.Proofs.Secret.Written

/-! # Texts become data

Taking a manifest in folds the texts of its secret into the data and changes nothing else
(`Secret.FoldedFrom`): under each key stands the text that was there, or else the octets, and a
manifest with neither data nor texts still gives a secret without data.

It is therefore the same whether a text stands beside the data or, in Base64, within it.  To say that
of manifests one has to speak of secrets as they are written, before anything is decoded
(`WrittenSecret`); a secret is read from a manifest exactly if it is what a written one decodes to
(`Secret.ofBytes_eq_ok`).  One written secret moves its texts into the data of another if the other
has no texts, and has under each key the Base64 of the text that was there, or else what was there
before (`WrittenSecret.Moves`).  Both are folded to the same secret, since folding is determined by
what is read under each key (`Secret.foldStringData_congr`).  What a manifest says about texts can
thus always be said without them (`Secret.ofManifest_folded`).
-/
namespace ConfigVault

open Codec

/-- Metadata that compares like nothing says nothing. -/
theorem ObjectMeta.eq_empty_of_beq {m : ObjectMeta} (h : (m == .empty) = true) : m = .empty := by
  have hnone {α : Type} [BEq α] (o : Option α) : Option.instBEq.beq o none = true ↔ o = none := by
    cases o <;> simp [Option.instBEq.beq]
  cases m
  simpa [BEq.beq, instBEqObjectMeta.beq, empty, hnone] using h

namespace Secret

/-- The text beside the data under a key. -/
def text? (s : Secret) (key : String) : Option String := s.stringData.bind (·.get? key)

theorem ext {s t : Secret} (hdata : s.data = t.data) (himmutable : s.immutable = t.immutable)
    (hmetadata : s.metadata = t.metadata) (htexts : s.stringData = t.stringData)
    (htype : s.type = t.type) : s = t := by
  cases s
  cases t
  simp only [mk.injEq]
  exact ⟨hdata, himmutable, hmetadata, htexts, htype⟩

/-- **A secret with its texts folded into the data**: the texts are gone and all but the data is as it
was.  There is data unless there was neither data nor texts, and what is read under a key is the text
that was there, or else the octets. -/
structure FoldedFrom (s p : Secret) : Prop where
  stringData : s.stringData = none
  rest : { s with data := p.data, stringData := p.stringData } = p
  data_eq_none : s.data = none ↔ p.data = none ∧ p.stringData = none
  read (key : String) : s.read key =
    match p.text? key, p.get? key with
    | some text, _ => .ok (Text.Utf8.encodeString text)
    | none, some octets => .ok octets
    | none, none => .error (.keyNotFound key (SecretRef.ofSecret p))

/-- **A text wins over the octets under its key.** -/
theorem get?_foldStringData (s : Secret) (key : String) :
    s.foldStringData.get? key = ((s.text? key).map Text.Utf8.encodeString).or (s.get? key) := by
  have hfolds : s.FoldsTo s.stringData s.foldStringData.data := s.foldsTo_foldStringData s.stringData
  rw [text?]
  cases htexts : s.stringData with
  | none =>
    rw [htexts] at hfolds
    have hdata : s.foldStringData.data = s.data := hfolds
    rw [get?, hdata]
    rfl
  | some texts =>
    rw [htexts] at hfolds
    obtain ⟨m, hm, hget⟩ := hfolds
    rw [get?, hm]
    exact hget key

theorem data_foldStringData_eq_none {s : Secret} :
    s.foldStringData.data = none ↔ s.data = none ∧ s.stringData = none := by
  unfold foldStringData
  cases s.stringData <;> simp

theorem foldedFrom_foldStringData (p : Secret) : p.foldStringData.FoldedFrom p where
  stringData := stringData_foldStringData p
  rest := by
    rw [metadata_foldStringData, type_foldStringData, immutable_foldStringData]
  data_eq_none := data_foldStringData_eq_none
  read key := by
    rw [Secret.read, get?_foldStringData, SecretRef.ofSecret, metadata_foldStringData]
    cases p.text? key with
    | some text => rfl
    | none => cases p.get? key <;> rfl

/-- **Folding is determined by what counts**: the identity of the secret, whether there is data, and
the octets under each key. -/
theorem foldStringData_congr {p q : Secret} (himmutable : q.immutable = p.immutable)
    (hmetadata : q.metadata = p.metadata) (htype : q.type = p.type)
    (hdata : q.foldStringData.data = none ↔ p.foldStringData.data = none)
    (hget : ∀ key, q.foldStringData.get? key = p.foldStringData.get? key) :
    q.foldStringData = p.foldStringData := by
  have hsame : q.foldStringData.data = p.foldStringData.data := by
    simp only [get?] at hget
    cases hq : q.foldStringData.data with
    | none => exact (hdata.mp hq).symm
    | some n =>
      cases hp : p.foldStringData.data with
      | none => rw [hdata.mpr hp] at hq; cases hq
      | some m =>
        rw [hq, hp] at hget
        exact congrArg some (SortedMap.ext_get? hget)
  refine ext hsame ?_ ?_ ?_ ?_
  · rw [immutable_foldStringData, immutable_foldStringData, himmutable]
  · rw [metadata_foldStringData, metadata_foldStringData, hmetadata]
  · rw [stringData_foldStringData, stringData_foldStringData]
  · rw [type_foldStringData, type_foldStringData, htype]

end Secret

namespace WrittenSecret

/-- The text beside the data under a key. -/
def text? (w : WrittenSecret) (key : String) : Option String := w.stringData.bind (·.get? key)

/-- The Base64 text of a string. -/
def base64 (text : String) : String := Text.Base64.encodeString (Text.Utf8.encodeString text)

/-- **The texts are written as data instead.**  Nothing is left beside the data.  Under each key stands
the Base64 of its text, or what stood there where it had none, and there is nothing under `data` that
was not there and is not Base64.  How entries are arranged, and what becomes of data that did not count
or counts no more, is left open. -/
structure Moves (w w' : WrittenSecret) : Prop where
  immutable : w'.immutable = w.immutable
  metadata : w'.metadata = w.metadata
  type : w'.type = w.type
  text? (key : String) : w'.text? key = none
  dataText? (key : String) : w'.dataText? key = ((w.text? key).map base64).or (w.dataText? key)
  texts : ∀ text ∈ w'.texts, text ∈ w.texts ∨ ∃ s, text = base64 s

theorem octets?_base64 (text : String) :
    octets? (base64 text) = some (Text.Utf8.encodeString text) := by
  rw [octets?, base64, Text.Base64.decode?_encodeString]
  rfl

/-- Only the data is decoded. -/
theorem rest_of_secret? {w : WrittenSecret} {s : Secret} (h : w.secret? = some s) :
    s.immutable = w.immutable ∧ s.metadata = w.metadata ∧ s.type = w.type ∧
      ∀ key, s.text? key = w.text? key := by
  obtain ⟨data, -, rfl⟩ := Option.map_eq_some_iff.mp h
  exact ⟨rfl, rfl, rfl, fun _ => rfl⟩

namespace Moves

variable {w w' : WrittenSecret} {p q : Secret}

/-- There is still a secret to be read. -/
theorem isSome_secret? (h : w.Moves w') (hp : w.secret? = some p) : w'.secret?.isSome := by
  refine WrittenSecret.isSome_secret?.mpr fun text htext => ?_
  rcases h.texts text htext with hold | ⟨s, rfl⟩
  · exact WrittenSecret.isSome_secret?.mp (hp ▸ rfl) text hold
  · rw [octets?_base64]
    rfl

/-- The texts, in Base64 or as they are, come to the same octets under each key. -/
theorem get?_foldStringData (h : w.Moves w') (hp : w.secret? = some p) (hq : w'.secret? = some q)
    (key : String) : q.foldStringData.get? key = p.foldStringData.get? key := by
  obtain ⟨-, -, -, htextp⟩ := rest_of_secret? hp
  obtain ⟨-, -, -, htextq⟩ := rest_of_secret? hq
  rw [Secret.get?_foldStringData, Secret.get?_foldStringData, htextq, h.text?, htextp,
    get?_of_secret? hq, h.dataText?, get?_of_secret? hp]
  cases w.text? key with
  | none => rfl
  | some text => simp [octets?_base64]

/-- **What is taken in is the same after the move.** -/
theorem foldStringData (h : w.Moves w') (hp : w.secret? = some p) (hq : w'.secret? = some q)
    {key text : String} (htext : p.text? key = some text) :
    q.foldStringData = p.foldStringData := by
  obtain ⟨himmutablep, hmetadatap, htypep, -⟩ := rest_of_secret? hp
  obtain ⟨himmutableq, hmetadataq, htypeq, -⟩ := rest_of_secret? hq
  have hget := h.get?_foldStringData hp hq
  have hoctets : p.foldStringData.get? key = some (Text.Utf8.encodeString text) := by
    rw [Secret.get?_foldStringData, htext]
    rfl
  have hsome {s : Secret} (hs : s.get? key = some (Text.Utf8.encodeString text)) : s.data ≠ none := by
    intro hnone
    rw [Secret.get?, hnone] at hs
    cases hs
  refine Secret.foldStringData_congr ?_ ?_ ?_ ?_ hget
  · rw [himmutableq, h.immutable, himmutablep]
  · rw [hmetadataq, h.metadata, hmetadatap]
  · rw [htypeq, h.type, htypep]
  · exact iff_of_false (hsome ((hget key).trans hoctets)) (hsome hoctets)

end Moves

/-- Reads a secret as it is written from a manifest. -/
def ofManifest (text : String) : Except ReadError WrittenSecret :=
  ofBytes (Text.Utf8.encodeString text)

end WrittenSecret

namespace Secret

theorem ofManifest_of_error {text : String} {e : ReadError}
    (h : ofBytes (Text.Utf8.encodeString text) = .error e) :
    ofManifest text = .error (.manifest ("Failed to parse secret: " ++ e.message)) := by
  rw [ofManifest, h]

theorem ofManifest_of_ok {text : String} {p : Secret}
    (h : ofBytes (Text.Utf8.encodeString text) = .ok p) : ofManifest text = .ok p.foldStringData := by
  rw [ofManifest, h]

/-- **A manifest is taken in with its texts as data.**  If no secret can be read from it the error says
so, and names no secret.  Otherwise the secret that is read is taken in with its texts folded into the
data, and so it is from every manifest in which they are written as data instead. -/
theorem ofManifest_folded (text : String) :
    (∀ e, ofBytes (Text.Utf8.encodeString text) = .error e →
      ∃ reason, ofManifest text = .error (.manifest reason) ∧
        (Error.manifest reason).secret? = none) ∧
    ∀ p, ofBytes (Text.Utf8.encodeString text) = .ok p →
      ∃ s, ofManifest text = .ok s ∧ s.FoldedFrom p ∧
        ∃ w, WrittenSecret.ofManifest text = .ok w ∧ w.secret? = some p ∧
          ∀ key value, p.text? key = some value →
            ∀ text' w', WrittenSecret.ofManifest text' = .ok w' → w.Moves w' →
              ofManifest text' = .ok s := by
  refine ⟨fun e he => ⟨_, ofManifest_of_error he, rfl⟩, fun p hp => ?_⟩
  obtain ⟨w, hw, hdecoded⟩ := ofBytes_eq_ok.mp hp
  refine ⟨_, ofManifest_of_ok hp, foldedFrom_foldStringData p, w, hw, hdecoded, ?_⟩
  intro key value htext text' w' hw' hmoves
  obtain ⟨q, hq⟩ := Option.isSome_iff_exists.mp (hmoves.isSome_secret? hdecoded)
  have hread : ofBytes (Text.Utf8.encodeString text') = .ok q := ofBytes_eq_ok.mpr ⟨w', hw', hq⟩
  rw [ofManifest_of_ok hread, hmoves.foldStringData hdecoded hq htext]

/-- A secret of which only data and texts are written. -/
theorem written_of_toOption {text : String} {data : List (Option (List (String × String)))}
    {texts : Option (SortedMap String)}
    (h : (WrittenSecret.ofManifest text).toOption.map (fun w => (w.data, w.stringData,
      w.metadata == .empty && w.immutable == none && w.type == none)) = some (data, texts, true)) :
    WrittenSecret.ofManifest text = .ok ⟨data, none, .empty, texts, none⟩ := by
  obtain ⟨w, hw, hview⟩ := exists_of_toOption h
  simp only [Prod.mk.injEq, Bool.and_eq_true, beq_iff_eq] at hview
  obtain ⟨rfl, rfl, ⟨hmetadata, himmutable⟩, htype⟩ := hview
  rw [hw, ← himmutable, ← htype, ← ObjectMeta.eq_empty_of_beq hmetadata]

/-- A text that wins over data, and the manifest in which it is data itself. -/
theorem ofManifest_folded_config :
    let text := "data: {config: eA==, token: YQ==}\nstringData: {config: b}\n"
    let text' := "data: {token: YQ==, config: Yg==}\n"
    ∃ p s, ofBytes (Text.Utf8.encodeString text) = .ok p ∧ ofManifest text = .ok s ∧
      s.FoldedFrom p ∧ s.read "config" = .ok (Text.Utf8.encodeString "b") ∧
      s.read "token" = .ok [0x61] ∧ ofManifest text' = .ok s := by
  intro text text'
  let w : WrittenSecret := ⟨[some [("config", "eA=="), ("token", "YQ==")]], none, .empty,
    some (SortedMap.empty.insert "config" "b"), none⟩
  let w' : WrittenSecret :=
    ⟨[some [("token", "YQ=="), ("config", "Yg==")]], none, .empty, none, none⟩
  have hw : WrittenSecret.ofManifest text = .ok w := written_of_toOption (by decide +kernel)
  have hw' : WrittenSecret.ofManifest text' = .ok w' := written_of_toOption (by decide +kernel)
  have hmoves : w.Moves w' := by
    refine ⟨rfl, rfl, rfl, fun _ => rfl, fun key => ?_, fun text htext => ?_⟩
    · have hbase : WrittenSecret.base64 "b" = "Yg==" := by decide +kernel
      show List.lookup key [("config", "Yg=="), ("token", "YQ==")] =
        ((List.lookup key [("config", "b")]).map WrittenSecret.base64).or
          (List.lookup key [("token", "YQ=="), ("config", "eA==")])
      simp only [SortedEntries.lookup_entry_cons, List.lookup_nil]
      split
      case isTrue hkey => simp [hbase]
      case isFalse hkey => simp
    · have hwritten : text = "YQ==" ∨ text = "Yg==" := by
        simpa [WrittenSecret.texts, w'] using htext
      rcases hwritten with rfl | rfl
      · exact .inr ⟨"a", by decide +kernel⟩
      · exact .inr ⟨"b", by decide +kernel⟩
  have hdecodes : w.secret?.isSome := by decide +kernel
  obtain ⟨p, hp⟩ := Option.isSome_iff_exists.mp hdecodes
  have hread : ofBytes (Text.Utf8.encodeString text) = .ok p := ofBytes_eq_ok.mpr ⟨w, hw, hp⟩
  obtain ⟨s, hs, hfolded, v, hv, -, hmoved⟩ := (ofManifest_folded text).2 p hread
  obtain rfl : w = v := Except.ok.inj (hw.symm.trans hv)
  obtain ⟨-, -, -, htext⟩ := WrittenSecret.rest_of_secret? hp
  have hconfig : p.text? "config" = some "b" := htext "config"
  have htoken : p.text? "token" = none := htext "token"
  have hoctets : p.get? "token" = some [0x61] := by
    rw [WrittenSecret.get?_of_secret? hp]
    decide +kernel
  refine ⟨p, s, hread, hs, hfolded, ?_, ?_, hmoved "config" _ hconfig text' w' hw' hmoves⟩
  · rw [hfolded.read, hconfig]
  · rw [hfolded.read, htoken, hoctets]

end Secret

end ConfigVault
