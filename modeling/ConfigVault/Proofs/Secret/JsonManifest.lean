import ConfigVault.Proofs.Secret.Manifest
import ConfigVault.Proofs.Secret.Texts
import ConfigVault.Proofs.Yaml.JsonDocument

/-! # Manifests in JSON

A manifest is read as YAML whatever it was written as.  JSON text is YAML with few exceptions, and
this module says what they are for a secret.

A string of JSON is a double-quoted scalar to the reader, and YAML has views of its own on those.  A
character that documents may not hold leaves no secret to be read, and so does a line of the string
that begins like a document or its end (`Yaml.isScannable`), and a key that breaks its line or is
longer than the reader looks back for (`Yaml.isScannableKey`).  And three characters break lines in
YAML but not in JSON, so the lines of the string are folded there and it is read as another one
(`Yaml.Quoted.asRead`).

Nothing else can happen, and it happens to each string by itself.  So a secret comes out of its JSON
manifest with `asRead` applied to all of its strings, in its normal form, or not at all
(`Secret.ofManifest_render_json`).  That holds of the secret because it holds of its JSON value:
names of fields, timestamps and octets are plain ASCII, which is read as it is, so to replace the
strings in the written value is to replace them in the secret (`Secret.retexts`).

A YAML manifest always gives the secret itself.  Both formats therefore say the same if and only if
`asRead` changes none of the strings (`Secret.ofManifest_formats_iff`); here it counts that a secret
in which some string was replaced is never read as what it was before (`Secret.mapTexts_eq_self`).
Not every string is kept: the character for a next line becomes a space
(`Secret.ofManifest_formats_nextLine`).
-/
namespace ConfigVault

open Yaml Codec

/-- A string of a JSON text is read as it is. -/
def Yaml.isKept (s : String) : Bool := isScannable s && Quoted.keepsLines s.toList

/-- Plain ASCII is read as it is. -/
theorem Yaml.Quoted.asRead_of_isAscii {s : String} (h : IsAscii s.toList) : asRead s = s := by
  rw [asRead_eq_iff]
  apply keepsLines_of_no_break
  intro c hc
  have hlt := h c hc
  simp only [isRawBreak, Bool.or_eq_false_iff, beq_eq_false_iff_ne]
  refine ⟨⟨?_, ?_⟩, ?_⟩
  · rintro rfl; exact absurd hlt (by decide)
  · rintro rfl; exact absurd hlt (by decide)
  · rintro rfl; exact absurd hlt (by decide)

/-- The strings of a value are kept if they can be read and stay the same. -/
theorem Yaml.all_isKept (v : Json) :
    v.all isKept isScannableKey =
      (v.all isScannable isScannableKey && v.all (fun s => Quoted.asRead s == s) fun _ => true) := by
  have hkeeps : (fun s => Quoted.asRead s == s) = fun s => Quoted.keepsLines s.toList := by
    funext s
    rw [Bool.eq_iff_iff, beq_iff_eq, Quoted.asRead_eq_iff]
  rw [hkeeps, ← Json.all_and]
  simp only [Bool.and_true]
  rfl

namespace Secret

/-- No secret that there is has texts beside its data. -/
theorem IsMade.stringData {s : Secret} (h : s.IsMade) : s.stringData = none := by
  cases h with
  | toSecret k r => rfl
  | @ofManifest text s h =>
    unfold Secret.ofManifest at h
    split at h
    · cases h; exact stringData_foldStringData _
    · cases h

/-- **What a JSON manifest says**: the secret with its strings as YAML reads them, in its normal form,
or nothing if one of them cannot be read where it stands. -/
theorem ofManifest_render_json {s : Secret} (hs : s.Fits innerDepth) :
    if s.toJson.all isScannable isScannableKey then
      ofManifest (s.render .json) = .ok (s.mapTexts Quoted.asRead).normal.foldStringData
    else ∀ t, ofManifest (s.render .json) ≠ .ok t := by
  have hdocument := allOf_jsonBytes (members_ne_nil s)
  have hjson : Json.object (record.members s) = s.toJson := rfl
  rw [hjson] at hdocument
  have hencode : Text.Utf8.encodeString (s.render .json) = jsonBytes s.toJson := rfl
  unfold ofManifest
  rw [hencode]
  split
  case isTrue h =>
    rw [if_pos h] at hdocument
    obtain ⟨node, hall, hshows⟩ := hdocument
    have htexts : s.toJson.mapTexts Quoted.asRead = (s.mapTexts Quoted.asRead).toJson :=
      (retexts (fun _ => Quoted.asRead_of_isAscii) s).symm
    rw [htexts] at hshows
    have hbytes : ofBytes (jsonBytes s.toJson) = .ok (s.mapTexts Quoted.asRead).normal :=
      readDocument_of_shows hall hshows
        ((faithful 123).reads (Nat.le_refl _) (Fits.mapTexts hs _))
    rw [hbytes]
  case isFalse h =>
    rw [if_neg h] at hdocument
    intro t ht
    cases hbytes : ofBytes (jsonBytes s.toJson) with
    | error e => rw [hbytes] at ht; cases ht
    | ok t =>
      obtain ⟨node, n, hall, -⟩ := exists_of_readDocument hbytes
      exact hdocument node hall

/-- **Both formats say the same** of a secret if and only if its strings are kept: documents may hold
all their characters, none is cut off by a document indicator, no line of them is folded, and no key
of them breaks its line or is too long. -/
theorem ofManifest_formats_iff {s : Secret} (hs : s.IsMade) :
    (∃ t, ofManifest (s.render .json) = .ok t ∧ ofManifest (s.render .yaml) = .ok t) ↔
      s.toJson.all isKept isScannableKey := by
  have hyaml := ofManifest_render_of_fits hs.fits
  have hjson := ofManifest_render_json hs.fits
  have htexts : (s.mapTexts Quoted.asRead).toJson = s.toJson.mapTexts Quoted.asRead :=
    retexts (fun _ => Quoted.asRead_of_isAscii) s
  rw [all_isKept, Bool.and_eq_true, ← Json.mapTexts_eq_self_iff, ← htexts]
  constructor
  · rintro ⟨t, ht, ht'⟩
    by_cases hread : s.toJson.all isScannable isScannableKey = true
    · rw [if_pos hread, ht] at hjson
      rw [hyaml] at ht'
      have hnone : s.normal.stringData = none := hs.stringData
      have hnone' : (s.mapTexts Quoted.asRead).normal.stringData = none :=
        congrArg (Option.map _) hs.stringData
      have hnormal : (s.mapTexts Quoted.asRead).normal = s.normal := by
        have hfold := (Except.ok.inj hjson).symm.trans (Except.ok.inj ht').symm
        rwa [foldStringData_of_none hnone, foldStringData_of_none hnone'] at hfold
      exact ⟨hread, congrArg toJson (mapTexts_eq_self hnormal)⟩
    · rw [if_neg hread] at hjson
      exact absurd ht (hjson t)
  · rintro ⟨hread, hsame⟩
    rw [if_pos hread] at hjson
    refine ⟨_, hjson, ?_⟩
    -- Both secrets have the same YAML manifest.
    rw [← ofManifest_render_of_fits (s := s.mapTexts Quoted.asRead) (Fits.mapTexts hs.fits _), render,
      render, hsame]

/-- A line separator between letters is kept. -/
theorem ofManifest_formats_separator :
    let s := Kubeconfig.toSecret .empty ⟨"default", "a\u2028b"⟩
    s.IsMade ∧ s.toJson.all isKept isScannableKey ∧
      ∃ t, ofManifest (s.render .json) = .ok t ∧ ofManifest (s.render .yaml) = .ok t := by
  intro s
  have hmade : s.IsMade := .toSecret _ _
  have hkept : s.toJson.all isKept isScannableKey := by decide +kernel
  exact ⟨hmade, hkept, (ofManifest_formats_iff hmade).mpr hkept⟩

/-- **The two formats do not always agree**: the character for a next line in a name is read from JSON
as a break that folds into a space. -/
theorem ofManifest_formats_nextLine :
    let s := Kubeconfig.toSecret .empty ⟨"default", "a\x85b"⟩
    s.IsMade ∧ ¬ ∃ t, ofManifest (s.render .json) = .ok t ∧ ofManifest (s.render .yaml) = .ok t := by
  intro s
  have hmade : s.IsMade := .toSecret _ _
  refine ⟨hmade, ?_⟩
  rintro ⟨t, hjson, hyaml⟩
  have hread : s.toJson.all isScannable isScannableKey := by decide +kernel
  have hfolded := ofManifest_render_json hmade.fits
  rw [if_pos hread, hjson] at hfolded
  rw [ofManifest_render_of_fits hmade.fits] at hyaml
  have hname : (s.mapTexts Quoted.asRead).metadata.name = s.metadata.name := by
    have ht := congrArg (fun s => s.metadata.name)
      ((Except.ok.inj hfolded).symm.trans (Except.ok.inj hyaml).symm)
    rw [metadata_foldStringData, metadata_foldStringData] at ht
    exact ht
  exact absurd hname (by decide +kernel)

end Secret

end ConfigVault
