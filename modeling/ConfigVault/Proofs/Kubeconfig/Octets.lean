import ConfigVault.Proofs.Codec.Document
import ConfigVault.Proofs.SecretErrors
import ConfigVault.Proofs.Yaml.Node.Rest
import ConfigVault.Proofs.Yaml.Source

/-! # Octets that are no text

A document is read piece by piece: by the time a value is there, the octets behind it have not been
looked at.  Yet none of them is left out.  Only a single document without a fault is read, such a
document has the end of the text behind it, and that end is reached only where no octet stands in
the way.  So octets with a flaw are no kubeconfig, wherever the flaw is: in a scalar, in a comment,
behind a complete kubeconfig or behind the marker that ends it
(`SecretKubeconfig.ofSecret_of_not_isText`).
-/
namespace ConfigVault

open Text

/-- **What can be read as a document is a text to its last octet.** -/
theorem Codec.areReadable_of_readDocument {α : Type} {read : Place → Yaml.Node → Reading α}
    {bytes : List UInt8} {x : α} (h : readDocument read bytes = .ok x) :
    Yaml.Source.AreReadable bytes := by
  obtain ⟨node, n, hdocument, -⟩ := exists_of_readDocument h
  have hfault : (Yaml.Source.ofBytes bytes).fault = none :=
    (Yaml.Document.fault_of_allOf hdocument).2
  exact (Yaml.Source.fault_ofBytes_eq_none_iff bytes).mp hfault

/-- Octets that are no text are no kubeconfig. -/
theorem Kubeconfig.exists_error_of_not_isText {bytes : List UInt8} (h : ¬ Utf8.IsText bytes) :
    ∃ cause, ofBytes bytes = .error cause := by
  cases hread : ofBytes bytes with
  | error cause => exact ⟨cause, rfl⟩
  | ok k =>
    obtain ⟨cs, hcs, -⟩ := Codec.areReadable_of_readDocument hread
    exact absurd ⟨cs, hcs⟩ h

namespace SecretKubeconfig

/-- **Octets that are not UTF-8 are never taken for a kubeconfig**, whatever they are in front of
the first flaw and behind it.  The error names the secret that has them. -/
theorem ofSecret_of_not_isText {s : Secret} {key : String} {bytes : List UInt8}
    (hholds : s.Holds key bytes) (hbytes : ¬ Utf8.IsText bytes) :
    ∃ cause, ofSecret s key = .error (.invalidKubeconfig (SecretRef.ofSecret s) cause) := by
  obtain ⟨cause, hcause⟩ := Kubeconfig.exists_error_of_not_isText hbytes
  exact ⟨cause, (ofSecret_eq_invalid_iff hholds).mpr hcause⟩

/-- A secret with these octets under a key. -/
def secretWithOctets (bytes : List UInt8) : Secret :=
  { Secret.empty with
    metadata := { ObjectMeta.empty with name := some "a" }
    data := some (SortedMap.empty.insert "k" bytes) }

/-- An overlong form in a scalar, a surrogate in a comment, an octet that starts nothing behind a
complete kubeconfig, and a character that is cut short behind the marker of its end. -/
def flawedOctets : List (List UInt8) := [
  Utf8.encodeString "kind: \"a" ++ [0xC0, 0x80] ++ Utf8.encodeString "\"\n",
  Utf8.encodeString "kind: a # " ++ [0xED, 0xA0, 0x80],
  Utf8.encodeString "kind: a\n" ++ [0xFF],
  Utf8.encodeString "kind: a\n...\n# " ++ [0xE2, 0x82]]

/-- Each flaw is found, though what stands in front of the last one is a kubeconfig. -/
theorem ofSecret_of_flawedOctets :
    (Kubeconfig.ofBytes (Utf8.encodeString "kind: a\n...\n# ")).toOption.isSome ∧
      ∀ bytes ∈ flawedOctets, ¬ Utf8.IsText bytes ∧
        ∃ cause, ofSecret (secretWithOctets bytes) "k" =
          .error (.invalidKubeconfig ⟨"", "a"⟩ cause) := by
  have hflawed : ∀ bytes ∈ flawedOctets, ¬ Utf8.IsText bytes := by decide +kernel
  refine ⟨by decide +kernel, fun bytes hbytes => ⟨hflawed bytes hbytes, ?_⟩⟩
  exact ofSecret_of_not_isText ⟨_, rfl, rfl⟩ (hflawed bytes hbytes)

end SecretKubeconfig

end ConfigVault
