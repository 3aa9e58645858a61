import ConfigVault.Proofs.Codec.Basic
import ConfigVault.Proofs.Yaml.Document

/-! # Documents of one value

What a codec writes is read back from a document (`readDocument_render`), and what is read from any
document at all has the properties of what the codec reads where nothing has been entered
(`gives_readDocument`).
-/
namespace ConfigVault.Codec

open Yaml

variable {α : Type}

/-- A document that shows a written value is read as the codec reads it from a node. -/
theorem readDocument_of_shows {c : Codec α} {x y : α} {bytes : List UInt8} {node : Node}
    (hdocument : Document.allOf bytes = [⟨node, none⟩]) (hshows : Shows (c.toJson x) node)
    (h : ReadsAs c Place.maxDepth x y) : readDocument c.ofNode bytes = .ok y := by
  have hread : c.ofNode (Place.root ⟨node, none⟩) node = pure y :=
    h.ofNode _ node (Nat.le_refl _) hshows
  rw [readDocument, hdocument]
  dsimp only
  rw [hread]
  rfl

/-- **A written value is read back from its document.** -/
theorem readDocument_render {c : Codec α} {x y : α} {ms : List (String × Json)}
    (hjson : c.toJson x = .object ms) (hne : ms ≠ []) (h : ReadsAs c Place.maxDepth x y) :
    readDocument c.ofNode (Text.Utf8.encodeString (Yaml.render (c.toJson x))) = .ok y := by
  obtain ⟨node, hdocument, hshows⟩ := allOf_render hne
  rw [← hjson] at hdocument hshows
  exact readDocument_of_shows hdocument hshows h

/-- **Only a single sound document is read**, from its root down. -/
theorem exists_of_readDocument {read : Place → Node → Reading α} {bytes : List UInt8} {x : α}
    (h : readDocument read bytes = .ok x) :
    ∃ node n, Document.allOf bytes = [⟨node, none⟩] ∧
      read (Place.root ⟨node, none⟩) node 0 = .ok (x, n) := by
  unfold readDocument at h
  split at h
  case h_1 => cases h
  case h_2 d ds hdocuments =>
    cases hread : (read (Place.root d) d.root).run 0 with
    | error e => rw [hread] at h; cases h
    | ok a =>
      rw [hread] at h
      obtain ⟨root, fault⟩ := d
      cases fault with
      | some fault => cases h
      | none =>
        cases ds with
        | cons d ds => cases h
        | nil =>
          cases h
          exact ⟨root, a.2, hdocuments, hread⟩

/-- **Whatever is read from a document** has the property of what is read at its root. -/
theorem gives_readDocument {c : Codec α} {P : Nat → α → Prop} (h : Yields c P)
    (bytes : List UInt8) : Gives (readDocument c.ofNode bytes) (P Place.maxDepth) := by
  unfold readDocument
  split
  case h_1 => exact .error
  case h_2 d ds _ =>
    have hroot : Gives ((c.ofNode (Place.root d) d.root).run 0) fun a => P Place.maxDepth a.1 :=
      fun a ha => h (Place.root d) d.root 0 a.1 a.2 ha
    refine hroot.bind fun a ha => ?_
    dsimp only
    split
    · exact .error
    · exact .ok ha
    · exact .error

end ConfigVault.Codec
