import ConfigVault.Proofs.Text.Utf8
import ConfigVault.Yaml.Source

/-! # The characters of an encoded text

Octets that encode a text never fail to be decoded, so the only thing that can stand in the way of
a document is a character that documents may not hold.  Without one the windows do not matter: all
characters are there (`ofBytes_encode`).  With one the source has a fault, wherever the character
is (`fault_ofBytes_encode`).  Octets that encode no text at all have a fault as well, so that only
readable ones are without (`fault_ofBytes_eq_none_iff`).
-/
namespace ConfigVault.Yaml.Source

open ConfigVault.Text

/-- One character of an encoded text: the rest is decoded behind it, or there is a fault. -/
theorem decode_encode_cons (offset first : Nat) (earlier current : List Char) (c : Char)
    (cs : List Char) :
    if isAllowed c then
      ∃ offset' first' earlier' current',
        current' ++ earlier' = c :: (current ++ earlier) ∧
          decode offset first earlier current (Utf8.encode (c :: cs)) =
            decode offset' first' earlier' current' (Utf8.encode cs)
    else (decode offset first earlier current (Utf8.encode (c :: cs))).fault.isSome := by
  obtain ⟨b, tail, hb, hs⟩ := Utf8.step_encodeChar c
  have hd : (tail ++ Utf8.encode cs).drop tail.length = Utf8.encode cs := List.drop_left ..
  rw [Utf8.encode_cons, hb, List.cons_append, decode, hs (Utf8.encode cs)]
  simp only [hd]
  by_cases ha : isAllowed c = true
  · simp only [ha, if_true]
    split
    · exact ⟨_, _, _, _, List.cons_append .., rfl⟩
    · exact ⟨_, _, _, _, rfl, rfl⟩
  · simp [ha]

theorem decode_encode {cs : List Char} (h : ∀ c ∈ cs, isAllowed c) (offset first : Nat)
    (earlier current : List Char) :
    decode offset first earlier current (Utf8.encode cs) =
      ⟨(current ++ earlier).reverse ++ cs, none⟩ := by
  induction cs generalizing offset first earlier current with
  | nil => simp [decode]
  | cons c cs ih =>
    have hc := decode_encode_cons offset first earlier current c cs
    rw [if_pos (h c (List.mem_cons_self ..))] at hc
    obtain ⟨_, _, _, _, hs, he⟩ := hc
    rw [he, ih fun d hd => h d (List.mem_cons_of_mem _ hd), hs]
    simp

/-- **The characters of a text are all there**, if documents may hold each of them. -/
theorem ofBytes_encode {cs : List Char} (h : ∀ c ∈ cs, isAllowed c) :
    ofBytes (Utf8.encode cs) = ⟨cs, none⟩ := by
  rw [ofBytes, decode_encode h]
  rfl

theorem fault_decode_encode {cs : List Char} {c : Char} (hc : c ∈ cs) (ha : isAllowed c = false)
    (offset first : Nat) (earlier current : List Char) :
    (decode offset first earlier current (Utf8.encode cs)).fault.isSome := by
  induction cs generalizing offset first earlier current with
  | nil => cases hc
  | cons d cs ih =>
    have hd := decode_encode_cons offset first earlier current d cs
    by_cases hda : isAllowed d
    · rw [if_pos hda] at hd
      obtain ⟨_, _, _, _, -, he⟩ := hd
      rw [he]
      rcases List.mem_cons.mp hc with rfl | hc
      · rw [ha] at hda; cases hda
      · exact ih hc ..
    · rwa [if_neg hda] at hd

/-- **A character that documents may not hold is a fault**, wherever it stands. -/
theorem fault_ofBytes_encode {cs : List Char} {c : Char} (hc : c ∈ cs)
    (ha : isAllowed c = false) : (ofBytes (Utf8.encode cs)).fault.isSome :=
  fault_decode_encode hc ha ..

/-! ## Octets that are read to their end -/

/-- The octets of a text that documents may hold. -/
def AreReadable (bs : List UInt8) : Prop :=
  ∃ cs, bs = Utf8.encode cs ∧ ∀ c ∈ cs, isAllowed c

/-- One character more in front. -/
theorem AreReadable.of_step {b : UInt8} {bs : List UInt8} {c : Char} {more : Nat}
    (hrest : AreReadable (bs.drop more)) (hstep : Utf8.step b bs = .ok (c, more))
    (hc : isAllowed c) : AreReadable (b :: bs) := by
  obtain ⟨cs, hcs, hall⟩ := hrest
  refine ⟨c :: cs, ?_, List.forall_mem_cons.mpr ⟨hc, hall⟩⟩
  rw [Utf8.encode_cons, ← hcs]
  exact Utf8.encodeChar_of_step hstep

/-- Decoding without a fault goes on to the last octet, whichever window it is in. -/
theorem areReadable_of_decode {offset first : Nat} {earlier current : List Char} {bs : List UInt8}
    (h : (decode offset first earlier current bs).fault = none) : AreReadable bs := by
  fun_induction decode offset first earlier current bs with
  | case1 => exact ⟨[], rfl, nofun⟩
  | case2 => cases h
  | case3 => cases h
  | case4 offset first earlier current b bs fits c more hstep hallowed hfits ih =>
    exact (ih h).of_step hstep hallowed
  | case5 offset first earlier current b bs fits c more hstep hallowed hfits ih =>
    exact (ih h).of_step hstep hallowed
  | case6 => cases h

/-- **Only octets of a text that documents may hold are read without a fault**, wherever the first
octet is that is wrong. -/
theorem fault_ofBytes_eq_none_iff (bs : List UInt8) :
    (ofBytes bs).fault = none ↔ AreReadable bs := by
  refine ⟨areReadable_of_decode, ?_⟩
  rintro ⟨cs, rfl, hall⟩
  rw [ofBytes_encode hall]

end ConfigVault.Yaml.Source
