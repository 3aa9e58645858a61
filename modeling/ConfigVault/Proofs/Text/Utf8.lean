import ConfigVault.Text.Utf8

/-! # What is encoded is decoded, and nothing else

`step` looks at the leading octet, the number of octets left, the continuation octets, the length
and the value, in that order.  The octets of a character pass all five checks (`step_encodeChar`),
whatever follows them, so that decoding undoes encoding (`decode?_encode`).

And octets that pass the checks are those of the character (`encodeChar_of_step`): an overlong form,
a surrogate or a sequence that is cut short is never read as a character, so what can be decoded
encodes a text (`isText_iff`).
-/
namespace ConfigVault.Text.Utf8

/-- A character is determined by its number. -/
theorem ofNatAux_eq {c : Char} {n : Nat} (hn : n = c.toNat) (h : n.isValidChar) :
    Char.ofNatAux n h = c := by
  subst hn
  rfl

theorem isValidChar_toNat (c : Char) : c.toNat.isValidChar := c.valid

theorem toNat_octet {n : Nat} (h : n < 256) : (UInt8.ofNat n).toNat = n := by
  rw [UInt8.toNat_ofNat']
  exact Nat.mod_eq_of_lt h

theorem mod_lt (n : Nat) : n % 0x40 < 64 := Nat.mod_lt n (by decide)

/-- One continuation octet adds six bits. -/
theorem continue?_octet {more value distance n : Nat} {bs : List UInt8} (h : n < 64) :
    continue? (more + 1) value distance (UInt8.ofNat (n + 0x80) :: bs) =
      continue? more (value * 64 + n) (distance + 1) bs := by
  rw [continue?, toNat_octet (by omega), if_pos (by omega), Nat.add_sub_cancel]

/-- `step` passes its checks on octets that complete the number of a character, if none fewer
would do. -/
theorem step_eq {c : Char} {b : UInt8} {n : Nat} {tail bs : List UInt8} (bits : Nat)
    (hb : leading? b = some (tail.length, bits))
    (hn : continue? tail.length bits 1 (tail ++ bs) = .ok n)
    (hc : n = c.toNat) (hl : leastOf tail.length ≤ n) :
    step b (tail ++ bs) = .ok (c, tail.length) := by
  have hv : n.isValidChar := hc ▸ isValidChar_toNat c
  have hlen : ¬ ((tail ++ bs).take tail.length).length < tail.length := by
    rw [List.length_take, List.length_append]
    omega
  rw [step, hb]
  dsimp only
  rw [if_neg hlen, hn]
  dsimp only
  rw [if_neg (Nat.not_lt.mpr hl), dif_pos hv, ofNatAux_eq hc hv]

section Leading

variable {x : Nat}

theorem leading?_one (hx : x < 0x80) : leading? (UInt8.ofNat x) = some (0, x) := by
  rw [leading?, toNat_octet (by omega)]
  simp [hx]

theorem leading?_two (hx : x < 0x20) : leading? (UInt8.ofNat (x + 0xC0)) = some (1, x) := by
  rw [leading?, toNat_octet (by omega)]
  simp [show ¬ x + 192 < 128 by omega, show x + 192 < 224 by omega]

theorem leading?_three (hx : x < 0x10) : leading? (UInt8.ofNat (x + 0xE0)) = some (2, x) := by
  rw [leading?, toNat_octet (by omega)]
  simp [show ¬ x + 224 < 128 by omega, show ¬ x + 224 < 192 by omega,
    show x + 224 < 240 by omega]

theorem leading?_four (hx : x < 0x08) : leading? (UInt8.ofNat (x + 0xF0)) = some (3, x) := by
  rw [leading?, toNat_octet (by omega)]
  simp [show ¬ x + 240 < 128 by omega, show ¬ x + 240 < 192 by omega,
    show ¬ x + 240 < 224 by omega, show x + 240 < 248 by omega]

end Leading

/-- **The octets of a character are read as that character**, whatever follows them. -/
theorem step_encodeChar (c : Char) :
    ∃ b tail, String.utf8EncodeChar c = b :: tail ∧
      ∀ bs, step b (tail ++ bs) = .ok (c, tail.length) := by
  have hc : c.toNat < 0x110000 := by
    rcases isValidChar_toNat c with h | h <;> omega
  -- One case for each width, with the bits of the number spread over that many octets.
  unfold String.utf8EncodeChar
  simp only [show c.val.toNat = c.toNat from rfl]
  split
  case isTrue h1 =>
    exact ⟨_, _, rfl, fun bs =>
      step_eq c.toNat (leading?_one (by omega)) rfl rfl (Nat.zero_le _)⟩
  case isFalse h1 =>
  split
  case isTrue h2 =>
    refine ⟨_, _, rfl, fun bs => step_eq _ (leading?_two (Nat.mod_lt _ (by decide))) ?_ rfl
      (show 0x80 ≤ c.toNat by omega)⟩
    simp only [List.length_cons, List.length_nil, List.cons_append]
    rw [continue?_octet (mod_lt _), continue?]
    exact congrArg Except.ok (by omega)
  case isFalse h2 =>
  split
  case isTrue h3 =>
    refine ⟨_, _, rfl, fun bs => step_eq _ (leading?_three (Nat.mod_lt _ (by decide))) ?_ rfl
      (show 0x800 ≤ c.toNat by omega)⟩
    simp only [List.length_cons, List.length_nil, List.cons_append]
    rw [continue?_octet (mod_lt _), continue?_octet (mod_lt _), continue?]
    exact congrArg Except.ok (by omega)
  case isFalse h3 =>
    refine ⟨_, _, rfl, fun bs => step_eq _ (leading?_four (Nat.mod_lt _ (by decide))) ?_ rfl
      (show 0x10000 ≤ c.toNat by omega)⟩
    simp only [List.length_cons, List.length_nil, List.cons_append]
    rw [continue?_octet (mod_lt _), continue?_octet (mod_lt _), continue?_octet (mod_lt _),
      continue?]
    exact congrArg Except.ok (by omega)

/-- **Decoding undoes encoding.** -/
theorem decode?_encode (cs : List Char) : decode? (encode cs) = some cs := by
  induction cs with
  | nil => rw [encode_nil, decode?]
  | cons c cs ih =>
    obtain ⟨b, tail, hb, hs⟩ := step_encodeChar c
    rw [encode_cons, hb, List.cons_append, decode?, hs (encode cs)]
    simp [ih]

theorem decodeString?_encodeString (s : String) : decodeString? (encodeString s) = some s := by
  simp [decodeString?, encodeString, decode?_encode]

/-! ## What is decoded was encoded -/

/-- **A leading octet** announces how many octets follow it, and brings as many bits as it has room
for beside that. -/
theorem leading?_eq_some {b : UInt8} {more bits : Nat} (h : leading? b = some (more, bits)) :
    (more = 0 ∧ bits < 0x80 ∧ b = UInt8.ofNat bits) ∨
      (more = 1 ∧ bits < 0x20 ∧ b = UInt8.ofNat (bits + 0xC0)) ∨
      (more = 2 ∧ bits < 0x10 ∧ b = UInt8.ofNat (bits + 0xE0)) ∨
      (more = 3 ∧ bits < 0x08 ∧ b = UInt8.ofNat (bits + 0xF0)) := by
  have hoctet {n : Nat} (hn : b.toNat = n) : b = UInt8.ofNat n := by
    rw [← hn, UInt8.ofNat_toNat]
  unfold leading? at h
  dsimp only at h
  split at h
  · cases h
    exact .inl ⟨rfl, by omega, hoctet rfl⟩
  split at h
  · cases h
  split at h
  · cases h
    exact .inr (.inl ⟨rfl, by omega, hoctet (by omega)⟩)
  split at h
  · cases h
    exact .inr (.inr (.inl ⟨rfl, by omega, hoctet (by omega)⟩))
  split at h
  · cases h
    exact .inr (.inr (.inr ⟨rfl, by omega, hoctet (by omega)⟩))
  · cases h

/-- An octet that continues a number brings six bits. -/
theorem continue?_eq_ok {more value distance n : Nat} {bs : List UInt8}
    (h : continue? (more + 1) value distance bs = .ok n) :
    ∃ x rest, x < 64 ∧ bs = UInt8.ofNat (x + 0x80) :: rest ∧
      continue? more (value * 64 + x) (distance + 1) rest = .ok n := by
  cases bs with
  | nil => cases h
  | cons b rest =>
    rw [continue?] at h
    split at h
    case isTrue hb =>
      refine ⟨b.toNat - 0x80, rest, by omega, ?_, h⟩
      rw [Nat.sub_add_cancel hb.1, UInt8.ofNat_toNat]
    case isFalse => cases h

section Widths

variable {c : Char} {x y z w : Nat}

theorem encodeChar_one (hx : x < 0x80) (hc : x = c.toNat) :
    String.utf8EncodeChar c = [UInt8.ofNat x] := by
  unfold String.utf8EncodeChar
  simp only [show c.val.toNat = c.toNat from rfl, ← hc]
  rw [if_pos (by omega)]

theorem encodeChar_two (hx : x < 0x20) (hy : y < 64) (hc : x * 64 + y = c.toNat)
    (hl : 0x80 ≤ x * 64 + y) :
    String.utf8EncodeChar c = [UInt8.ofNat (x + 0xC0), UInt8.ofNat (y + 0x80)] := by
  unfold String.utf8EncodeChar
  simp only [show c.val.toNat = c.toNat from rfl, ← hc]
  rw [if_neg (by omega), if_pos (by omega)]
  have hhigh : (x * 64 + y) / 64 % 0x20 = x := by omega
  have hlow : (x * 64 + y) % 64 = y := by omega
  rw [hhigh, hlow]

theorem encodeChar_three (hx : x < 0x10) (hy : y < 64) (hz : z < 64)
    (hc : (x * 64 + y) * 64 + z = c.toNat) (hl : 0x800 ≤ (x * 64 + y) * 64 + z) :
    String.utf8EncodeChar c =
      [UInt8.ofNat (x + 0xE0), UInt8.ofNat (y + 0x80), UInt8.ofNat (z + 0x80)] := by
  unfold String.utf8EncodeChar
  simp only [show c.val.toNat = c.toNat from rfl, ← hc]
  rw [if_neg (by omega), if_neg (by omega), if_pos (by omega)]
  have hhigh : ((x * 64 + y) * 64 + z) / 4096 % 0x10 = x := by omega
  have hmiddle : ((x * 64 + y) * 64 + z) / 64 % 64 = y := by omega
  have hlow : ((x * 64 + y) * 64 + z) % 64 = z := by omega
  rw [hhigh, hmiddle, hlow]

theorem encodeChar_four (hx : x < 0x08) (hy : y < 64) (hz : z < 64) (hw : w < 64)
    (hc : ((x * 64 + y) * 64 + z) * 64 + w = c.toNat)
    (hl : 0x10000 ≤ ((x * 64 + y) * 64 + z) * 64 + w) :
    String.utf8EncodeChar c =
      [UInt8.ofNat (x + 0xF0), UInt8.ofNat (y + 0x80), UInt8.ofNat (z + 0x80),
        UInt8.ofNat (w + 0x80)] := by
  unfold String.utf8EncodeChar
  simp only [show c.val.toNat = c.toNat from rfl, ← hc]
  rw [if_neg (by omega), if_neg (by omega), if_neg (by omega)]
  have hfirst : (((x * 64 + y) * 64 + z) * 64 + w) / 262144 % 0x08 = x := by omega
  have hsecond : (((x * 64 + y) * 64 + z) * 64 + w) / 4096 % 64 = y := by omega
  have hthird : (((x * 64 + y) * 64 + z) * 64 + w) / 64 % 64 = z := by omega
  have hfourth : (((x * 64 + y) * 64 + z) * 64 + w) % 64 = w := by omega
  rw [hfirst, hsecond, hthird, hfourth]

end Widths

/-- A character that is read has passed every check: what its octets complete is its number, and
no fewer of them would do. -/
theorem step_eq_ok {b : UInt8} {bs : List UInt8} {c : Char} {more : Nat}
    (h : step b bs = .ok (c, more)) :
    ∃ bits, leading? b = some (more, bits) ∧ continue? more bits 1 bs = .ok c.toNat ∧
      leastOf more ≤ c.toNat := by
  unfold step at h
  cases hlead : leading? b with
  | none =>
    rw [hlead] at h
    cases h
  | some announced =>
    obtain ⟨more', bits⟩ := announced
    rw [hlead] at h
    dsimp only at h
    by_cases hlength : (bs.take more').length < more'
    · rw [if_pos hlength] at h
      cases h
    rw [if_neg hlength] at h
    cases hn : continue? more' bits 1 bs with
    | error f =>
      rw [hn] at h
      cases h
    | ok n =>
      rw [hn] at h
      dsimp only at h
      by_cases hleast : n < leastOf more'
      · rw [if_pos hleast] at h
        cases h
      rw [if_neg hleast] at h
      by_cases hvalid : n.isValidChar
      · rw [dif_pos hvalid] at h
        cases h
        exact ⟨bits, rfl, hn, Nat.le_of_not_lt hleast⟩
      · rw [dif_neg hvalid] at h
        cases h

/-- **The octets that are read as a character are those that encode it**, so no other sequence is
read as one. -/
theorem encodeChar_of_step {b : UInt8} {bs : List UInt8} {c : Char} {more : Nat}
    (h : step b bs = .ok (c, more)) :
    b :: bs = String.utf8EncodeChar c ++ bs.drop more := by
  obtain ⟨bits, hlead, hn, hleast⟩ := step_eq_ok h
  rcases leading?_eq_some hlead with
    ⟨rfl, hx, rfl⟩ | ⟨rfl, hx, rfl⟩ | ⟨rfl, hx, rfl⟩ | ⟨rfl, hx, rfl⟩
  · rw [encodeChar_one hx (Except.ok.inj hn)]
    rfl
  · obtain ⟨y, rest, hy, rfl, hend⟩ := continue?_eq_ok hn
    have hc := Except.ok.inj hend
    rw [encodeChar_two hx hy hc (hc ▸ hleast)]
    rfl
  · obtain ⟨y, rest, hy, rfl, hnext⟩ := continue?_eq_ok hn
    obtain ⟨z, rest, hz, rfl, hend⟩ := continue?_eq_ok hnext
    have hc := Except.ok.inj hend
    rw [encodeChar_three hx hy hz hc (hc ▸ hleast)]
    rfl
  · obtain ⟨y, rest, hy, rfl, hnext⟩ := continue?_eq_ok hn
    obtain ⟨z, rest, hz, rfl, hlast⟩ := continue?_eq_ok hnext
    obtain ⟨w, rest, hw, rfl, hend⟩ := continue?_eq_ok hlast
    have hc := Except.ok.inj hend
    rw [encodeChar_four hx hy hz hw hc (hc ▸ hleast)]
    rfl

/-- The octets encode a text. -/
def IsText (bs : List UInt8) : Prop := ∃ cs, bs = encode cs

/-- Decoding gives the text that the octets encode. -/
theorem encode_of_decode? {bs : List UInt8} {cs : List Char} (h : decode? bs = some cs) :
    bs = encode cs := by
  fun_induction decode? bs generalizing cs with
  | case1 =>
    cases h
    rfl
  | case2 b bs f hstep => cases h
  | case3 b bs c more hstep ih =>
    obtain ⟨ds, hds, rfl⟩ := Option.map_eq_some_iff.mp h
    rw [encode_cons, ← ih hds]
    exact encodeChar_of_step hstep

theorem isText_iff (bs : List UInt8) : IsText bs ↔ (decode? bs).isSome := by
  constructor
  · rintro ⟨cs, rfl⟩
    rw [decode?_encode]
    rfl
  · intro h
    obtain ⟨cs, hcs⟩ := Option.isSome_iff_exists.mp h
    exact ⟨cs, encode_of_decode? hcs⟩

instance (bs : List UInt8) : Decidable (IsText bs) :=
  decidable_of_iff _ (isText_iff bs).symm

end ConfigVault.Text.Utf8
