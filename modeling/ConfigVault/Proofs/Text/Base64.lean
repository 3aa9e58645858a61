import ConfigVault.Text.Base64
import ConfigVault.Text.Utf8

/-! # Base64 is read back

Octets are read back from their symbols, group by group (`decode?_encode`), and from the text of the
symbols, which needs one octet for each (`decode?_encodeString`).
-/
namespace ConfigVault.Text.Base64

/-! ## Symbols -/

theorem value?_symbol {v : Nat} (h : v < 64) : value? (symbol v) = some v := by
  have hall : ∀ v : Fin 64, value? (symbol v) = some v.val := by decide
  exact hall ⟨v, h⟩

theorem symbol_ne_pad {v : Nat} (h : v < 64) : symbol v ≠ pad := by
  have hall : ∀ v : Fin 64, symbol v ≠ pad := by decide
  exact hall ⟨v, h⟩

theorem valueAt_symbol (offset : Nat) {v : Nat} (h : v < 64) : valueAt offset (symbol v) = .ok v := by
  rw [valueAt, value?_symbol h]

theorem symbol_lt (v : Nat) : (symbol v).toNat < 0x80 := by
  have hrange {base w n : Nat} (hw : w < n) (hn : base + n ≤ 0x80) :
      (UInt8.ofNat (base + w)).toNat < 0x80 := by
    rw [UInt8.toNat_ofNat']
    omega
  unfold symbol
  split
  case isTrue h => exact hrange h (by decide)
  split
  case isTrue h => exact hrange (n := 26) (by omega) (by decide)
  split
  case isTrue h => exact hrange (n := 10) (by omega) (by decide)
  split <;> decide

theorem ofNat_eq {n : Nat} {a : UInt8} (h : n = a.toNat) : UInt8.ofNat n = a := by
  rw [h, UInt8.ofNat_toNat]

/-! ## Groups -/

/-- The four symbols of three octets. -/
theorem fullGroup_symbols (offset : Nat) (a b c : UInt8) :
    fullGroup offset (symbol (a.toNat / 4)) (symbol (a.toNat % 4 * 16 + b.toNat / 16))
      (symbol (b.toNat % 16 * 4 + c.toNat / 64)) (symbol (c.toNat % 64)) = .ok [a, b, c] := by
  have ha := a.toNat_lt
  have hb := b.toNat_lt
  have hc := c.toNat_lt
  have hfirst : UInt8.ofNat (a.toNat / 4 * 4 + (a.toNat % 4 * 16 + b.toNat / 16) / 16) = a :=
    ofNat_eq (by omega)
  have hsecond : UInt8.ofNat ((a.toNat % 4 * 16 + b.toNat / 16) % 16 * 16 +
      (b.toNat % 16 * 4 + c.toNat / 64) / 4) = b := ofNat_eq (by omega)
  have hthird : UInt8.ofNat ((b.toNat % 16 * 4 + c.toNat / 64) % 4 * 64 + c.toNat % 64) = c :=
    ofNat_eq (by omega)
  rw [fullGroup, valueAt_symbol _ (by omega), valueAt_symbol _ (by omega),
    valueAt_symbol _ (by omega), valueAt_symbol _ (by omega)]
  show Except.ok _ = _
  rw [hfirst, hsecond, hthird]

theorem oneOctet_symbols (offset : Nat) (a : UInt8) :
    oneOctet offset (symbol (a.toNat / 4)) (symbol (a.toNat % 4 * 16)) = .ok [a] := by
  have ha := a.toNat_lt
  have hfirst : UInt8.ofNat (a.toNat / 4 * 4 + a.toNat % 4 * 16 / 16) = a := ofNat_eq (by omega)
  rw [oneOctet, valueAt_symbol _ (by omega), valueAt_symbol _ (by omega)]
  show (if a.toNat % 4 * 16 % 16 = 0 then _ else _) = _
  rw [if_pos (by omega), hfirst]
  rfl

theorem twoOctets_symbols (offset : Nat) (a b : UInt8) :
    twoOctets offset (symbol (a.toNat / 4)) (symbol (a.toNat % 4 * 16 + b.toNat / 16))
      (symbol (b.toNat % 16 * 4)) = .ok [a, b] := by
  have ha := a.toNat_lt
  have hb := b.toNat_lt
  have hfirst : UInt8.ofNat (a.toNat / 4 * 4 + (a.toNat % 4 * 16 + b.toNat / 16) / 16) = a :=
    ofNat_eq (by omega)
  have hsecond : UInt8.ofNat ((a.toNat % 4 * 16 + b.toNat / 16) % 16 * 16 +
      b.toNat % 16 * 4 / 4) = b := ofNat_eq (by omega)
  rw [twoOctets, valueAt_symbol _ (by omega), valueAt_symbol _ (by omega),
    valueAt_symbol _ (by omega)]
  show (if b.toNat % 16 * 4 % 4 = 0 then _ else _) = _
  rw [if_pos (by omega), hfirst, hsecond]
  rfl

theorem encode_ne_nil (a : UInt8) (octets : List UInt8) : encode (a :: octets) ≠ [] := by
  cases octets with
  | nil => simp [encode]
  | cons b octets => cases octets <;> simp [encode]

/-- **The groups are read one after the other**, from whatever offset they begin at. -/
theorem groups_encode (octets : List UInt8) (offset : Nat) :
    groups offset (encode octets) = .ok octets := by
  fun_induction encode octets generalizing offset with
  | case1 => rfl
  | case2 a =>
    rw [groups, lastGroup, if_pos rfl, if_pos rfl, oneOctet_symbols]
    exact fun a b c d e rest h => by simp at h
  | case3 a b =>
    have hb := b.toNat_lt
    rw [groups, lastGroup, if_pos rfl, if_neg (symbol_ne_pad (by omega)), twoOctets_symbols]
    exact fun a b c d e rest h => by simp at h
  | case4 a b c rest ih =>
    have hc := c.toNat_lt
    have hb := b.toNat_lt
    cases rest with
    | nil =>
      rw [encode, groups, lastGroup, if_neg (symbol_ne_pad (by omega)),
        if_neg (symbol_ne_pad (by omega)), fullGroup_symbols]
      exact fun a b c d e rest h => by simp at h
    | cons d rest =>
      obtain ⟨e, tail, htail⟩ := List.exists_cons_of_ne_nil (encode_ne_nil d rest)
      have hrest := ih (offset + 4)
      rw [htail] at hrest ⊢
      rw [groups, fullGroup_symbols, hrest]
      rfl

theorem length_encode (octets : List UInt8) : (encode octets).length % 4 = 0 := by
  fun_induction encode octets with
  | case1 => rfl
  | case2 => simp
  | case3 => simp
  | case4 a b c rest ih =>
    simp only [List.length_cons]
    omega

/-- **Octets are read back from their symbols.** -/
theorem decode?_encode (octets : List UInt8) : decode? (encode octets) = .ok octets := by
  rw [decode?, strayOctet?, if_neg (by rw [length_encode]; decide)]
  exact groups_encode octets 0

/-! ## Texts -/

theorem lt_of_mem_encode {octets : List UInt8} {c : UInt8} (h : c ∈ encode octets) :
    c.toNat < 0x80 := by
  have hpad : pad.toNat < 0x80 := by decide
  fun_induction encode octets with
  | case1 => cases h
  | case2 a =>
    simp only [List.mem_cons, List.not_mem_nil, or_false] at h
    rcases h with rfl | rfl | rfl | rfl <;> first | exact symbol_lt _ | exact hpad
  | case3 a b =>
    simp only [List.mem_cons, List.not_mem_nil, or_false] at h
    rcases h with rfl | rfl | rfl | rfl <;> first | exact symbol_lt _ | exact hpad
  | case4 a b c rest ih =>
    simp only [List.mem_cons] at h
    rcases h with rfl | rfl | rfl | rfl | h
    · exact symbol_lt _
    · exact symbol_lt _
    · exact symbol_lt _
    · exact symbol_lt _
    · exact ih h

/-- Octets below `0x80` are characters of their own. -/
theorem encode_ofNat {octets : List UInt8} (h : ∀ c ∈ octets, c.toNat < 0x80) :
    Utf8.encode (octets.map fun c => Char.ofNat c.toNat) = octets := by
  induction octets with
  | nil => rfl
  | cons c octets ih =>
    have hc : c.toNat < 0x80 := h c (by simp)
    have hval : (Char.ofNat c.toNat).val.toNat = c.toNat := by
      have hvalid : c.toNat.isValidChar := .inl (by omega)
      rw [Char.ofNat, dif_pos hvalid]
      rfl
    have hchar : String.utf8EncodeChar (Char.ofNat c.toNat) = [c] := by
      rw [String.utf8EncodeChar, hval, if_pos (by omega)]
      exact congrArg (fun x => [x]) (ofNat_eq rfl)
    rw [List.map_cons, Utf8.encode_cons, hchar, ih fun d hd => h d (by simp [hd])]
    rfl

/-- **Octets are read back from their text.** -/
theorem decode?_encodeString (octets : List UInt8) :
    decode? (Utf8.encodeString (encodeString octets)) = .ok octets := by
  rw [Utf8.encodeString, encodeString, String.toList_ofList,
    encode_ofNat fun c hc => lt_of_mem_encode hc, decode?_encode]

end ConfigVault.Text.Base64
