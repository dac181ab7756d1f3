import IndexFleet.Proofs.Text.Utf8
import IndexFleet.Text.Percent

namespace IndexFleet.Text.Percent

-- The characters that stand for themselves.
def IsUnreserved (c : Char) : Prop := c.isAlphanum = true ∨ c ∈ ['-', '_', '.', '~']

instance (c : Char) : Decidable (IsUnreserved c) := inferInstanceAs (Decidable (_ ∨ _))

def digits : List Char := "0123456789ABCDEF".toList

-- Text in which a percent sign has two digits behind it and all else stands for itself.
inductive IsEscaped : List Char → Prop
  | nil : IsEscaped []
  | plain {c : Char} {rest : List Char} (hc : IsUnreserved c) (hrest : IsEscaped rest) :
      IsEscaped (c :: rest)
  | escape {high low : Char} {rest : List Char} (hhigh : high ∈ digits) (hlow : low ∈ digits)
      (hrest : IsEscaped rest) : IsEscaped ('%' :: high :: low :: rest)

def digitValue? (c : Char) : Option Nat := digits.idxOf? c.toUpper

-- Reads percent escapes back. A percent sign that begins none stands for itself.
def decodeBytes : List Char → Bytes
  | [] => []
  | '%' :: high :: low :: rest =>
      match digitValue? high, digitValue? low with
      | some first, some second => UInt8.ofNat (16 * first + second) :: decodeBytes rest
      | _, _ => 0x25 :: decodeBytes (high :: low :: rest)
  | c :: rest => String.utf8EncodeChar c ++ decodeBytes rest

variable {c : Char} {byte : UInt8} {text rest : List Char} {n : Nat}

theorem hexDigit_mem_digits (hn : n < 16) : hexDigit n ∈ digits := by
  revert n
  decide

theorem digitValue?_hexDigit (hn : n < 16) : digitValue? (hexDigit n) = some n := by
  revert n
  decide

-- A byte that needs no escape is the one byte of the character that it is written as.
theorem isUnreserved_of_byte (hbyte : isUnreserved byte = true) :
    IsUnreserved (Char.ofNat byte.toNat) ∧
      String.utf8EncodeChar (Char.ofNat byte.toNat) = [byte] := by
  have hall : ∀ n < 256, isUnreserved (UInt8.ofNat n) = true → IsUnreserved (Char.ofNat n) ∧
      String.utf8EncodeChar (Char.ofNat n) = [UInt8.ofNat n] := by
    decide +kernel
  simpa [hbyte] using hall byte.toNat byte.toNat_lt

theorem decodeBytes_cons (hplain : c ≠ '%') (rest : List Char) :
    decodeBytes (c :: rest) = String.utf8EncodeChar c ++ decodeBytes rest := by
  rw [decodeBytes.eq_def]
  split <;> simp_all

theorem decodeBytes_escape (byte : UInt8) (rest : List Char) :
    decodeBytes ('%' :: hexDigit (byte.toNat / 16) :: hexDigit (byte.toNat % 16) :: rest) =
      byte :: decodeBytes rest := by
  have hhigh : byte.toNat / 16 < 16 := by have := byte.toNat_lt; omega
  have hlow : byte.toNat % 16 < 16 := Nat.mod_lt _ (by decide)
  have hwhole : 16 * (byte.toNat / 16) + byte.toNat % 16 = byte.toNat := Nat.div_add_mod _ _
  rw [decodeBytes, digitValue?_hexDigit hhigh, digitValue?_hexDigit hlow]
  simp only [hwhole, UInt8.ofNat_toNat]

-- What stands for a byte is read as this byte, whatever follows.
theorem decodeBytes_encodeByte (byte : UInt8) (rest : List Char) :
    decodeBytes (encodeByte byte ++ rest) = byte :: decodeBytes rest := by
  unfold encodeByte
  cases hbyte : isUnreserved byte with
  | true =>
      obtain ⟨hchar, hself⟩ := isUnreserved_of_byte hbyte
      have hplain : Char.ofNat byte.toNat ≠ '%' := fun hsign =>
        absurd (hsign ▸ hchar) (by decide)
      rw [if_pos rfl, List.singleton_append, decodeBytes_cons hplain, hself]
      rfl
  | false => exact decodeBytes_escape byte rest

theorem decodeBytes_encodeBytes (bytes : Bytes) : decodeBytes (encodeBytes bytes) = bytes := by
  induction bytes with
  | nil => rfl
  | cons byte bytes ih =>
      rw [encodeBytes, List.flatMap_cons, decodeBytes_encodeByte, ← encodeBytes, ih]

theorem decodeBytes_encode (text : String) : decodeBytes (encode text).toList = utf8 text := by
  rw [encode, String.toList_ofList, decodeBytes_encodeBytes]

theorem encode_injective : Function.Injective encode := fun text other hsame => by
  rw [← Utf8.decode_utf8 text, ← decodeBytes_encode, hsame, decodeBytes_encode, Utf8.decode_utf8]

theorem isEscaped_encodeBytes (bytes : Bytes) : IsEscaped (encodeBytes bytes) := by
  induction bytes with
  | nil => exact .nil
  | cons byte bytes ih =>
      rw [encodeBytes, List.flatMap_cons, ← encodeBytes, encodeByte]
      cases hbyte : isUnreserved byte with
      | true => exact .plain (isUnreserved_of_byte hbyte).1 ih
      | false =>
          have hhigh : byte.toNat / 16 < 16 := by have := byte.toNat_lt; omega
          have hlow : byte.toNat % 16 < 16 := Nat.mod_lt _ (by decide)
          exact .escape (hexDigit_mem_digits hhigh) (hexDigit_mem_digits hlow) ih

theorem isEscaped_encode (text : String) : IsEscaped (encode text).toList := by
  rw [encode, String.toList_ofList]
  exact isEscaped_encodeBytes _

-- What is written takes as much room as the bytes that it stands for, or more.
theorem length_le_utf8ByteSize_encode (text : String) :
    (utf8 text).length ≤ (encode text).utf8ByteSize := by
  unfold encode
  induction utf8 text with
  | nil => exact Nat.zero_le _
  | cons byte bytes ih =>
      have hgiven : 0 < (String.ofList (encodeByte byte)).utf8ByteSize := by
        refine Nat.pos_of_ne_zero fun hnone => ?_
        have hempty := String.utf8ByteSize_eq_zero_iff.mp hnone
        unfold encodeByte at hempty
        split at hempty <;> simp at hempty
      rw [encodeBytes, List.flatMap_cons, ← encodeBytes, String.ofList_append,
        String.utf8ByteSize_append, List.length_cons]
      omega

theorem isUnreserved_of_mem_digits (hc : c ∈ digits) : IsUnreserved c := by
  have hall : digits.all fun c => decide (IsUnreserved c) := by decide
  exact of_decide_eq_true (List.all_eq_true.mp hall c hc)

theorem IsEscaped.isUnreserved_or_eq (h : IsEscaped text) (hc : c ∈ text) :
    IsUnreserved c ∨ c = '%' := by
  induction h with
  | nil => cases hc
  | plain hfirst _ ih =>
      rcases List.mem_cons.mp hc with rfl | hmore
      · exact .inl hfirst
      · exact ih hmore
  | escape hhigh hlow _ ih =>
      simp only [List.mem_cons] at hc
      rcases hc with rfl | rfl | rfl | hmore
      · exact .inr rfl
      · exact .inl (isUnreserved_of_mem_digits hhigh)
      · exact .inl (isUnreserved_of_mem_digits hlow)
      · exact ih hmore

-- No character that a query gives a meaning to occurs.
theorem IsEscaped.not_mem (h : IsEscaped text) (hc : ¬IsUnreserved c) (hsign : c ≠ '%') :
    c ∉ text := fun hmem => (h.isUnreserved_or_eq hmem).elim hc hsign

end IndexFleet.Text.Percent
