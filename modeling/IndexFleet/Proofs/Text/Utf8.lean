import IndexFleet.Text.Utf8
import Mathlib.Data.List.Basic

namespace IndexFleet.Text.Utf8

variable {a b c d byte : UInt8} {scalar : Nat} {front bytes rest : Bytes}

theorem within_iff {low high byte : UInt8} :
    within low high byte = true ↔ low.toNat ≤ byte.toNat ∧ byte.toNat ≤ high.toNat := by
  simp [within, UInt8.le_iff_toNat_le]

theorem isTail_iff : isTail byte = true ↔ 128 ≤ byte.toNat ∧ byte.toNat ≤ 191 := within_iff

theorem ascii_iff : a < 0x80 ↔ a.toNat < 128 := UInt8.lt_iff_toNat_lt

theorem leadOfTwo_iff : within 0xC2 0xDF a = true ↔ 194 ≤ a.toNat ∧ a.toNat ≤ 223 := within_iff

theorem leadOfThree_iff : within 0xE0 0xEF a = true ↔ 224 ≤ a.toNat ∧ a.toNat ≤ 239 := within_iff

theorem leadOfFour_iff : within 0xF0 0xF4 a = true ↔ 240 ≤ a.toNat ∧ a.toNat ≤ 244 := within_iff

theorem isSecondOfThree_iff :
    isSecondOfThree a b = true ↔ (128 ≤ b.toNat ∧ b.toNat ≤ 191) ∧
      (a.toNat = 224 → 160 ≤ b.toNat) ∧ (a.toNat = 237 → b.toNat ≤ 159) := by
  have hfirst : a = 0xE0 ↔ a.toNat = 224 := UInt8.toNat_inj.symm
  have hsurrogate : a = 0xED ↔ a.toNat = 237 := UInt8.toNat_inj.symm
  simp only [isSecondOfThree, beq_iff_eq, hfirst, hsurrogate]
  repeat' split
  all_goals
    simp only [within_iff, isTail_iff, UInt8.reduceToNat]
    omega

theorem isSecondOfFour_iff :
    isSecondOfFour a b = true ↔ (128 ≤ b.toNat ∧ b.toNat ≤ 191) ∧
      (a.toNat = 240 → 144 ≤ b.toNat) ∧ (a.toNat = 244 → b.toNat ≤ 143) := by
  have hfirst : a = 0xF0 ↔ a.toNat = 240 := UInt8.toNat_inj.symm
  have hlast : a = 0xF4 ↔ a.toNat = 244 := UInt8.toNat_inj.symm
  simp only [isSecondOfFour, beq_iff_eq, hfirst, hlast]
  repeat' split
  all_goals
    simp only [within_iff, isTail_iff, UInt8.reduceToNat]
    omega

-- The well-formed sequences of bytes, each with the scalar value that it stands for.
inductive Encodes : Bytes → Nat → Prop
  | one {a : UInt8} (ha : a < 0x80) : Encodes [a] a.toNat
  | two {a b : UInt8} (ha : within 0xC2 0xDF a = true) (hb : isTail b = true) :
      Encodes [a, b] (a.toNat % 32 * 64 + low6 b)
  | three {a b c : UInt8} (ha : within 0xE0 0xEF a = true) (hb : isSecondOfThree a b = true)
      (hc : isTail c = true) :
      Encodes [a, b, c] ((a.toNat % 16 * 64 + low6 b) * 64 + low6 c)
  | four {a b c d : UInt8} (ha : within 0xF0 0xF4 a = true) (hb : isSecondOfFour a b = true)
      (hc : isTail c = true) (hd : isTail d = true) :
      Encodes [a, b, c, d] (((a.toNat % 8 * 64 + low6 b) * 64 + low6 c) * 64 + low6 d)

-- No sequence stands for a surrogate or for a value beyond the last character.
theorem Encodes.isValidChar (h : Encodes bytes scalar) : scalar.isValidChar := by
  unfold Nat.isValidChar
  cases h with
  | one ha =>
      rw [ascii_iff] at ha
      omega
  | two ha hb =>
      rw [leadOfTwo_iff] at ha
      unfold low6
      omega
  | three ha hb hc =>
      rw [leadOfThree_iff] at ha
      rw [isSecondOfThree_iff] at hb
      unfold low6
      omega
  | four ha hb hc hd =>
      rw [leadOfFour_iff] at ha
      rw [isSecondOfFour_iff] at hb
      unfold low6
      omega

theorem toNat_ofNat_of_isValidChar (hvalid : scalar.isValidChar) :
    (Char.ofNat scalar).val.toNat = scalar := by
  rw [Char.ofNat, dif_pos hvalid]
  rfl

-- A sequence is how its character is written.
theorem Encodes.utf8EncodeChar_eq (h : Encodes bytes scalar) :
    String.utf8EncodeChar (Char.ofNat scalar) = bytes := by
  have hvalid := h.isValidChar
  simp only [String.utf8EncodeChar, toNat_ofNat_of_isValidChar hvalid]
  cases h with
  | one ha =>
      rw [ascii_iff] at ha
      rw [if_pos (by omega), UInt8.ofNat_toNat]
  | two ha hb =>
      rw [leadOfTwo_iff] at ha
      rw [isTail_iff] at hb
      unfold low6
      rw [if_neg (by omega), if_pos (by omega)]
      simp only [List.cons.injEq, ← UInt8.toNat_inj, UInt8.toNat_ofNat', and_true]
      omega
  | three ha hb hc =>
      rw [leadOfThree_iff] at ha
      rw [isSecondOfThree_iff] at hb
      rw [isTail_iff] at hc
      unfold low6
      rw [if_neg (by omega), if_neg (by omega), if_pos (by omega)]
      simp only [List.cons.injEq, ← UInt8.toNat_inj, UInt8.toNat_ofNat', and_true]
      omega
  | four ha hb hc hd =>
      rw [leadOfFour_iff] at ha
      rw [isSecondOfFour_iff] at hb
      rw [isTail_iff] at hc hd
      unfold low6
      rw [if_neg (by omega), if_neg (by omega), if_neg (by omega)]
      simp only [List.cons.injEq, ← UInt8.toNat_inj, UInt8.toNat_ofNat', and_true]
      omega

theorem toNat_ofNat_of_lt {number : Nat} (hsmall : number < 256) :
    (UInt8.ofNat number).toNat = number :=
  UInt8.toNat_ofNat'.trans (Nat.mod_eq_of_lt hsmall)

theorem Encodes.of_eq {other : Nat} (h : Encodes bytes scalar) (hsame : scalar = other) :
    Encodes bytes other :=
  hsame ▸ h

-- Every character has such a sequence.
theorem encodes_utf8EncodeChar (char : Char) :
    Encodes (String.utf8EncodeChar char) char.toNat := by
  have hvalid : char.val.toNat < 55296 ∨ 57343 < char.val.toNat ∧ char.val.toNat < 1114112 :=
    char.valid
  change Encodes _ char.val.toNat
  generalize hscalar : char.val.toNat = scalar at hvalid
  simp only [String.utf8EncodeChar, hscalar]
  have htail : ∀ number, (UInt8.ofNat (number % 64 + 128)).toNat = number % 64 + 128 :=
    fun number => toNat_ofNat_of_lt (by omega)
  split
  case isTrue hone =>
      have hnumber : (UInt8.ofNat scalar).toNat = scalar := toNat_ofNat_of_lt (by omega)
      exact (Encodes.one (ascii_iff.mpr (by omega))).of_eq hnumber
  split
  case isTrue htwo =>
      have hlead : (UInt8.ofNat (scalar / 64 % 32 + 192)).toNat = scalar / 64 % 32 + 192 :=
        toNat_ofNat_of_lt (by omega)
      refine (Encodes.two (leadOfTwo_iff.mpr ?_) (isTail_iff.mpr ?_)).of_eq ?_
      all_goals
        simp only [low6, hlead, htail]
        omega
  split
  case isTrue hthree =>
      have hlead : (UInt8.ofNat (scalar / 4096 % 16 + 224)).toNat = scalar / 4096 % 16 + 224 :=
        toNat_ofNat_of_lt (by omega)
      refine (Encodes.three (leadOfThree_iff.mpr ?_) (isSecondOfThree_iff.mpr ?_)
        (isTail_iff.mpr ?_)).of_eq ?_
      all_goals
        simp only [low6, hlead, htail]
        omega
  case isFalse hfour =>
      have hlead : (UInt8.ofNat (scalar / 262144 % 8 + 240)).toNat = scalar / 262144 % 8 + 240 :=
        toNat_ofNat_of_lt (by omega)
      refine (Encodes.four (leadOfFour_iff.mpr ?_) (isSecondOfFour_iff.mpr ?_)
        (isTail_iff.mpr ?_) (isTail_iff.mpr ?_)).of_eq ?_
      all_goals
        simp only [low6, hlead, htail]
        omega

-- How bytes come apart: well-formed sequences, and damaged pieces of at least one byte.
inductive Splits : Bytes → List (Option Char) → Prop
  | nil : Splits [] []
  | char {front rest : Bytes} {scalar : Nat} {tail : List (Option Char)}
      (hfront : Encodes front scalar) (hrest : Splits rest tail) :
      Splits (front ++ rest) (some (Char.ofNat scalar) :: tail)
  | damage {front rest : Bytes} {tail : List (Option Char)} (hfront : front ≠ [])
      (hrest : Splits rest tail) :
      Splits (front ++ rest) (none :: tail)

theorem splits_pieces (bytes : Bytes) : Splits bytes (pieces bytes) := by
  -- in the cases without a name the text ends here or goes on with a damaged piece
  fun_induction pieces bytes with
  | case1 => exact .nil
  | case2 a rest ha ih => exact .char (.one ha) ih
  | case4 a hascii ha b rest hb ih => exact .char (.two ha hb) ih
  | case8 a hascii hpair ha b hb c rest hc ih => exact .char (.three ha hb hc) ih
  | case14 a hascii hpair htriple ha b hb c hc d rest hd ih =>
      exact .char (.four ha hb hc hd) ih
  | case3 | case6 | case11 => exact .damage (List.cons_ne_nil _ []) .nil
  | case7 | case12 => exact @Splits.damage [_, _] _ _ (List.cons_ne_nil _ _) .nil
  | case13 => exact @Splits.damage [_, _, _] _ _ (List.cons_ne_nil _ _) .nil
  | case9 | case16 => exact @Splits.damage [_, _] _ _ (List.cons_ne_nil _ _) (by assumption)
  | case15 => exact @Splits.damage [_, _, _] _ _ (List.cons_ne_nil _ _) (by assumption)
  | case5 | case10 | case17 | case18 => exact .damage (List.cons_ne_nil _ []) (by assumption)

theorem pieces_cons_ascii (ha : a < 0x80) (rest : Bytes) :
    pieces (a :: rest) = some (Char.ofNat a.toNat) :: pieces rest := by
  rw [pieces.eq_def]
  simp only [ha, if_true]

theorem pieces_append_of_encodes (h : Encodes front scalar) (rest : Bytes) :
    pieces (front ++ rest) = some (Char.ofNat scalar) :: pieces rest := by
  cases h with
  | one ha => exact pieces_cons_ascii ha rest
  | @two a b ha hb =>
      have hlead := leadOfTwo_iff.mp ha
      have hascii : ¬a < 0x80 := mt ascii_iff.mp (by omega)
      rw [pieces.eq_def]
      simp only [List.cons_append, List.nil_append, hascii, if_false, ha, hb, if_true]
  | @three a b c ha hb hc =>
      have hlead := leadOfThree_iff.mp ha
      have hascii : ¬a < 0x80 := mt ascii_iff.mp (by omega)
      have htwo : ¬within 0xC2 0xDF a = true := mt leadOfTwo_iff.mp (by omega)
      rw [pieces.eq_def]
      simp only [List.cons_append, List.nil_append, hascii, htwo, Bool.false_eq_true, if_false, ha,
        hb, hc, if_true]
  | @four a b c d ha hb hc hd =>
      have hlead := leadOfFour_iff.mp ha
      have hascii : ¬a < 0x80 := mt ascii_iff.mp (by omega)
      have htwo : ¬within 0xC2 0xDF a = true := mt leadOfTwo_iff.mp (by omega)
      have hthree : ¬within 0xE0 0xEF a = true := mt leadOfThree_iff.mp (by omega)
      rw [pieces.eq_def]
      simp only [List.cons_append, List.nil_append, hascii, htwo, hthree, Bool.false_eq_true,
        if_false, ha, hb, hc, hd, if_true]

-- An ASCII byte goes on with no sequence: what comes before it comes apart as it does at the end.
theorem pieces_append_ascii (hbyte : byte < 0x80) (bytes rest : Bytes) :
    pieces (bytes ++ byte :: rest) =
      pieces bytes ++ some (Char.ofNat byte.toNat) :: pieces rest := by
  have hsmall := ascii_iff.mp hbyte
  have htail : ¬isTail byte = true := mt isTail_iff.mp (by omega)
  have hsecond : ∀ lead, ¬isSecondOfThree lead byte = true :=
    fun _ => mt isSecondOfThree_iff.mp (by omega)
  have hother : ∀ lead, ¬isSecondOfFour lead byte = true :=
    fun _ => mt isSecondOfFour_iff.mp (by omega)
  have hmore := pieces_cons_ascii hbyte rest
  fun_induction pieces bytes with
  | case1 => exact hmore
  | _ =>
      rw [List.cons_append, pieces.eq_def]
      simp_all only [if_true, if_false, Bool.false_eq_true, List.cons_append, List.nil_append]

theorem pieces_eq_nil_iff : pieces bytes = [] ↔ bytes = [] := by
  refine ⟨fun hnone => ?_, fun hnone => hnone ▸ rfl⟩
  have hsplits := splits_pieces bytes
  rw [hnone] at hsplits
  cases hsplits with
  | nil => rfl

theorem Splits.mem_of_ascii {parts : List (Option Char)} (h : Splits bytes parts)
    (hbyte : byte < 0x80) (hmem : some (Char.ofNat byte.toNat) ∈ parts) : byte ∈ bytes := by
  induction h with
  | nil => cases hmem
  | damage _ _ ih => exact List.mem_append_right _ (ih (by simpa using hmem))
  | char hfront _ ih =>
      rcases List.mem_cons.mp hmem with hsame | hrest
      · have hone := (Encodes.one hbyte).utf8EncodeChar_eq
        rw [Option.some.inj hsame, hfront.utf8EncodeChar_eq] at hone
        simp [hone]
      · exact List.mem_append_right _ (ih hrest)

-- Without damage the bytes are those of the characters.
theorem Splits.flatMap_eq {parts : List (Option Char)} (h : Splits bytes parts)
    (hwhole : none ∉ parts) :
    (parts.map (·.getD replacement)).flatMap String.utf8EncodeChar = bytes := by
  induction h with
  | nil => rfl
  | damage => simp at hwhole
  | char hfront _ ih =>
      have hrest := ih fun hnone => hwhole (List.mem_cons_of_mem _ hnone)
      rw [List.map_cons, List.flatMap_cons, hrest, Option.getD_some, hfront.utf8EncodeChar_eq]

theorem pieces_flatMap (chars : List Char) :
    pieces (chars.flatMap String.utf8EncodeChar) = chars.map some := by
  induction chars with
  | nil => rfl
  | cons char chars ih =>
      rw [List.flatMap_cons, pieces_append_of_encodes (encodes_utf8EncodeChar char), ih,
        Char.ofNat_toNat, List.map_cons]

theorem toList_decode (bytes : Bytes) :
    (decode bytes).toList = (pieces bytes).map (·.getD replacement) :=
  String.toList_ofList

theorem toList_decode_append_ascii (hbyte : byte < 0x80) (bytes rest : Bytes) :
    (decode (bytes ++ byte :: rest)).toList =
      (decode bytes).toList ++ Char.ofNat byte.toNat :: (decode rest).toList := by
  simp only [toList_decode, pieces_append_ascii hbyte, List.map_append, List.map_cons,
    Option.getD_some]

theorem toList_decode_eq_nil_iff : (decode bytes).toList = [] ↔ bytes = [] := by
  rw [toList_decode, List.map_eq_nil_iff, pieces_eq_nil_iff]

-- Only the byte of an ASCII character stands for it.
theorem ascii_not_mem_decode (hbyte : byte < 0x80) (hbytes : byte ∉ bytes) :
    Char.ofNat byte.toNat ∉ (decode bytes).toList := by
  rw [toList_decode]
  intro hmem
  obtain ⟨piece, hpiece, hsame⟩ := List.mem_map.mp hmem
  cases piece with
  | some char => exact hbytes ((splits_pieces bytes).mem_of_ascii hbyte (hsame ▸ hpiece))
  | none =>
      -- the replacement character takes three bytes
      have hone := congrArg List.length (Encodes.one hbyte).utf8EncodeChar_eq
      have hthree : (String.utf8EncodeChar replacement).length = 3 := by decide
      rw [← hsame, Option.getD_none, hthree] at hone
      cases hone

theorem damaged_append_ascii (hbyte : byte < 0x80) (bytes rest : Bytes) :
    damaged (bytes ++ byte :: rest) = (damaged bytes || damaged rest) := by
  simp [damaged, pieces_append_ascii hbyte]

theorem decode_utf8 (text : String) : decode (utf8 text) = text := by
  rw [decode, utf8, pieces_flatMap, List.map_map]
  simp [Function.comp_def]

theorem damaged_utf8 (text : String) : damaged (utf8 text) = false := by
  simp [damaged, utf8, pieces_flatMap]

theorem utf8_decode (hwhole : damaged bytes = false) : utf8 (decode bytes) = bytes := by
  rw [utf8, toList_decode]
  refine (splits_pieces bytes).flatMap_eq fun hnone => ?_
  have hdamaged : damaged bytes = true := List.any_eq_true.mpr ⟨none, hnone, rfl⟩
  cases hwhole.symm.trans hdamaged

-- Bytes are damaged unless they are those of a text.
theorem damaged_eq_false_iff : damaged bytes = false ↔ bytes.toByteArray.IsValidUTF8 := by
  constructor
  · intro hwhole
    refine ⟨(decode bytes).toList, ?_⟩
    rw [List.utf8Encode]
    exact congrArg List.toByteArray (utf8_decode hwhole).symm
  · rintro ⟨chars, hchars⟩
    have hbytes : bytes = utf8 (String.ofList chars) := by
      have hlists := congrArg (·.data.toList) hchars
      simpa [List.utf8Encode, utf8] using hlists
    rw [hbytes]
    exact damaged_utf8 _

end IndexFleet.Text.Utf8
