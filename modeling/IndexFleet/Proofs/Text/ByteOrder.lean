import IndexFleet.Proofs.Text.Utf8

namespace IndexFleet.Text

namespace Utf8

variable {front back rest more : Bytes} {scalar other : Nat}

-- Sequences are ordered as their characters are, whatever follows them: a longer one starts with a
-- greater byte, and one that is as long holds the digits of its character from the highest on.
theorem Encodes.append_lt (h : Encodes front scalar) (hother : Encodes back other)
    (hlt : scalar < other) : front ++ rest < back ++ more := by
  cases h <;> cases hother
  all_goals
    simp only [ascii_iff, leadOfTwo_iff, leadOfThree_iff, leadOfFour_iff, isTail_iff,
      isSecondOfThree_iff, isSecondOfFour_iff, low6] at *
    simp only [List.cons_append, List.nil_append, List.cons_lt_cons_iff, UInt8.lt_iff_toNat_lt,
      ← UInt8.toNat_inj]
    omega

theorem flatMap_utf8EncodeChar_lt {chars others : List Char} (hlt : chars < others) :
    chars.flatMap String.utf8EncodeChar < others.flatMap String.utf8EncodeChar := by
  induction chars generalizing others with
  | nil =>
      cases others with
      | nil => exact absurd hlt (List.lt_irrefl [])
      | cons other others =>
          have hgiven := String.utf8EncodeChar_ne_nil (c := other)
          obtain ⟨first, rest, hother⟩ := List.exists_cons_of_ne_nil hgiven
          rw [List.flatMap_nil, List.flatMap_cons, hother]
          exact List.nil_lt_cons _ _
  | cons char chars ih =>
      cases others with
      | nil => exact absurd hlt (List.not_lt_nil _)
      | cons other others =>
          rw [List.flatMap_cons, List.flatMap_cons]
          rcases List.cons_lt_cons_iff.mp hlt with hless | ⟨rfl, hrest⟩
          · exact (encodes_utf8EncodeChar char).append_lt (encodes_utf8EncodeChar other) hless
          · exact List.append_left_lt (ih hrest)

end Utf8

-- Texts are ordered as their bytes are.
theorem utf8_lt_utf8 {text other : String} (hlt : text < other) : utf8 text < utf8 other :=
  Utf8.flatMap_utf8EncodeChar_lt hlt

end IndexFleet.Text
