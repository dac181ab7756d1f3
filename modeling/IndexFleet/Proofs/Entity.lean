import IndexFleet.Text.Entity
import Mathlib.Data.List.Basic

namespace IndexFleet.Text.Entity

-- Reads entities back, from left to right. An ampersand that begins none of the five stands for
-- itself.
def decodeChars : List Char → List Char
  | '&' :: 'a' :: 'm' :: 'p' :: ';' :: rest => '&' :: decodeChars rest
  | '&' :: 'l' :: 't' :: ';' :: rest => '<' :: decodeChars rest
  | '&' :: 'g' :: 't' :: ';' :: rest => '>' :: decodeChars rest
  | '&' :: 'q' :: 'u' :: 'o' :: 't' :: ';' :: rest => '"' :: decodeChars rest
  | '&' :: 'a' :: 'p' :: 'o' :: 's' :: ';' :: rest => '\'' :: decodeChars rest
  | c :: rest => c :: decodeChars rest
  | [] => []

def decode (text : String) : String := String.ofList (decodeChars text.toList)

theorem decodeChars_cons {c : Char} (hplain : c ≠ '&') (rest : List Char) :
    decodeChars (c :: rest) = c :: decodeChars rest := by
  rw [decodeChars.eq_def]
  split <;> simp_all

-- What stands for a character is read as this character, whatever follows.
theorem decodeChars_escapeChar (c : Char) (rest : List Char) :
    decodeChars (escapeChar c ++ rest) = c :: decodeChars rest := by
  unfold escapeChar
  split
  case h_1 | h_2 | h_3 | h_4 | h_5 => simp [decodeChars]
  case h_6 hplain _ _ _ _ => exact decodeChars_cons hplain rest

theorem decodeChars_escapeChars (text : List Char) : decodeChars (escapeChars text) = text := by
  induction text with
  | nil => rfl
  | cons c text ih =>
      rw [escapeChars, List.flatMap_cons, decodeChars_escapeChar, ← escapeChars, ih]

theorem decode_escape (text : String) : decode (escape text) = text := by
  rw [decode, escape, String.toList_ofList, decodeChars_escapeChars, String.ofList_toList]

theorem escape_injective : Function.Injective escape := fun text other hsame => by
  rw [← decode_escape text, hsame, decode_escape]

theorem escape_append (text more : String) :
    escape (text ++ more) = escape text ++ escape more := by
  simp [escape, escapeChars]

-- The characters that are written as entities, and the names of the entities.
def marks : List Char := ['&', '<', '>', '"', '\'']

def names : List String := ["amp", "lt", "gt", "quot", "apos"]

theorem escapeChar_eq (c : Char) :
    (c ∉ marks ∧ escapeChar c = [c]) ∨
      ∃ name ∈ names, escapeChar c = '&' :: (name.toList ++ [';']) := by
  unfold escapeChar
  split
  case h_1 => exact .inr ⟨"amp", by decide, by decide⟩
  case h_2 => exact .inr ⟨"lt", by decide, by decide⟩
  case h_3 => exact .inr ⟨"gt", by decide, by decide⟩
  case h_4 => exact .inr ⟨"quot", by decide, by decide⟩
  case h_5 => exact .inr ⟨"apos", by decide, by decide⟩
  case h_6 => exact .inl ⟨by simp_all [marks], rfl⟩

-- The letters of an entity need no escape themselves.
theorem not_mem_marks_of_name {name : String} (hname : name ∈ names) :
    ∀ c ∈ name.toList ++ [';'], c ∉ marks := by
  have hall : names.all fun name => (name.toList ++ [';']).all fun c => decide (c ∉ marks) := by
    decide
  exact fun c hc => of_decide_eq_true
    (List.all_eq_true.mp (List.all_eq_true.mp hall name hname) c hc)

theorem eq_ampersand_of_mem_escapeChars {text : List Char} {c : Char}
    (hmem : c ∈ escapeChars text) (hmark : c ∈ marks) : c = '&' := by
  obtain ⟨char, _, hchar⟩ := List.mem_flatMap.mp hmem
  rcases escapeChar_eq char with ⟨hplain, hself⟩ | ⟨name, hname, hentity⟩
  · rw [hself, List.mem_singleton] at hchar
    exact absurd (hchar ▸ hmark) hplain
  · rw [hentity, List.mem_cons] at hchar
    rcases hchar with hfirst | hletter
    · exact hfirst
    · exact absurd hmark (not_mem_marks_of_name hname c hletter)

-- The ampersand of an entity is its first letter.
theorem entity_of_ampersand {c : Char} {before after : List Char}
    (hsplit : escapeChar c = before ++ '&' :: after) :
    before = [] ∧ ∃ name ∈ names, after = name.toList ++ [';'] := by
  have hmark : '&' ∈ marks := by decide
  rcases escapeChar_eq c with ⟨hplain, hself⟩ | ⟨name, hname, hentity⟩
  · have hmem : '&' ∈ [c] := hself ▸ hsplit ▸ List.mem_append_right before (.head after)
    exact absurd (List.mem_singleton.mp hmem ▸ hmark) hplain
  · rw [hentity] at hsplit
    cases before with
    | nil => exact ⟨rfl, name, hname, (List.cons.inj hsplit).2.symm⟩
    | cons first before =>
        have hmem : '&' ∈ name.toList ++ [';'] :=
          (List.cons.inj hsplit).2 ▸ List.mem_append_right before (.head after)
        exact absurd hmark (not_mem_marks_of_name hname _ hmem)

-- An ampersand stands only where an entity begins.
theorem exists_name_of_ampersand {text before after : List Char}
    (hsplit : escapeChars text = before ++ '&' :: after) :
    ∃ name ∈ names, name.toList ++ [';'] <+: after := by
  induction text generalizing before with
  | nil => simp [escapeChars] at hsplit
  | cons c text ih =>
      have hcons : escapeChar c ++ escapeChars text = before ++ '&' :: after := hsplit
      rcases List.append_eq_append_iff.mp hcons with
        ⟨left, rfl, hleft⟩ | ⟨left, hleft, hafter⟩
      · exact ih hleft
      · cases left with
        | nil =>
            have hnext : escapeChars text = [] ++ '&' :: after := hafter.symm
            exact ih hnext
        | cons first left =>
            obtain ⟨rfl, rfl⟩ := List.cons.inj hafter
            obtain ⟨-, name, hname, rfl⟩ := entity_of_ampersand hleft
            exact ⟨name, hname, List.prefix_append _ _⟩

end IndexFleet.Text.Entity
