import IndexFleet.Proofs.Text
import Mathlib.Data.List.TakeWhile

namespace IndexFleet.Text

variable {text left right : List Char} {separator : Char}

theorem trimChars_blanks_append (hleft : ∀ char ∈ left, isBlank char) :
    trimChars (left ++ text) = trimChars text := by
  unfold trimChars
  rw [List.dropWhile_append_of_pos hleft]

theorem trimChars_append_blanks (hright : ∀ char ∈ right, isBlank char) :
    trimChars (text ++ right) = trimChars text := by
  have hreverse : ∀ char ∈ right.reverse, isBlank char := by simpa using hright
  unfold trimChars
  rw [List.dropWhile_append]
  by_cases htext : text.dropWhile isBlank = []
  · have hnone : right.dropWhile isBlank = [] := List.dropWhile_eq_nil_iff.mpr hright
    simp [htext, hnone]
  · rw [if_neg (by simpa using htext), List.reverse_append, List.dropWhile_append_of_pos hreverse]

-- What is trimmed off is blank.
theorem exists_eq_trimChars (text : List Char) :
    ∃ left right, (∀ char ∈ left, isBlank char) ∧ (∀ char ∈ right, isBlank char) ∧
      text = left ++ (trimChars text ++ right) := by
  have hends : ∀ all : List Char, ∀ char ∈ all.takeWhile isBlank, isBlank char :=
    fun all char hchar => List.mem_takeWhile_imp hchar
  refine ⟨text.takeWhile isBlank, ((text.dropWhile isBlank).reverse.takeWhile isBlank).reverse,
    hends text, ?_, ?_⟩
  · intro char hchar
    exact hends _ char (List.mem_reverse.mp hchar)
  · rw [trimChars, ← List.reverse_append, List.takeWhile_append_dropWhile, List.reverse_reverse,
      List.takeWhile_append_dropWhile]

-- Blanks before a text go to its first field, which loses them again.
theorem map_trimChars_splitOn_blanks_append (hseparator : isBlank separator = false)
    (hleft : ∀ char ∈ left, isBlank char) :
    ((left ++ text).splitOn separator).map trimChars =
      (text.splitOn separator).map trimChars := by
  have hnone : separator ∉ left := fun hmem => by simp [hleft separator hmem] at hseparator
  by_cases hmem : separator ∈ text
  · obtain ⟨first, rest, rfl, hfirst⟩ := List.eq_append_cons_of_mem hmem
    have hjoined : separator ∉ left ++ first := by simp [hnone, hfirst]
    rw [← List.append_assoc, List.splitOn_append_cons_self_of_not_mem hjoined,
      List.splitOn_append_cons_self_of_not_mem hfirst, List.map_cons, List.map_cons,
      trimChars_blanks_append hleft]
  · have hjoined : separator ∉ left ++ text := by simp [hnone, hmem]
    rw [List.splitOn_eq_singleton hjoined, List.splitOn_eq_singleton hmem, List.map_singleton,
      List.map_singleton, trimChars_blanks_append hleft]

-- And those behind it to its last one.
theorem map_trimChars_splitOn_append_blanks (hseparator : isBlank separator = false)
    (hright : ∀ char ∈ right, isBlank char) :
    ((text ++ right).splitOn separator).map trimChars =
      (text.splitOn separator).map trimChars := by
  have hnone : separator ∉ right := fun hmem => by simp [hright separator hmem] at hseparator
  by_cases hmem : separator ∈ text
  · obtain ⟨last, before, hreverse, hlast⟩ :=
      List.eq_append_cons_of_mem (List.mem_reverse.mpr hmem)
    have htext : text = before.reverse ++ separator :: last.reverse := by
      rw [← text.reverse_reverse, hreverse]
      simp
    have hlast' : separator ∉ last.reverse := by simpa using hlast
    have hjoined : separator ∉ last.reverse ++ right := by simp [hnone, hlast]
    have hcut : ∀ behind : List Char, separator ∉ behind →
        (before.reverse ++ separator :: behind).splitOn separator =
          before.reverse.splitOn separator ++ [behind] := by
      intro behind hbehind
      rw [List.splitOn_eq_splitOnP, List.splitOnP_append_cons _ _ (by simp),
        ← List.splitOn_eq_splitOnP, ← List.splitOn_eq_splitOnP, List.splitOn_eq_singleton hbehind]
    rw [htext, List.append_assoc, List.cons_append, hcut _ hjoined, hcut _ hlast',
      List.map_append, List.map_append, List.map_singleton, List.map_singleton,
      trimChars_append_blanks hright]
  · have hjoined : separator ∉ text ++ right := by simp [hnone, hmem]
    rw [List.splitOn_eq_singleton hjoined, List.splitOn_eq_singleton hmem, List.map_singleton,
      List.map_singleton, trimChars_append_blanks hright]

theorem map_trimChars_splitOn_trimChars (hseparator : isBlank separator = false)
    (text : List Char) :
    ((trimChars text).splitOn separator).map trimChars =
      (text.splitOn separator).map trimChars := by
  obtain ⟨left, right, hleft, hright, htext⟩ := exists_eq_trimChars text
  calc ((trimChars text).splitOn separator).map trimChars
      = ((trimChars text ++ right).splitOn separator).map trimChars :=
        (map_trimChars_splitOn_append_blanks hseparator hright).symm
    _ = ((left ++ (trimChars text ++ right)).splitOn separator).map trimChars :=
        (map_trimChars_splitOn_blanks_append hseparator hleft).symm
    _ = (text.splitOn separator).map trimChars := by rw [← htext]

theorem length_splitOn (separator : Char) (text : List Char) :
    (text.splitOn separator).length = text.count separator + 1 := by
  induction text with
  | nil => simp
  | cons char text ih =>
      rw [List.splitOn_cons_eq_if_modifyHead]
      by_cases hchar : char = separator <;> simp [hchar, ih]

-- The items of a list that is written with separators between them and blanks around them.
def items (separator : Char) (text : String) : List String :=
  (fields separator (trim text)).map trim

theorem toList_trim (text : String) : (trim text).toList = trimChars text.toList :=
  String.toList_ofList

theorem trim_pad {text left right : String} (hleft : allBlank left) (hright : allBlank right) :
    trim (left ++ text ++ right) = trim text := by
  rw [trim, String.toList_append, String.toList_append,
    trimChars_append_blanks (List.all_eq_true.mp hright),
    trimChars_blanks_append (List.all_eq_true.mp hleft), trim]

theorem items_eq (hseparator : isBlank separator = false) (text : String) :
    items separator text = (fields separator text).map trim := by
  have htrim : (trim ∘ String.ofList : List Char → String) = String.ofList ∘ trimChars :=
    funext fun chars => by simp [trim]
  rw [items, fields, fields, List.map_map, List.map_map, htrim, ← List.map_map, ← List.map_map,
    toList_trim, map_trimChars_splitOn_trimChars hseparator]

theorem length_items (separator : Char) (text : String) :
    (items separator text).length = (trim text).toList.count separator + 1 := by
  rw [items, fields, List.length_map, List.length_map, length_splitOn]

theorem not_mem_of_mem_fields {text piece : String} (hpiece : piece ∈ fields separator text) :
    separator ∉ piece.toList := by
  obtain ⟨chars, hchars, rfl⟩ := List.mem_map.mp hpiece
  rw [String.toList_ofList]
  exact not_mem_of_mem_splitOn hchars

theorem fields_intercalate {pieces : List String} (hpieces : pieces ≠ [])
    (hfree : ∀ piece ∈ pieces, separator ∉ piece.toList) :
    fields separator ((String.singleton separator).intercalate pieces) = pieces := by
  have hlists : pieces.map String.toList ≠ [] := by simpa using hpieces
  have hnone : ∀ list ∈ pieces.map String.toList, separator ∉ list := by simpa using hfree
  rw [fields, String.toList_intercalate, String.toList_singleton,
    List.splitOn_intercalate separator hnone hlists, List.map_map]
  simp

theorem intercalate_fields (separator : Char) (text : String) :
    (String.singleton separator).intercalate (fields separator text) = text := by
  rw [← String.toList_inj, String.toList_intercalate, String.toList_singleton, fields,
    List.map_map]
  simp [Function.comp_def, List.intercalate_splitOn]

-- Items that are joined are read back, whatever blanks stand around the separators.
theorem items_intercalate {pieces : List String} (hseparator : isBlank separator = false)
    (hpieces : pieces ≠ []) (hfree : ∀ piece ∈ pieces, separator ∉ piece.toList) :
    items separator ((String.singleton separator).intercalate pieces) = pieces.map trim := by
  rw [items_eq hseparator, fields_intercalate hpieces hfree]

end IndexFleet.Text
