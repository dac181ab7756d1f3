import IndexFleet.Proofs.Text.Utf8
import IndexFleet.Text.Blank
import IndexFleet.Text.Lines
import Mathlib.Data.List.TakeWhile

namespace IndexFleet.Text

theorem dropLastOf_subset {α : Type} [BEq α] (closing : α) (line : List α) :
    dropLastOf closing line ⊆ line := by
  unfold dropLastOf
  split
  · exact List.dropLast_subset line
  · exact List.Subset.refl line

theorem openLine_of_ne_nil {α : Type} {text : List α} (htext : text ≠ []) :
    openLine text = [text] := by
  cases text with
  | nil => exact absurd rfl htext
  | cons => rfl

section Lines

variable {α : Type} [BEq α] [LawfulBEq α] {feed ret : α}

-- A text goes on to its next feed, or has none.
theorem feed_induction (feed : α) {motive : List α → Prop}
    (last : ∀ text, feed ∉ text → motive text)
    (next : ∀ line text, feed ∉ line → motive text → motive (line ++ feed :: text))
    (text : List α) : motive text := by
  induction hlength : text.length using Nat.strongRecOn generalizing text with
  | ind length ih =>
      by_cases hfeed : feed ∈ text
      · obtain ⟨line, rest, rfl, hline⟩ := List.eq_append_cons_of_mem hfeed
        refine next line rest hline (ih rest.length ?_ rest rfl)
        rw [← hlength, List.length_append, List.length_cons]
        omega
      · exact last text hfeed

theorem not_mem_of_mem_splitOn {text piece : List α} (hpiece : piece ∈ text.splitOn feed) :
    feed ∉ piece := by
  induction text using feed_induction feed with
  | last text htext =>
      rw [List.splitOn_eq_singleton htext, List.mem_singleton] at hpiece
      exact hpiece ▸ htext
  | next line text hline ih =>
      rw [List.splitOn_append_cons_self_of_not_mem hline, List.mem_cons] at hpiece
      rcases hpiece with rfl | hrest
      · exact hline
      · exact ih hrest

theorem linesOf_of_not_mem {text : List α} (htext : feed ∉ text) :
    linesOf feed ret text = openLine text := by
  rw [linesOf, List.splitOn_eq_singleton htext]
  rfl

theorem linesOf_append_cons {line text : List α} (hline : feed ∉ line) :
    linesOf feed ret (line ++ feed :: text) = dropLastOf ret line :: linesOf feed ret text := by
  have hrest := List.splitOn_ne_nil feed text
  have hlast : (line :: text.splitOn feed).getLastD [] = (text.splitOn feed).getLastD [] := by
    rw [List.getLastD_eq_getLast?, List.getLastD_eq_getLast?, List.getLast?_cons_of_ne_nil hrest]
  simp only [linesOf, List.splitOn_append_cons_self_of_not_mem hline,
    List.dropLast_cons_of_ne_nil hrest, List.map_cons, hlast, List.cons_append]

theorem not_mem_of_mem_linesOf {text line : List α} (hline : line ∈ linesOf feed ret text) :
    feed ∉ line := by
  induction text using feed_induction feed with
  | last text htext =>
      rw [linesOf_of_not_mem htext] at hline
      by_cases hempty : text = []
      · simp [hempty, openLine] at hline
      · rw [openLine_of_ne_nil hempty, List.mem_singleton] at hline
        exact hline ▸ htext
  | next first text hfirst ih =>
      rw [linesOf_append_cons hfirst, List.mem_cons] at hline
      rcases hline with rfl | hrest
      · exact fun hmem => hfirst (dropLastOf_subset ret first hmem)
      · exact ih hrest

theorem linesOf_closed {lines : List (List α)} (hlines : ∀ line ∈ lines, feed ∉ line) :
    linesOf feed ret (lines.flatMap (· ++ [feed])) = lines.map (dropLastOf ret) := by
  induction lines with
  | nil => rfl
  | cons line lines ih =>
      obtain ⟨hline, hrest⟩ := List.forall_mem_cons.mp hlines
      rw [List.flatMap_cons, List.append_assoc, List.singleton_append, linesOf_append_cons hline,
        ih hrest, List.map_cons]

end Lines

-- The text in front of the first separator is the first one of the fields.
theorem firstField_eq (separator : Char) (text : String) :
    firstField separator text = (fields separator text).headD "" := by
  have hletters : ∀ letters : List Char, String.ofList (letters.takeWhile (· != separator)) =
      ((letters.splitOn separator).map String.ofList).headD "" := by
    intro letters
    induction letters using feed_induction separator with
    | last letters hlast =>
        have hall : ∀ c ∈ letters, (c != separator) = true := fun _ hc =>
          bne_iff_ne.mpr (ne_of_mem_of_not_mem hc hlast)
        rw [List.splitOn_eq_singleton hlast, List.takeWhile_eq_self_iff.mpr hall]
        rfl
    | next field letters hfield ih =>
        have hall : ∀ c ∈ field, (c != separator) = true := fun _ hc =>
          bne_iff_ne.mpr (ne_of_mem_of_not_mem hc hfield)
        rw [List.splitOn_append_cons_self_of_not_mem hfield, List.takeWhile_append_of_pos hall,
          List.takeWhile_cons_of_neg (by simp), List.append_nil]
        rfl
  exact hletters text.toList

-- A line without one return at its end.
def dropReturn (line : String) : String := String.ofList (dropLastOf '\r' line.toList)

-- Only a line of one return loses everything with it.
theorem eq_of_dropLastOf_eq_nil {line : List Char} {closing : Char}
    (hdropped : dropLastOf closing line = []) : ∀ item ∈ line, item = closing := by
  unfold dropLastOf at hdropped
  by_cases hlast : line.getLast? == some closing
  · have hline : line.dropLast ++ [closing] = line :=
      List.dropLast_append_getLast? closing (by simpa using hlast)
    rw [if_pos hlast] at hdropped
    rw [hdropped, List.nil_append] at hline
    exact hline ▸ fun _ hitem => List.mem_singleton.mp hitem
  · rw [if_neg hlast] at hdropped
    exact hdropped ▸ fun _ hitem => nomatch hitem

theorem dropReturn_ne_empty {line : String} (hline : allBlank line = false) :
    dropReturn line ≠ "" := by
  intro hempty
  have hdropped : dropLastOf '\r' line.toList = [] := by
    simpa [dropReturn] using hempty
  have hblank : allBlank line = true := by
    refine List.all_eq_true.mpr fun item hitem => ?_
    rw [eq_of_dropLastOf_eq_nil hdropped item hitem]
    decide
  exact nomatch hline.symm.trans hblank

-- A return is a blank, so a line is as blank without it.
theorem allBlank_dropReturn (line : String) : allBlank (dropReturn line) = allBlank line := by
  rw [allBlank, dropReturn, String.toList_ofList, dropLastOf, allBlank]
  split
  case isTrue hlast =>
      have hline : line.toList.dropLast ++ ['\r'] = line.toList :=
        List.dropLast_append_getLast? '\r' (by simpa using hlast)
      have hreturn : isBlank '\r' = true := by decide
      rw [← hline, List.dropLast_concat, List.all_append, List.all_cons, hreturn]
      simp
  case isFalse => rfl

-- Lines end at ASCII bytes, so each of them is as whole as all bytes are.
theorem damaged_of_mem_linesOf {bytes line : Bytes} (hwhole : Utf8.damaged bytes = false)
    (hline : line ∈ linesOf 0x0A 0x0D bytes) : Utf8.damaged line = false := by
  induction bytes using feed_induction (0x0A : UInt8) with
  | last bytes hbytes =>
      rw [linesOf_of_not_mem hbytes] at hline
      by_cases hempty : bytes = []
      · simp [hempty, openLine] at hline
      · rw [openLine_of_ne_nil hempty, List.mem_singleton] at hline
        exact hline ▸ hwhole
  | next first rest hfirst ih =>
      rw [Utf8.damaged_append_ascii (by decide), Bool.or_eq_false_iff] at hwhole
      rw [linesOf_append_cons hfirst, List.mem_cons] at hline
      rcases hline with rfl | hrest
      · unfold dropLastOf
        split
        case isTrue hlast =>
            have hsplit : first.dropLast ++ [0x0D] = first :=
              List.dropLast_append_getLast? 0x0D (by simpa using hlast)
            rw [← hsplit, Utf8.damaged_append_ascii (by decide), Bool.or_eq_false_iff] at hwhole
            exact hwhole.1.1
        case isFalse => exact hwhole.1
      · exact ih hwhole.2 hrest

theorem Utf8.newline_not_mem_decode {bytes : Bytes} (hbytes : 0x0A ∉ bytes) :
    '\n' ∉ (decode bytes).toList :=
  ascii_not_mem_decode (by decide : (0x0A : UInt8) < 0x80) hbytes

-- A single line with more than blanks, as headers and rows are.
structure IsRow (text : String) : Prop where
  single : '\n' ∉ text.toList
  given : allBlank text = false

theorem isRow_decode {bytes line : Bytes} (hline : line ∈ linesOf 0x0A 0x0D bytes)
    (hgiven : allBlank (Utf8.decode line) = false) : IsRow (Utf8.decode line) :=
  ⟨Utf8.newline_not_mem_decode (not_mem_of_mem_linesOf hline), hgiven⟩

-- A line that is read as it stands.
structure IsWhole (line : String) : Prop extends IsRow line where
  closed : line.toList.getLast? ≠ some '\r'

theorem IsWhole.dropReturn_eq {line : String} (h : IsWhole line) : dropReturn line = line := by
  have hopen : (line.toList.getLast? == some '\r') = false := beq_eq_false_iff_ne.mpr h.closed
  simp only [dropReturn, dropLastOf, hopen, Bool.false_eq_true, if_false, String.ofList_toList]

end IndexFleet.Text
