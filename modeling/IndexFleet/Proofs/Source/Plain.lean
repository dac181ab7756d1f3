import IndexFleet.Proofs.Source.Decoding

namespace IndexFleet.Source

-- Bytes that are read alike as a text and line by line: a header with rows below it, where no line
-- is blank unless it is empty, and none ends with a return that is not part of its terminator.
structure IsPlain (bytes : Text.Bytes) (header : String) (rows : List String) : Prop where
  header : headerOf? bytes = some header
  rows : rowsBelow bytes = rows
  given : ∀ line ∈ (rawLines bytes).tail, line = [] ∨ Text.allBlank (Text.Utf8.decode line) = false
  closed : ∀ line ∈ rawLines bytes, line.getLast? ≠ some 0x0D

namespace IsPlain

variable {bytes : Text.Bytes} {header : String} {rows : List String}

theorem isRow (h : IsPlain bytes header rows) :
    Text.IsRow header ∧ ∀ row ∈ rows, Text.IsRow row :=
  ⟨isRow_of_header h.header, fun _ hrow => isRow_of_mem_rowsBelow (h.rows ▸ hrow)⟩

theorem dropReturn_decode (h : IsPlain bytes header rows) {line : Text.Bytes}
    (hline : line ∈ rawLines bytes) :
    Text.dropReturn (Text.Utf8.decode line) = Text.Utf8.decode line := by
  have hkept : Text.dropLastOf 0x0D line = line := if_neg (by simpa using h.closed line hline)
  rw [← Text.decode_dropLastOf, hkept]

theorem dropReturn_header (h : IsPlain bytes header rows) : Text.dropReturn header = header := by
  obtain ⟨first, rest, hlines, rfl, _⟩ := exists_first h.header
  have hfirst : first ∈ rawLines bytes := hlines ▸ List.mem_cons_self
  exact h.dropReturn_decode hfirst

theorem dropReturn_row (h : IsPlain bytes header rows) {row : String} (hrow : row ∈ rows) :
    Text.dropReturn row = row := by
  rw [← h.rows] at hrow
  obtain ⟨line, hline, rfl⟩ := List.mem_map.mp (List.mem_filter.mp hrow).1
  exact h.dropReturn_decode (List.mem_of_mem_tail hline)

theorem isEmpty_decode (h : IsPlain bytes header rows) {line : Text.Bytes}
    (hline : line ∈ (rawLines bytes).tail) :
    (Text.Utf8.decode line).isEmpty = Text.allBlank (Text.Utf8.decode line) := by
  rcases h.given line hline with rfl | hgiven
  · rfl
  · rw [hgiven, String.isEmpty_eq_false_iff]
    rintro hempty
    rw [hempty] at hgiven
    cases hgiven

-- The rows of the decoded text are those of the lines.
theorem rowsOneByOne_decode (h : IsPlain bytes header rows) :
    Client.rowsOneByOne (Text.Utf8.decode bytes) = some (header, rows) := by
  obtain ⟨first, rest, hlines, hfirst, _⟩ := exists_first h.header
  have hsplit : Text.lines (Text.Utf8.decode bytes) = header :: rest.map Text.Utf8.decode := by
    rw [Text.lines_decode, ← hfirst, ← List.map_cons, ← hlines]
    rfl
  have hkept : (rest.map Text.Utf8.decode).filter (!·.isEmpty) = rows := by
    rw [← h.rows, rowsBelow, hlines, List.tail_cons]
    refine List.filter_congr fun row hrow => ?_
    obtain ⟨line, hline, rfl⟩ := List.mem_map.mp hrow
    rw [h.isEmpty_decode (by rwa [hlines])]
  rw [Client.rowsOneByOne, hsplit]
  exact congrArg (fun kept => some (header, kept)) hkept

-- The rows of a chunk are those that it is made of.
theorem rowsOneByOne_chunk (h : IsPlain bytes header rows) {chunk : List String}
    (hchunk : chunk ⊆ rows) :
    Client.rowsOneByOne (chunkText header chunk) = some (header, chunk) := by
  obtain ⟨hheader, hrows⟩ := h.isRow
  have hsame : chunk.map Text.dropReturn = chunk.map id :=
    List.map_congr_left fun row hrow => h.dropReturn_row (hchunk hrow)
  rw [rowsOneByOne_chunkText hheader fun row hrow => hrows row (hchunk hrow), hsame,
    h.dropReturn_header, List.map_id]

end IsPlain

end IndexFleet.Source
