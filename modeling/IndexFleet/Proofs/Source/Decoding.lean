import IndexFleet.Proofs.Source.Reader

namespace IndexFleet

namespace Text

variable {α : Type} [BEq α] {closing : α}

-- Only the end of a line counts.
theorem dropLastOf_append_cons {item : α} {rest : List α} (hrest : rest ≠ []) (line : List α) :
    dropLastOf closing (line ++ item :: rest) = line ++ item :: dropLastOf closing rest := by
  have hmore : item :: rest ≠ [] := List.cons_ne_nil item rest
  simp only [dropLastOf, List.getLast?_append_of_ne_nil line hmore,
    List.getLast?_cons_of_ne_nil hrest, List.dropLast_append_of_ne_nil hmore,
    List.dropLast_cons_of_ne_nil hrest]
  split
  · rfl
  · rfl

variable [LawfulBEq α]

theorem dropLastOf_concat (line : List α) : dropLastOf closing (line ++ [closing]) = line := by
  rw [dropLastOf, List.getLast?_concat, if_pos (beq_self_eq_true _), List.dropLast_concat]

theorem dropLastOf_of_not_mem {line : List α} (hline : closing ∉ line) :
    dropLastOf closing line = line := by
  refine if_neg fun hlast => hline ?_
  exact List.mem_of_getLast? (beq_iff_eq.mp hlast)

-- The byte of a return stands at the end of a line if and only if its character stands there.
theorem toList_decode_dropLastOf (line : Bytes) :
    (Utf8.decode (dropLastOf 0x0D line)).toList = dropLastOf '\r' (Utf8.decode line).toList := by
  have hascii : (0x0D : UInt8) < 0x80 := by decide
  induction line using feed_induction (0x0D : UInt8) with
  | last line hline =>
      rw [dropLastOf_of_not_mem hline]
      exact (dropLastOf_of_not_mem (Utf8.ascii_not_mem_decode hascii hline)).symm
  | next first rest _ ih =>
      rw [Utf8.toList_decode_append_ascii hascii]
      by_cases hrest : rest = []
      · rw [hrest, dropLastOf_concat]
        exact (dropLastOf_concat _).symm
      · have hleft : (Utf8.decode rest).toList ≠ [] := mt Utf8.toList_decode_eq_nil_iff.mp hrest
        rw [dropLastOf_append_cons hrest, Utf8.toList_decode_append_ascii hascii, ih,
          dropLastOf_append_cons hleft]

theorem decode_dropLastOf (line : Bytes) :
    Utf8.decode (dropLastOf 0x0D line) = dropReturn (Utf8.decode line) := by
  rw [dropReturn, ← toList_decode_dropLastOf, String.ofList_toList]

theorem toList_decode_feed (line rest : Bytes) :
    (Utf8.decode (line ++ 0x0A :: rest)).toList =
      (Utf8.decode line).toList ++ '\n' :: (Utf8.decode rest).toList :=
  Utf8.toList_decode_append_ascii (by decide : (0x0A : UInt8) < 0x80) line rest

-- The lines of a decoded text are the lines of its bytes, decoded one by one.
theorem linesOf_decode (bytes : Bytes) :
    linesOf '\n' '\r' (Utf8.decode bytes).toList =
      (linesOf 0x0A 0x0D bytes).map fun line => (Utf8.decode line).toList := by
  induction bytes using feed_induction (0x0A : UInt8) with
  | last bytes hbytes =>
      rw [linesOf_of_not_mem hbytes, linesOf_of_not_mem (Utf8.newline_not_mem_decode hbytes)]
      by_cases hempty : bytes = []
      · rw [hempty]
        rfl
      · rw [openLine_of_ne_nil hempty,
          openLine_of_ne_nil (mt Utf8.toList_decode_eq_nil_iff.mp hempty), List.map_singleton]
  | next line rest hline ih =>
      rw [toList_decode_feed, linesOf_append_cons hline,
        linesOf_append_cons (Utf8.newline_not_mem_decode hline), List.map_cons, ih,
        toList_decode_dropLastOf]

theorem lines_decode (bytes : Bytes) :
    lines (Utf8.decode bytes) = (linesOf 0x0A 0x0D bytes).map Utf8.decode := by
  rw [lines, linesOf_decode, List.map_map]
  simp [Function.comp_def]

theorem decode_feed (line rest : Bytes) :
    Utf8.decode (line ++ 0x0A :: rest) = Utf8.decode line ++ "\n" ++ Utf8.decode rest := by
  refine String.toList_inj.mp ?_
  simp [toList_decode_feed]

theorem damageNotes_eq_nil_iff {bytes : Bytes} {source : String} :
    damageNotes bytes source = [] ↔ bytes.toByteArray.IsValidUTF8 := by
  rw [← Utf8.damaged_eq_false_iff]
  cases hdamaged : Utf8.damaged bytes with
  | false => simp [damageNotes, hdamaged]
  | true => simp [damageNotes, hdamaged]

theorem exists_warning {bytes : Bytes} (source : String)
    (hdamaged : ¬bytes.toByteArray.IsValidUTF8) :
    ∃ message, damageNotes bytes source = [.warn message] := by
  have htrue : Utf8.damaged bytes = true :=
    Bool.not_eq_false _ |>.mp (mt Utf8.damaged_eq_false_iff.mp hdamaged)
  rw [damageNotes, if_pos htrue]
  exact ⟨_, rfl⟩

theorem damageNotes_utf8 (text source : String) : damageNotes (utf8 text) source = [] := by
  rw [damageNotes, Utf8.damaged_utf8]
  rfl

-- Bytes that are decoded at once and line by line: the lines are the same, since a line ends where
-- its last character does, and only damaged bytes are replaced and told of.
structure DecodesByLine (bytes : Bytes) : Prop where
  read : Reader.readLines bytes = Source.rawLines bytes
  lines : (Source.rawLines bytes).map Utf8.decode = Text.lines (Utf8.decode bytes)
  feed : ∀ rest, Utf8.decode (bytes ++ 0x0A :: rest) =
    Utf8.decode bytes ++ "\n" ++ Utf8.decode rest
  ret : Utf8.decode (dropLastOf 0x0D bytes) = dropReturn (Utf8.decode bytes)
  whole : ∀ source, utf8 (Utf8.decode bytes) = bytes ∧ damageNotes bytes source = [] ↔
    bytes.toByteArray.IsValidUTF8
  damaged : ¬bytes.toByteArray.IsValidUTF8 →
    ∀ source, ∃ message, damageNotes bytes source = [.warn message]
  again : ∀ source, Utf8.decode (utf8 (Utf8.decode bytes)) = Utf8.decode bytes ∧
    damageNotes (utf8 (Utf8.decode bytes)) source = []

theorem decodesByLine (bytes : Bytes) : DecodesByLine bytes where
  read := Reader.readLines_eq bytes
  lines := (lines_decode bytes).symm
  feed := decode_feed bytes
  ret := decode_dropLastOf bytes
  whole source := by
    rw [damageNotes_eq_nil_iff]
    refine ⟨And.right, fun hvalid => ⟨?_, hvalid⟩⟩
    exact Utf8.utf8_decode (Utf8.damaged_eq_false_iff.mpr hvalid)
  damaged hdamaged source := exists_warning source hdamaged
  again source := ⟨Utf8.decode_utf8 _, damageNotes_utf8 _ source⟩

end Text

end IndexFleet
