import IndexFleet.Proofs.Source.Decoding
import IndexFleet.Proofs.Upload

namespace IndexFleet

namespace Source

-- What is told with the answers of a source is what is told of its rows.
theorem Tells.answers {allowed : Entry → Prop} {source : Source} (htells : source.Tells allowed)
    (calls : List Call) : ∀ answer ∈ source.answers calls, ∀ entry ∈ answer.2, allowed entry := by
  induction calls generalizing source with
  | nil => exact List.forall_mem_nil _
  | cons call calls ih =>
      have hanswer : (source.answer call).2 = (source.takeRows call.wanted).2 := by
        cases call <;> rfl
      obtain ⟨htold, hrest⟩ := htells.takeRows call.wanted
      rw [← hanswer] at htold hrest
      exact List.forall_mem_cons.mpr ⟨htold, ih hrest⟩

end Source

namespace Reader

open Text (IsRow dropReturn)

-- The reader that is left after some calls.
def after : Reader → List Call → Reader
  | reader, [] => reader
  | reader, call :: calls => (reader.answer call).2.2.after calls

variable {reader first : Reader} {calls : List Call} {count : Nat} {bytes : Text.Bytes}
  {name header chunk : String} {rows : List String}

theorem header_answer (reader : Reader) (call : Call) :
    (reader.answer call).2.2.header = reader.header := by
  have hheader := (reader.toSource.answer_eq call).2.1
  rw [answer_toSource] at hheader
  exact hheader

theorem texts_answer (reader : Reader) (call : Call) :
    (reader.answer call).2.2.toSource.texts = reader.toSource.texts.drop call.wanted := by
  have htexts := (reader.toSource.answer_eq call).2.2
  rw [answer_toSource] at htexts
  exact htexts

-- Calls leave the header, and take rows from the front.
theorem exists_passed (reader : Reader) (calls : List Call) :
    (reader.after calls).header = reader.header ∧
      ∃ passed, reader.toSource.texts = passed ++ (reader.after calls).toSource.texts := by
  induction calls generalizing reader with
  | nil => exact ⟨rfl, [], rfl⟩
  | cons call calls ih =>
      obtain ⟨hheader, passed, hpassed⟩ := ih (reader.answer call).2.2
      refine ⟨hheader.trans (reader.header_answer call),
        reader.toSource.texts.take call.wanted ++ passed, ?_⟩
      rw [List.append_assoc, after, ← hpassed, texts_answer, List.take_append_drop]

theorem nextChunk_eq (reader : Reader) (count : Nat) :
    (reader.nextChunk count).1 =
      if (reader.toSource.texts.take count).isEmpty then none
      else some (Source.chunkText reader.header (reader.toSource.texts.take count)) := by
  have hnext := reader.toSource.nextChunk_fst count
  rw [nextChunk_toSource] at hnext
  rw [hnext, Source.texts, ← List.map_take, List.isEmpty_map]
  rfl

-- Whole bytes are read without a word.
theorem ofBytes_of_whole (name : String) (hheader : Source.headerOf? bytes = some header)
    (hwhole : Text.Utf8.damaged bytes = false) :
    ∃ reader, ofBytes name bytes = (.ok reader, []) ∧ reader.header = header ∧
      reader.toSource.texts = Source.rowsBelow bytes ∧ reader.toSource.Tells fun _ => False := by
  obtain ⟨line, rest, hlines, rfl, hgiven⟩ := Source.exists_first hheader
  have hsilent : ∀ line ∈ Source.rawLines bytes, Text.damageNotes line name = [] :=
    fun line hline => if_neg (by simp [Text.damaged_of_mem_linesOf hwhole hline])
  rw [hlines] at hsilent
  obtain ⟨hline, hrest⟩ := List.forall_mem_cons.mp hsilent
  have hsource : Source.ofBytes name bytes = (.ok ⟨name, Text.Utf8.decode line,
      (Source.rowsOf name [] rest).1, (Source.rowsOf name [] rest).2, none⟩, []) := by
    simp only [Source.ofBytes, Source.ofLines, hlines, hgiven, Bool.false_eq_true, if_false, hline]
  rw [ofBytes_toSource] at hsource
  obtain ⟨hopen, htold⟩ := Prod.mk.inj hsource
  cases hreader : (ofBytes name bytes).1 with
  | error failure => simp [hreader, Except.map] at hopen
  | ok reader =>
      have hsame : reader.toSource = ⟨name, Text.Utf8.decode line,
        (Source.rowsOf name [] rest).1, (Source.rowsOf name [] rest).2, none⟩ := by
          simpa [hreader, Except.map] using hopen
      refine ⟨reader, Prod.ext hreader htold, congrArg Source.header hsame, ?_, ?_⟩
      · rw [hsame, Source.rowsBelow, hlines]
        exact Source.texts_rowsOf name [] rest
      · have hnone : ∀ line ∈ rest, ∀ entry ∈ Text.damageNotes line name, False :=
          fun line hmem => hrest line hmem ▸ List.forall_mem_nil _
        obtain ⟨hrows, htail⟩ := Source.tells_rowsOf hnone (List.forall_mem_nil _)
        exact hsame ▸ ⟨hrows, htail⟩

end Reader

namespace Client

variable {client : Client} {header source body : String} {rows : List String}

-- Rows are uploaded one by one in order: all of them, unless the transport fails.
theorem TakesRows.requests {transcript : Dialogue.Transcript (Except Failure Unit)}
    (htakes : client.TakesRows header rows transcript) :
    transcript.calls.map (·.1) <+: rows.map (client.rowRequest header) ∧
      ((∀ call ∈ transcript.calls, call.2.isComplete = true) →
        transcript.calls.map (·.1) = rows.map (client.rowRequest header)) := by
  have hanswered : ∀ answered : List Answered,
      (client.answeredRows header answered).calls.map (·.1) =
        (answered.map (·.1)).map (client.rowRequest header) := by
    simp [answeredRows]
  constructor
  · cases htakes with
    | @all answered hrows _ => exact hrows ▸ hanswered answered ▸ List.prefix_rfl
    | @upTo answered row behind reply failure hrows _ _ _ =>
        refine ⟨behind.map (client.rowRequest header), ?_⟩
        rw [← hrows]
        simp only [Dialogue.Transcript.append, List.map_append, hanswered, List.map_cons,
          List.map_nil, List.append_assoc, List.cons_append, List.nil_append]
  · intro hcomplete
    obtain ⟨answered, hrows, -, rfl⟩ := htakes.all_of_complete hcomplete
    rw [hanswered, hrows]

-- What a refused body is followed by.
theorem Degrades.requests {transcript : Dialogue.Transcript (Except Failure String)}
    (hdegrades : client.Degrades source body transcript)
    (hrefused : ∀ call ∈ transcript.calls.head?, call.2.isRefusing = true) :
    transcript.calls.head?.map (·.1) = some (client.rowsRequest body) ∧
      transcript.calls.tail.map (·.1) <+:
        (rowsBelow body).map (client.rowRequest ((Text.lines body).headD "")) ∧
      ((∀ call ∈ transcript.calls.tail, call.2.isComplete = true) →
        transcript.calls.tail.map (·.1) =
          (rowsBelow body).map (client.rowRequest ((Text.lines body).headD ""))) := by
  cases hdegrades with
  | @accepted status answer hstatus =>
      have hnot : (Reply.answered status answer).isRefusing = true := hrefused _ rfl
      simp [Reply.isRefusing, Reply.isAccepting_answered.mpr hstatus] at hnot
  | @broken reply failure hbroken hfailure =>
      have hnot : reply.isRefusing = true := hrefused _ rfl
      simp [Reply.isRefusing, hbroken] at hnot
  | @refused status answer rest hstatus hrest =>
      exact ⟨rfl, hrest.requests⟩

end Client

namespace Source

open Text (IsRow dropReturn)

variable {header : String} {rows : List String}

theorem rawLines_chunkText (hheader : IsRow header) (hrows : ∀ row ∈ rows, IsRow row) :
    (rawLines (Text.utf8 (chunkText header rows))).map Text.Utf8.decode =
      dropReturn header :: rows.map dropReturn := by
  rw [rawLines, ← Text.lines_decode, Text.Utf8.decode_utf8, lines_chunkText hheader hrows]

theorem headerOf?_chunkText (hheader : IsRow header) (hrows : ∀ row ∈ rows, IsRow row) :
    headerOf? (Text.utf8 (chunkText header rows)) = some (dropReturn header) := by
  have hgiven : Text.allBlank (dropReturn header) = false :=
    (Text.allBlank_dropReturn header).trans hheader.given
  rw [headerOf?, ← List.head?_map, rawLines_chunkText hheader hrows]
  simp [Option.filter, hgiven]

theorem rowsBelow_chunkText (hheader : IsRow header) (hrows : ∀ row ∈ rows, IsRow row) :
    rowsBelow (Text.utf8 (chunkText header rows)) = rows.map dropReturn := by
  rw [rowsBelow, List.map_tail, rawLines_chunkText hheader hrows, List.tail_cons]
  refine List.filter_eq_self.mpr fun line hline => ?_
  obtain ⟨row, hrow, rfl⟩ := List.mem_map.mp hline
  simp [Text.allBlank_dropReturn, (hrows row hrow).given]

end Source

-- How a chunk of rows below a header is split up again, as a text and as the bytes of a source:
-- into the header and the rows, each without one return at its end. Refused as a whole it is
-- followed by one upload for each row, unless an answer fails to come.
structure Resplits (header : String) (rows : List String) (chunk : String) : Prop where
  built : rows ≠ [] ∧ chunk = Source.chunkText header rows
  lines : Text.lines chunk = Text.dropReturn header :: rows.map Text.dropReturn
  given : ∀ line ∈ Text.lines chunk, line ≠ ""
  fallback : ∀ tree client transcript,
    Dialogue.MayLeave .calm (Command.dialogue tree ⟨.addData, some chunk, client⟩) transcript →
      (∀ call ∈ transcript.calls.head?, call.2.isRefusing = true) →
        transcript.calls.head?.map (·.1) = some (client.rowsRequest chunk) ∧
          transcript.calls.tail.map (·.1) <+: rows.map (fun row =>
            client.rowRequest (Text.dropReturn header) (Text.dropReturn row)) ∧
          ((∀ call ∈ transcript.calls.tail, call.2.isComplete = true) →
            transcript.calls.tail.map (·.1) = rows.map fun row =>
              client.rowRequest (Text.dropReturn header) (Text.dropReturn row))
  reread : ∀ name, ∃ reader, Reader.ofBytes name (Text.utf8 chunk) = (.ok reader, []) ∧
    reader.header = Text.dropReturn header ∧ ∀ calls,
      Serves (Text.dropReturn header) (rows.map Text.dropReturn) calls
          ((reader.answers calls).map (·.1)) ∧
        ∀ answer ∈ reader.answers calls, answer.2 = []

open Text (IsRow dropReturn)

variable {header : String} {rows : List String}

theorem resplits_chunkText (hheader : IsRow header) (hrows : ∀ row ∈ rows, IsRow row)
    (hgiven : rows ≠ []) : Resplits header rows (Source.chunkText header rows) where
  built := ⟨hgiven, rfl⟩
  lines := Source.lines_chunkText hheader hrows
  given := by
    have hall : ∀ row ∈ header :: rows, IsRow row := List.forall_mem_cons.mpr ⟨hheader, hrows⟩
    rw [Source.lines_chunkText hheader hrows, ← List.map_cons]
    intro line hline
    obtain ⟨row, hrow, rfl⟩ := List.mem_map.mp hline
    exact Text.dropReturn_ne_empty (hall row hrow).given
  fallback tree client transcript hleave hrefused := by
    have hparts := Client.rowsOneByOne_getD (Source.chunkText header rows)
    rw [Source.rowsOneByOne_chunkText hheader hrows, Option.getD_some] at hparts
    obtain ⟨hfirst, hbelow⟩ := Prod.mk.inj hparts
    have hdegrades := Client.mayLeave_pushWithFallback_iff.mp hleave
    obtain ⟨hwhole, hbehind, hall⟩ := hdegrades.requests hrefused
    rw [← hbelow, ← hfirst, List.map_map] at hbehind hall
    exact ⟨hwhole, hbehind, hall⟩
  reread name := by
    obtain ⟨reader, hopen, hsame, htexts, hsilent⟩ := Reader.ofBytes_of_whole name
      (Source.headerOf?_chunkText hheader hrows) (Text.Utf8.damaged_utf8 _)
    refine ⟨reader, hopen, hsame, fun calls => ⟨?_, fun answer hanswer => ?_⟩⟩
    · obtain ⟨shares, hshares⟩ := reader.toSource.exists_delivers calls
      rw [htexts, Source.rowsBelow_chunkText hheader hrows, Reader.answers_toSource] at hshares
      exact hsame ▸ hshares.serves
    · rw [← Reader.answers_toSource] at hanswer
      exact List.eq_nil_iff_forall_not_mem.mpr (hsilent.answers calls answer hanswer)

-- A chunk has the rows that its reader comes to next, and is split up into them again.
theorem resplits_of_nextChunk {name chunk : String} {bytes : Text.Bytes} {first : Reader}
    {calls : List Call} {count : Nat} (hopen : (Reader.ofBytes name bytes).1 = .ok first)
    (hchunk : ((first.after calls).nextChunk count).1 = some chunk) :
    ∃ header passed rows left, Source.headerOf? bytes = some header ∧
      Source.rowsBelow bytes = passed ++ rows ++ left ∧
      rows.length = min count (rows ++ left).length ∧ Resplits header rows chunk := by
  have hsource : (Source.ofBytes name bytes).1 = .ok first.toSource := by
    rw [Reader.ofBytes_toSource, hopen]
    rfl
  obtain ⟨hheader, hrows⟩ := Source.header_of_ofBytes hsource
  obtain ⟨hsame, passed, hpassed⟩ := first.exists_passed calls
  generalize hleft : (first.after calls).toSource.texts = remaining at hpassed
  rw [Reader.nextChunk_eq, hleft, hsame] at hchunk
  have hgiven : remaining.take count ≠ [] := fun hnone => by simp [hnone] at hchunk
  have hmem : ∀ row ∈ remaining.take count, row ∈ Source.rowsBelow bytes := fun row hrow => by
    rw [hrows, hpassed]
    exact List.mem_append_right passed (List.mem_of_mem_take hrow)
  have hresplits := resplits_chunkText (Source.isRow_of_header hheader)
    (fun row hrow => Source.isRow_of_mem_rowsBelow (hmem row hrow)) hgiven
  have htext : chunk = Source.chunkText first.header (remaining.take count) := by
    simpa [hgiven] using hchunk.symm
  refine ⟨first.toSource.header, passed, remaining.take count, remaining.drop count, hheader,
    ?_, ?_, htext ▸ hresplits⟩
  · rw [hrows, hpassed, List.append_assoc, List.take_append_drop]
  · rw [List.take_append_drop, List.length_take]

-- The header and a row end with a return more than their terminators have, and the last row has no
-- terminator.
def moreReturns : Text.Bytes := [105, 100, 13, 13, 10, 49, 10, 10, 50, 13, 13, 10, 51]

theorem resplits_moreReturns :
    ∃ first, (Reader.ofBytes "rows" moreReturns).1 = .ok first ∧
      ((first.after [.row]).nextChunk 5).1 = some "id\r\n2\r\n3\n" ∧
      ∃ header passed rows left, Source.headerOf? moreReturns = some header ∧
        Source.rowsBelow moreReturns = passed ++ rows ++ left ∧
        rows.length = min 5 (rows ++ left).length ∧ Resplits header rows "id\r\n2\r\n3\n" := by
  let first : Reader := ⟨"rows", "id\r", [49, 10, 10, 50, 13, 13, 10, 51]⟩
  have hopen : (Reader.ofBytes "rows" moreReturns).1 = .ok first := rfl
  have hchunk : ((first.after [.row]).nextChunk 5).1 = some "id\r\n2\r\n3\n" := by
    have htexts : (first.after [.row]).toSource.texts = ["2\r", "3"] := by
      rw [Reader.after, Reader.after, Reader.texts_answer]
      rfl
    have hheader : (first.after [.row]).header = "id\r" := (first.exists_passed [.row]).1
    rw [Reader.nextChunk_eq, htexts, hheader]
    rfl
  exact ⟨first, hopen, hchunk, resplits_of_nextChunk hopen hchunk⟩

end IndexFleet
