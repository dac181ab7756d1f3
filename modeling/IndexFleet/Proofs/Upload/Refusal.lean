import IndexFleet.Proofs.Source
import IndexFleet.Proofs.Upload

namespace IndexFleet

def skipMark : List Char := "skipping invalid line: ".toList

-- The row that an entry tells to be skipped.
def Entry.skipped? (entry : Entry) : Option String :=
  if entry.level == .warn && skipMark.isPrefixOf entry.message.toList then
    some (String.ofList (entry.message.toList.drop skipMark.length))
  else none

namespace Log

def skipped (log : Log) : List String := log.filterMap (·.skipped?)

theorem skipped_append (log more : Log) :
    (log ++ more : Log).skipped = log.skipped ++ more.skipped :=
  List.filterMap_append

theorem skipped_of_none {log : Log} (hlog : ∀ entry ∈ log, entry.skipped? = none) :
    log.skipped = [] :=
  List.filterMap_eq_nil_iff.mpr hlog

end Log

namespace Entry

theorem skipped?_skipNote (row : String) :
    (warn s!"skipping invalid line: {row}").skipped? = some row := by
  have htext : (s!"skipping invalid line: {row}").toList = skipMark ++ row.toList := by
    unfold skipMark
    simp [toString]
  simp [skipped?, warn, htext]

theorem skipped?_of_not_prefix {message : String}
    (hmessage : skipMark.isPrefixOf message.toList = false) : (warn message).skipped? = none := by
  simp [skipped?, warn, hmessage]

theorem skipped?_rejected (node : String) (status : Nat) (body : String) :
    (warn (Failure.rejected node status body).message).skipped? = none := by
  have hmessage : (Failure.rejected node status body).message =
      "Rejected by " ++ node ++ " (HTTP " ++ toString status ++ "): " ++ body := rfl
  refine skipped?_of_not_prefix ?_
  rw [hmessage]
  unfold skipMark
  simp [List.isPrefixOf]

theorem skipped?_oneByOne (source : String) :
    (warn s!"adding {source} one by one...").skipped? = none := by
  refine skipped?_of_not_prefix ?_
  unfold skipMark
  simp [toString, List.isPrefixOf]

theorem skipped?_of_isDamageNote {entry : Entry} (h : Source.IsDamageNote entry) :
    entry.skipped? = none := by
  obtain ⟨name, text, rfl⟩ := h
  refine skipped?_of_not_prefix ?_
  unfold skipMark
  simp [toString, List.isPrefixOf]

end Entry

-- How a server answers the calls of a task: it refuses the first one, which has all rows in it, and
-- decides on each other one for itself.
structure IsJudged (judge : Request → Bool) (calls : List (Request × Reply)) : Prop where
  whole : ∀ call ∈ calls.head?, call.2.isRefusing = true
  rows : ∀ call ∈ calls.tail, call.2.isComplete = true ∧ call.2.isAccepting = judge call.1

namespace Client

variable {client : Client} {header source body : String} {judge : Request → Bool}

theorem skipped_rowNotes {row : String} {reply : Reply} (hcomplete : reply.isComplete = true) :
    (client.rowNotes header row reply : Log).skipped =
      if reply.isAccepting then [] else [row] := by
  obtain ⟨status, answer, rfl, hstatus⟩ | ⟨status, answer, rfl, hstatus⟩ | hbroken :=
    reply.accepting_or_refusing_or_broken
  · rw [if_pos (Reply.isAccepting_answered.mpr hstatus), rowNotes,
      outcome_answered_of_accepting hstatus]
    rfl
  · rw [if_neg (mt Reply.isAccepting_answered.mp hstatus), rowNotes,
      outcome_answered_of_refusing hstatus]
    simp only [Log.skipped, List.filterMap_cons, List.filterMap_nil, Entry.skipped?_rejected,
      Entry.skipped?_skipNote]
  · cases hcomplete.symm.trans hbroken

theorem skipped_answeredRows {answered : List Answered}
    (hanswered : ∀ one ∈ answered, one.2.isComplete = true ∧
      one.2.isAccepting = judge (client.rowRequest header one.1)) :
    (client.answeredRows header answered).log.skipped =
      (answered.map (·.1)).filter fun row => !judge (client.rowRequest header row) := by
  induction answered with
  | nil => rfl
  | cons one answered ih =>
      obtain ⟨⟨hcomplete, hjudge⟩, hrest⟩ := List.forall_mem_cons.mp hanswered
      rw [answeredRows_cons, Log.skipped_append, ih hrest, skipped_rowNotes hcomplete, hjudge,
        List.map_cons]
      cases hone : judge (client.rowRequest header one.1) <;> simp [hone]

-- What is left of the upload of a body that is refused as a whole.
theorem Degrades.of_judged {transcript : Dialogue.Transcript (Except Failure String)}
    (hdegrades : client.Degrades source body transcript)
    (hjudged : IsJudged judge transcript.calls) :
    transcript.result = .ok "" ∧
      transcript.calls.head?.map (·.1) = some (client.rowsRequest body) ∧
      transcript.calls.tail.map (·.1) =
        (rowsBelow body).map (client.rowRequest ((Text.lines body).headD "")) ∧
      transcript.log.skipped = (rowsBelow body).filter fun row =>
        !judge (client.rowRequest ((Text.lines body).headD "") row) := by
  cases hdegrades with
  | @accepted status answer hstatus =>
      have hrefused : (Reply.answered status answer).isRefusing = true := hjudged.whole _ rfl
      simp [Reply.isRefusing, Reply.isAccepting_answered.mpr hstatus] at hrefused
  | @broken reply _ hbroken =>
      have hrefused : reply.isRefusing = true := hjudged.whole _ rfl
      simp [Reply.isRefusing, hbroken] at hrefused
  | @refused status answer rest hstatus hrest =>
      have hcalls : ∀ call ∈ rest.calls, call.2.isComplete = true ∧
          call.2.isAccepting = judge call.1 := hjudged.rows
      obtain ⟨answered, hrows, _, rfl⟩ :=
        hrest.all_of_complete fun call hcall => (hcalls call hcall).1
      rw [← hrows]
      refine ⟨rfl, rfl, ?_, ?_⟩
      · simp [answeredRows]
      · simp only [Log.skipped, List.filterMap_cons, Entry.skipped?_rejected,
          Entry.skipped?_oneByOne]
        exact skipped_answeredRows fun one hone => hcalls _ (List.mem_map_of_mem hone)

theorem TakesRows.exists_row {rows : List String}
    {transcript : Dialogue.Transcript (Except Failure Unit)}
    (htakes : client.TakesRows header rows transcript) :
    ∀ call ∈ transcript.calls, ∃ row ∈ rows, call.1 = client.rowRequest header row := by
  have hanswered : ∀ answered : List Answered,
      ∀ call ∈ (client.answeredRows header answered).calls,
        ∃ row ∈ answered.map (·.1), call.1 = client.rowRequest header row := by
    intro answered call hcall
    obtain ⟨one, hone, rfl⟩ := List.mem_map.mp hcall
    exact ⟨one.1, List.mem_map_of_mem hone, rfl⟩
  cases htakes with
  | all hrows => exact hrows ▸ hanswered _
  | upTo hrows =>
      subst hrows
      refine List.forall_mem_append.mpr ⟨fun call hcall => ?_, List.forall_mem_singleton.mpr ?_⟩
      · obtain ⟨row, hrow, hrequest⟩ := hanswered _ call hcall
        exact ⟨row, List.mem_append_left _ hrow, hrequest⟩
      · exact ⟨_, List.mem_append_right _ List.mem_cons_self, rfl⟩

-- A server that refuses the body and answers its rows judges the upload.
theorem Degrades.isJudged {network : Network}
    {transcript : Dialogue.Transcript (Except Failure String)}
    (hdegrades : client.Degrades source body transcript)
    (hreplies : ∀ call ∈ transcript.calls, call.2 = network call.1)
    (hwhole : (network (client.rowsRequest body)).isRefusing = true)
    (hrows : ∀ row ∈ rowsBelow body,
      (network (client.rowRequest ((Text.lines body).headD "") row)).isComplete = true) :
    IsJudged (fun request => (network request).isAccepting) transcript.calls := by
  have hfirst : ∀ call ∈ transcript.calls.head?, call.1 = client.rowsRequest body := by
    cases hdegrades <;> simp
  have hlater : ∀ call ∈ transcript.calls.tail,
      ∃ row ∈ rowsBelow body, call.1 = client.rowRequest ((Text.lines body).headD "") row := by
    cases hdegrades with
    | accepted | broken => exact List.forall_mem_nil _
    | refused _ hrest => exact hrest.exists_row
  constructor
  · intro call hcall
    rw [hreplies call (List.mem_of_head? hcall), hfirst call hcall]
    exact hwhole
  · intro call hcall
    obtain ⟨row, hrow, hrequest⟩ := hlater call hcall
    have hreply := hreplies call (List.mem_of_mem_tail hcall)
    refine ⟨?_, hreply ▸ rfl⟩
    rw [hreply, hrequest]
    exact hrows row hrow

end Client

end IndexFleet
