import IndexFleet.Command.Run
import IndexFleet.Proofs.World

namespace IndexFleet

variable {world : World}

theorem Failure.isRejection_of_isTransport {failure : Failure}
    (htransport : failure.isTransport = true) : failure.isRejection = false := by
  cases failure <;> first | rfl | cases htransport

open Dialogue (MayLeave)

namespace Client

variable {client : Client} {header row source body : String} {rows : List String}

theorem mayLeave_send {request : Request}
    {transcript : Dialogue.Transcript (Except Failure String)}
    (h : MayLeave world (client.send request) transcript) :
    ∃ reply, world.mayReply request reply ∧
      transcript = ⟨[(request, reply)], [], client.outcome request reply⟩ := by
  cases h with
  | @ask _ _ reply _ hreply hrest =>
      refine ⟨reply, hreply, ?_⟩
      rw [Dialogue.mayLeave_done hrest]

def rowRequest (client : Client) (header row : String) : Request :=
  client.rowsRequest (header ++ "\n" ++ row)

-- What is told about the upload of a single row: nothing if it is accepted, else that it is
-- skipped.
def rowNotes (client : Client) (header row : String) (reply : Reply) : Log :=
  match client.outcome (client.rowRequest header row) reply with
  | .ok _ => []
  | .error failure => [.warn failure.message, .warn s!"skipping invalid line: {row}"]

abbrev Answered := String × Reply

-- What is left of the upload of rows one after the other, given all answers.
def answeredRows (client : Client) (header : String) (answered : List Answered) :
    Dialogue.Transcript (Except Failure Unit) :=
  ⟨answered.map fun one => (client.rowRequest header one.1, one.2),
    answered.flatMap fun one => client.rowNotes header one.1 one.2, .ok ()⟩

section Rows

variable {transcript : Dialogue.Transcript (Except Failure Unit)}

-- What is left of the upload of rows one by one: all are sent and answered, or all up to one at
-- which the transport fails. Rows behind that one are not sent.
inductive TakesRows (client : Client) (header : String) (rows : List String) :
    Dialogue.Transcript (Except Failure Unit) → Prop
  | all {answered : List Answered} (hrows : answered.map (·.1) = rows)
      (hcomplete : ∀ one ∈ answered, one.2.isComplete = true) :
      TakesRows client header rows (client.answeredRows header answered)
  | upTo {answered : List Answered} {row : String} {behind : List String} {reply : Reply}
      {failure : Failure} (hrows : answered.map (·.1) ++ row :: behind = rows)
      (hcomplete : ∀ one ∈ answered, one.2.isComplete = true) (hbroken : reply.isComplete = false)
      (hfailure : client.outcome (client.rowRequest header row) reply = .error failure) :
      TakesRows client header rows ((client.answeredRows header answered).append
        ⟨[(client.rowRequest header row, reply)], [.error failure.message], .error failure⟩)

theorem answeredRows_cons (client : Client) (header : String) (one : Answered)
    (answered : List Answered) :
    client.answeredRows header (one :: answered) =
      ⟨(client.rowRequest header one.1, one.2) :: (client.answeredRows header answered).calls,
        client.rowNotes header one.1 one.2 ++ (client.answeredRows header answered).log,
        .ok ()⟩ := by
  simp [answeredRows]

theorem takesRows_nil : client.TakesRows header [] transcript ↔ transcript = ⟨[], [], .ok ()⟩ := by
  constructor
  · intro htakes
    cases htakes with
    | all hrows => rw [List.map_eq_nil_iff.mp hrows]; rfl
    | upTo hrows => simp at hrows
  · rintro rfl
    have hnone : client.TakesRows header [] (client.answeredRows header []) :=
      .all rfl (List.forall_mem_nil _)
    exact hnone

theorem takesRows_cons :
    client.TakesRows header (row :: rows) transcript ↔
      ∃ reply, (reply.isComplete = true ∧ ∃ rest, client.TakesRows header rows rest ∧
          transcript = ⟨(client.rowRequest header row, reply) :: rest.calls,
            client.rowNotes header row reply ++ rest.log, rest.result⟩) ∨
        (reply.isComplete = false ∧
          ∃ failure, client.outcome (client.rowRequest header row) reply = .error failure ∧
            transcript = ⟨[(client.rowRequest header row, reply)], [.error failure.message],
              .error failure⟩) := by
  constructor
  · intro htakes
    cases htakes with
    | @all answered hrows hcomplete =>
        obtain ⟨⟨row, reply⟩, answered, rfl, rfl, hrest⟩ := List.map_eq_cons_iff.mp hrows
        obtain ⟨hreply, hanswered⟩ := List.forall_mem_cons.mp hcomplete
        refine ⟨reply, .inl ⟨hreply, _, .all hrest hanswered, ?_⟩⟩
        rw [answeredRows_cons]
        rfl
    | @upTo answered last behind reply failure hrows hcomplete hbroken hfailure =>
        cases answered with
        | nil =>
            obtain ⟨rfl, rfl⟩ := List.cons.inj hrows
            exact ⟨reply, .inr ⟨hbroken, failure, hfailure, rfl⟩⟩
        | cons one answered =>
            obtain ⟨rfl, hrest⟩ := List.cons.inj hrows
            obtain ⟨hreply, hanswered⟩ := List.forall_mem_cons.mp hcomplete
            refine ⟨one.2, .inl ⟨hreply, _, .upTo hrest hanswered hbroken hfailure, ?_⟩⟩
            rw [answeredRows_cons]
            simp [Dialogue.Transcript.append]
  · rintro ⟨reply, ⟨hreply, rest, hrest, rfl⟩ | ⟨hbroken, failure, hfailure, rfl⟩⟩
    · cases hrest with
      | @all answered hrows hcomplete =>
          have htakes : client.TakesRows header (row :: rows)
              (client.answeredRows header ((row, reply) :: answered)) :=
            .all (congrArg (row :: ·) hrows) (List.forall_mem_cons.mpr ⟨hreply, hcomplete⟩)
          rw [answeredRows_cons] at htakes
          exact htakes
      | @upTo answered last behind lost failure hrows hcomplete hbroken hfailure =>
          have htakes : client.TakesRows header (row :: rows)
              ((client.answeredRows header ((row, reply) :: answered)).append
                ⟨[(client.rowRequest header last, lost)], [.error failure.message],
                  .error failure⟩) :=
            .upTo (congrArg (row :: ·) hrows) (List.forall_mem_cons.mpr ⟨hreply, hcomplete⟩)
              hbroken hfailure
          rw [answeredRows_cons] at htakes
          simpa [Dialogue.Transcript.append] using htakes
    · have htakes : client.TakesRows header (row :: rows) ((client.answeredRows header []).append
          ⟨[(client.rowRequest header row, reply)], [.error failure.message],
            .error failure⟩) :=
        .upTo rfl (List.forall_mem_nil _) hbroken hfailure
      exact htakes

-- The upload of one row after the other goes on after a row that is answered, and ends with a
-- failure of the transport.
theorem mayLeave_pushOneByOne_cons :
    MayLeave world (client.pushOneByOne header (row :: rows)) transcript ↔
      ∃ reply, world.mayReply (client.rowRequest header row) reply ∧
        ((reply.isComplete = true ∧
          ∃ rest, MayLeave world (client.pushOneByOne header rows) rest ∧
            transcript = ⟨(client.rowRequest header row, reply) :: rest.calls,
              client.rowNotes header row reply ++ rest.log, rest.result⟩) ∨
        (reply.isComplete = false ∧
          ∃ failure, client.outcome (client.rowRequest header row) reply = .error failure ∧
            transcript = ⟨[(client.rowRequest header row, reply)], [.error failure.message],
              .error failure⟩)) := by
  have hrow : client.rowsRequest (header ++ "\n" ++ row) = client.rowRequest header row := rfl
  simp only [pushOneByOne, pushRows, send, bind, Dialogue.bind, Dialogue.mayLeave_ask_iff, hrow]
  refine exists_congr fun reply => and_congr_right fun _ => ?_
  cases hcomplete : reply.isComplete with
  | true =>
      cases houtcome : client.outcome (client.rowRequest header row) reply with
      | ok answer => simp [rowNotes, houtcome]
      | error failure =>
          have hrejection := isRejection_of_outcome hcomplete houtcome
          have htransport : failure.isTransport = false := by
            cases failure <;> first | rfl | cases hrejection
          simp [rowNotes, houtcome, htransport, Dialogue.tell, Dialogue.bind,
            Dialogue.mayLeave_say_iff]
  | false =>
      obtain ⟨failure, houtcome, htransport⟩ :=
        exists_failure_of_broken client (client.rowRequest header row) hcomplete
      simp [houtcome, htransport, Dialogue.tell, Dialogue.bind, pure, Dialogue.mayLeave_say_iff,
        Dialogue.mayLeave_done_iff]

theorem mayLeave_pushOneByOne_iff :
    MayLeave .calm (client.pushOneByOne header rows) transcript ↔
      client.TakesRows header rows transcript := by
  induction rows generalizing transcript with
  | nil => rw [takesRows_nil]; exact Dialogue.mayLeave_done_iff
  | cons row rows ih =>
      rw [mayLeave_pushOneByOne_cons, takesRows_cons]
      refine exists_congr fun reply => ?_
      simp only [ih]
      exact and_iff_right trivial

theorem TakesRows.all_of_complete (htakes : client.TakesRows header rows transcript)
    (hcalls : ∀ call ∈ transcript.calls, call.2.isComplete = true) :
    ∃ answered : List Answered, answered.map (·.1) = rows ∧
      (∀ one ∈ answered, one.2.isComplete = true) ∧
      transcript = client.answeredRows header answered := by
  cases htakes with
  | @all answered hrows hcomplete => exact ⟨answered, hrows, hcomplete, rfl⟩
  | upTo _ _ hbroken _ =>
      have hcomplete := hcalls _ (List.mem_append_right _ (.head _))
      cases hbroken.symm.trans hcomplete

theorem isTransport_of_takesRows {failure : Failure}
    (htakes : client.TakesRows header rows transcript)
    (hfailure : transcript.result = .error failure) : failure.isTransport = true := by
  cases htakes with
  | all => cases hfailure
  | upTo _ _ hbroken houtcome =>
      exact Except.error.inj hfailure ▸ isTransport_of_broken hbroken houtcome

end Rows

section Whole

variable {transcript : Dialogue.Transcript (Except Failure String)}

-- The rows of a body that are uploaded one by one.
def rowsBelow (body : String) : List String := (Text.lines body).tail.filter (!·.isEmpty)

theorem rowsOneByOne_getD (body : String) :
    (rowsOneByOne body).getD ("", []) = ((Text.lines body).headD "", rowsBelow body) := by
  unfold rowsOneByOne rowsBelow
  cases Text.lines body <;> rfl

-- What is left of the upload of a body, whatever comes of the calls: it is taken as a whole, the
-- transport fails, or it is refused and its rows are uploaded one by one.
inductive Degrades (client : Client) (source body : String) :
    Dialogue.Transcript (Except Failure String) → Prop
  | accepted {status : Nat} {answer : Text.Bytes} (hstatus : 200 ≤ status ∧ status < 300) :
      Degrades client source body
        ⟨[(client.rowsRequest body, .answered status answer)], [], .ok (Text.Utf8.decode answer)⟩
  | broken {reply : Reply} {failure : Failure} (hbroken : reply.isComplete = false)
      (hfailure : client.outcome (client.rowsRequest body) reply = .error failure) :
      Degrades client source body
        ⟨[(client.rowsRequest body, reply)], [.error failure.message], .error failure⟩
  | refused {status : Nat} {answer : Text.Bytes}
      {rest : Dialogue.Transcript (Except Failure Unit)}
      (hstatus : ¬(200 ≤ status ∧ status < 300))
      (hrest : client.TakesRows ((Text.lines body).headD "") (rowsBelow body) rest) :
      Degrades client source body
        ⟨(client.rowsRequest body, .answered status answer) :: rest.calls,
          .warn (Failure.rejected client.address status (Text.Utf8.decode answer)).message ::
            .warn s!"adding {source} one by one..." :: rest.log,
          rest.result.map fun _ => ""⟩

-- A whole upload is accepted, or refused and followed by uploads row by row, or it ends with a
-- failure of the transport.
theorem mayLeave_pushWithFallback :
    MayLeave world (client.pushWithFallback source body) transcript ↔
    ∃ reply, world.mayReply (client.rowsRequest body) reply ∧
      ((∃ answer, client.outcome (client.rowsRequest body) reply = .ok answer ∧
          transcript = ⟨[(client.rowsRequest body, reply)], [], .ok answer⟩) ∨
        (∃ failure rest, client.outcome (client.rowsRequest body) reply = .error failure ∧
          failure.isRejection = true ∧
          MayLeave world (client.pushOneByOne ((rowsOneByOne body).getD ("", [])).1
            ((rowsOneByOne body).getD ("", [])).2) rest ∧
          transcript = ⟨(client.rowsRequest body, reply) :: rest.calls,
            .warn failure.message :: .warn s!"adding {source} one by one..." :: rest.log,
            rest.result.map fun _ => ""⟩) ∨
        ∃ failure, client.outcome (client.rowsRequest body) reply = .error failure ∧
          failure.isRejection = false ∧ transcript = ⟨[(client.rowsRequest body, reply)],
            [.error failure.message], .error failure⟩) := by
  simp only [pushWithFallback, pushRows, send, bind, Dialogue.bind, Dialogue.mayLeave_ask_iff]
  refine exists_congr fun reply => and_congr_right fun _ => ?_
  cases houtcome : client.outcome (client.rowsRequest body) reply with
  | ok answer => simp [pure, Dialogue.mayLeave_done_iff]
  | error failure =>
      cases hrejection : failure.isRejection with
      | true =>
          cases hrows : rowsOneByOne body with
          | none =>
              simp [hrejection, Dialogue.tell, Dialogue.bind, pure, Dialogue.mayLeave_say_iff,
                Dialogue.mayLeave_done_iff, pushOneByOne, Except.map]
          | some parts =>
              simp [hrejection, Dialogue.tell, Dialogue.bind, pure, Dialogue.mayLeave_say_iff,
                Dialogue.mayLeave_bind_iff, Dialogue.mayLeave_done_iff,
                Dialogue.Transcript.append]
      | false =>
          simp [hrejection, Dialogue.tell, Dialogue.bind, pure, Dialogue.mayLeave_say_iff,
            Dialogue.mayLeave_done_iff]

theorem mayLeave_pushWithFallback_iff :
    MayLeave .calm (client.pushWithFallback source body) transcript ↔
      client.Degrades source body transcript := by
  rw [mayLeave_pushWithFallback, rowsOneByOne_getD]
  simp only [mayLeave_pushOneByOne_iff]
  constructor
  · rintro ⟨reply, -, hcases⟩
    obtain ⟨status, answer, rfl, hstatus⟩ | ⟨status, answer, rfl, hstatus⟩ | hbroken :=
      reply.accepting_or_refusing_or_broken
    · have htaken : transcript = ⟨[(client.rowsRequest body, .answered status answer)], [],
          .ok (Text.Utf8.decode answer)⟩ := by
        simpa [outcome_answered_of_accepting hstatus] using hcases
      exact htaken ▸ .accepted hstatus
    · simp only [outcome_answered_of_refusing hstatus] at hcases
      rcases hcases with ⟨_, hfailure, -⟩ | ⟨failure, rest, hfailure, -, hrest, rfl⟩ |
        ⟨failure, hfailure, hrejection, -⟩
      · cases hfailure
      · exact Except.error.inj hfailure ▸ .refused hstatus hrest
      · cases Except.error.inj hfailure ▸ hrejection
    · obtain ⟨failure, hfailure, htransport⟩ :=
        exists_failure_of_broken client (client.rowsRequest body) hbroken
      have hlost : transcript =
          ⟨[(client.rowsRequest body, reply)], [.error failure.message], .error failure⟩ := by
        simpa [hfailure, Failure.isRejection_of_isTransport htransport] using hcases
      exact hlost ▸ .broken hbroken hfailure
  · intro hdegrades
    cases hdegrades with
    | @accepted status answer hstatus =>
        exact ⟨.answered status answer, trivial,
          .inl ⟨_, outcome_answered_of_accepting hstatus, rfl⟩⟩
    | @broken reply failure hbroken hfailure =>
        have hrejection :=
          Failure.isRejection_of_isTransport (isTransport_of_broken hbroken hfailure)
        exact ⟨reply, trivial, .inr (.inr ⟨_, hfailure, hrejection, rfl⟩)⟩
    | @refused status answer rest hstatus hrest =>
        exact ⟨.answered status answer, trivial, .inr (.inl
          ⟨_, rest, outcome_answered_of_refusing hstatus, rfl, hrest, rfl⟩)⟩

-- An upload never fails because it is refused.
theorem isTransport_of_degrades {failure : Failure}
    (hdegrades : client.Degrades source body transcript)
    (hfailure : transcript.result = .error failure) : failure.isTransport = true := by
  cases hdegrades with
  | accepted => cases hfailure
  | broken hbroken houtcome =>
      exact Except.error.inj hfailure ▸ isTransport_of_broken hbroken houtcome
  | @refused _ _ rest _ hrest =>
      have hmapped : rest.result.map (fun _ => "") = .error failure := hfailure
      cases hresult : rest.result with
      | ok => simp [hresult, Except.map] at hmapped
      | error one =>
          have hsame : one = failure := by simpa [hresult, Except.map] using hmapped
          exact hsame ▸ isTransport_of_takesRows hrest hresult

theorem isTransport_of_pushWithFallback {failure : Failure}
    (h : MayLeave world (client.pushWithFallback source body) transcript)
    (hfailure : transcript.result = .error failure) : failure.isTransport = true :=
  isTransport_of_degrades (mayLeave_pushWithFallback_iff.mp h.toCalm) hfailure

theorem mayLeave_pushWithFallback_accepting
    (h : MayLeave .accepting (client.pushWithFallback source body) transcript) :
    ∃ reply answer, transcript = ⟨[(client.rowsRequest body, reply)], [], .ok answer⟩ := by
  have hcalls := Dialogue.mayReply_of_mayLeave h
  cases mayLeave_pushWithFallback_iff.mp h.toCalm with
  | accepted => exact ⟨_, _, rfl⟩
  | @broken reply failure _ houtcome =>
      have haccepting : reply.isAccepting = true := hcalls _ (.head _)
      obtain ⟨answer, haccepted⟩ :=
        outcome_of_isAccepting client (client.rowsRequest body) haccepting
      cases haccepted.symm.trans houtcome
  | @refused status answer rest hstatus _ =>
      have haccepting : (Reply.answered status answer).isAccepting = true := hcalls _ (.head _)
      exact absurd (Reply.isAccepting_answered.mp haccepting) hstatus

end Whole

end Client

namespace Command

variable {command : Command} {tree : FileTree} {argument : String}

theorem dialogue_addData (hkind : command.kind = .addData)
    (hargument : command.argument = some argument) :
    command.dialogue tree = command.client.pushWithFallback "chunk" argument := by
  simp only [dialogue, hkind, withArgument, hargument]

theorem dialogue_delete (hkind : command.kind = .delete)
    (hargument : command.argument = some argument) :
    command.dialogue tree = command.client.update (Wire.deleteBody argument) := by
  simp only [dialogue, hkind, withArgument, hargument]

-- If all calls are answered, a whole upload succeeds in the end: it is accepted, or the rows are
-- uploaded one after the other.
theorem mayLeave_addData_answering {transcript : Dialogue.Transcript (Except Failure String)}
    (hkind : command.kind = .addData) (hargument : command.argument = some argument)
    (h : MayLeave .answering (command.dialogue tree) transcript) :
    (∃ reply answer, reply.isAccepting = true ∧
        transcript = ⟨[(command.client.rowsRequest argument, reply)], [], .ok answer⟩) ∨
      ∃ (reply : Reply) (failure : Failure) (answered : List Client.Answered),
        reply.isRefusing = true ∧
        answered.map (·.1) = ((Client.rowsOneByOne argument).getD ("", [])).2 ∧
        (∀ one ∈ answered, one.2.isComplete = true) ∧
        let rest := command.client.answeredRows
          ((Client.rowsOneByOne argument).getD ("", [])).1 answered
        transcript = ⟨(command.client.rowsRequest argument, reply) :: rest.calls,
          .warn failure.message :: .warn "adding chunk one by one..." :: rest.log, .ok ""⟩ := by
  rw [dialogue_addData hkind hargument] at h
  have hcalls := Dialogue.mayReply_of_mayLeave h
  rw [Client.rowsOneByOne_getD]
  cases Client.mayLeave_pushWithFallback_iff.mp h.toCalm with
  | @accepted status answer hstatus =>
      exact .inl ⟨.answered status answer, _, Reply.isAccepting_answered.mpr hstatus, rfl⟩
  | broken hbroken => cases hbroken.symm.trans (hcalls _ (.head _))
  | @refused status answer rest hstatus hrest =>
      have hrefusing : (Reply.answered status answer).isRefusing = true := by
        have hrefused : (Reply.answered status answer).isAccepting = false :=
          Bool.eq_false_iff.mpr (mt Reply.isAccepting_answered.mp hstatus)
        rw [Reply.isRefusing, hrefused]
        rfl
      obtain ⟨answered, hrows, hcomplete, rfl⟩ :=
        hrest.all_of_complete fun call hcall => hcalls call (.tail _ hcall)
      exact .inr ⟨_, _, answered, hrefusing, hrows, hcomplete, rfl⟩

theorem result_of_accepting {transcript : Dialogue.Transcript (Except Failure String)}
    (hkind : command.kind = .addData ∨ command.kind = .delete)
    (hargument : command.argument.isSome = true)
    (h : MayLeave .accepting (command.dialogue tree) transcript) :
    ∃ answer, transcript.result = .ok answer := by
  obtain ⟨argument, hsome⟩ := Option.isSome_iff_exists.mp hargument
  rcases hkind with hkind | hkind
  · rw [dialogue_addData hkind hsome] at h
    obtain ⟨reply, answer, rfl⟩ := Client.mayLeave_pushWithFallback_accepting h
    exact ⟨answer, rfl⟩
  · rw [dialogue_delete hkind hsome] at h
    obtain ⟨reply, hreply, rfl⟩ := Client.mayLeave_send h
    exact Client.outcome_of_isAccepting _ _ hreply

end Command

end IndexFleet
