import IndexFleet.Dialogue
import IndexFleet.Client
import Mathlib.Data.List.Basic

namespace IndexFleet

namespace Reply

-- A complete answer, whatever its status.
def isComplete : Reply → Bool
  | answered .. => true
  | _ => false

def isAccepting : Reply → Bool
  | answered status _ => 200 ≤ status && status < 300
  | _ => false

theorem isAccepting_answered {status : Nat} {body : Text.Bytes} :
    (answered status body).isAccepting = true ↔ 200 ≤ status ∧ status < 300 := by
  simp [isAccepting]

theorem wasReceived_of_isAccepting {reply : Reply} (h : reply.isAccepting = true) :
    reply.wasReceived = true := by
  cases reply with
  | answered status body => rfl
  | refused | unaddressable | dropped | unanswered | truncated => cases h

theorem accepting_or_refusing_or_broken (reply : Reply) :
    (∃ status answer, reply = .answered status answer ∧ 200 ≤ status ∧ status < 300) ∨
      (∃ status answer, reply = .answered status answer ∧ ¬(200 ≤ status ∧ status < 300)) ∨
      reply.isComplete = false := by
  cases reply with
  | answered status answer =>
      by_cases hstatus : 200 ≤ status ∧ status < 300
      · exact .inl ⟨status, answer, rfl, hstatus⟩
      · exact .inr (.inl ⟨status, answer, rfl, hstatus⟩)
  | refused | unaddressable | dropped | unanswered | truncated => exact .inr (.inr rfl)

def isRefusing (reply : Reply) : Bool := reply.isComplete && !reply.isAccepting

end Reply

-- What the surroundings of a run may do: what may come of a call, each time that it is made, and
-- whether a task may panic.
structure World where
  mayReply : Request → Reply → Prop
  mayPanic : Prop

namespace World

-- Anything may come of a call, and every task may panic.
def wild : World := ⟨fun _ _ => True, True⟩

-- Anything may come of a call.
def calm : World := ⟨fun _ _ => True, False⟩

def answering : World := ⟨fun _ reply => reply.isComplete = true, False⟩

def accepting : World := ⟨fun _ reply => reply.isAccepting = true, False⟩

-- What comes of a call depends on the call alone.
def replying (network : Network) : World := ⟨fun request reply => reply = network request, False⟩

end World

namespace Client

variable {client : Client} {request : Request} {reply : Reply} {failure : Failure}

theorem outcome_answered_of_accepting {status : Nat} {answer : Text.Bytes}
    (hstatus : 200 ≤ status ∧ status < 300) :
    client.outcome request (.answered status answer) = .ok (Text.Utf8.decode answer) := by
  simp only [outcome, hstatus, and_self, ite_true]

theorem outcome_answered_of_refusing {status : Nat} {answer : Text.Bytes}
    (hstatus : ¬(200 ≤ status ∧ status < 300)) :
    client.outcome request (.answered status answer) =
      .error (.rejected client.address status (Text.Utf8.decode answer)) := by
  simp only [outcome, hstatus, ite_false]

theorem outcome_of_isAccepting (client : Client) (request : Request)
    (haccepting : reply.isAccepting = true) :
    ∃ answer, client.outcome request reply = .ok answer := by
  cases reply with
  | answered status body =>
      exact ⟨_, outcome_answered_of_accepting (Reply.isAccepting_answered.mp haccepting)⟩
  | refused | unaddressable | dropped | unanswered | truncated => cases haccepting

theorem isAccepting_of_outcome {answer : String}
    (houtcome : client.outcome request reply = .ok answer) : reply.isAccepting = true := by
  cases reply with
  | answered status body =>
      by_cases hstatus : 200 ≤ status ∧ status < 300
      · exact Reply.isAccepting_answered.mpr hstatus
      · cases (outcome_answered_of_refusing hstatus).symm.trans houtcome
  | refused | unaddressable | dropped | unanswered | truncated => cases houtcome

theorem outcome_eq_ok_iff :
    (∃ answer, client.outcome request reply = .ok answer) ↔ reply.isAccepting = true :=
  ⟨fun ⟨_, houtcome⟩ => isAccepting_of_outcome houtcome,
    outcome_of_isAccepting client request⟩

-- A complete answer can mean no failure but a refusal.
theorem isRejection_of_outcome (hcomplete : reply.isComplete = true)
    (houtcome : client.outcome request reply = .error failure) : failure.isRejection = true := by
  cases reply with
  | answered status body =>
      by_cases hstatus : 200 ≤ status ∧ status < 300
      · cases (outcome_answered_of_accepting hstatus).symm.trans houtcome
      · have hrefused := (outcome_answered_of_refusing hstatus).symm.trans houtcome
        exact Except.error.inj hrefused ▸ rfl
  | refused | unaddressable | dropped | unanswered | truncated => cases hcomplete

-- Without a complete answer there is a failure.
theorem exists_failure_of_broken (client : Client) (request : Request)
    (hbroken : reply.isComplete = false) :
    ∃ failure, client.outcome request reply = .error failure ∧ failure.isTransport = true := by
  cases reply with
  | answered => cases hbroken
  | refused | unaddressable | dropped | unanswered | truncated => exact ⟨_, rfl, rfl⟩

theorem isTransport_of_broken (hbroken : reply.isComplete = false)
    (houtcome : client.outcome request reply = .error failure) : failure.isTransport = true := by
  obtain ⟨cause, hcause, htransport⟩ := exists_failure_of_broken client request hbroken
  have hsame : cause = failure := Except.error.inj (hcause.symm.trans houtcome)
  exact hsame ▸ htransport

theorem isTransport_of_outcome (hrejection : failure.isRejection = false)
    (houtcome : client.outcome request reply = .error failure) : failure.isTransport = true := by
  cases reply with
  | answered status body =>
      have hrefusal := isRejection_of_outcome rfl houtcome
      exact absurd (hrejection.symm.trans hrefusal) Bool.noConfusion
  | refused | unaddressable | dropped | unanswered | truncated =>
      exact isTransport_of_broken rfl houtcome

end Client

namespace Dialogue

variable {α β : Type} {world : World}

-- The transcripts that a dialogue can leave in a world. Equal calls need not come to the same.
inductive MayLeave (world : World) : Dialogue α → Transcript α → Prop
  | done (result : α) : MayLeave world (.done result) ⟨[], [], result⟩
  | say {entry : Entry} {next : Dialogue α} {rest : Transcript α}
      (hrest : MayLeave world next rest) :
      MayLeave world (.say entry next) { rest with log := entry :: rest.log }
  | ask {request : Request} {next : Reply → Dialogue α} {reply : Reply} {rest : Transcript α}
      (hreply : world.mayReply request reply) (hrest : MayLeave world (next reply) rest) :
      MayLeave world (.ask request next) { rest with calls := (request, reply) :: rest.calls }

theorem mayLeave_bind {first : Dialogue α} {next : α → Dialogue β} {transcript : Transcript β}
    (h : MayLeave world (first.bind next) transcript) :
    ∃ before after, MayLeave world first before ∧ MayLeave world (next before.result) after ∧
      transcript = before.append after := by
  induction first generalizing transcript with
  | done result => exact ⟨⟨[], [], result⟩, transcript, .done result, h, rfl⟩
  | say entry rest ih =>
      cases h with
      | say hrest =>
          obtain ⟨before, after, hbefore, hafter, rfl⟩ := ih hrest
          exact ⟨_, after, .say hbefore, hafter, rfl⟩
  | ask request rest ih =>
      cases h with
      | ask hreply hrest =>
          obtain ⟨before, after, hbefore, hafter, rfl⟩ := ih _ hrest
          exact ⟨_, after, .ask hreply hbefore, hafter, rfl⟩

theorem mayLeave_done {result : α} {transcript : Transcript α}
    (h : MayLeave world (.done result) transcript) : transcript = ⟨[], [], result⟩ := by
  cases h
  rfl

theorem mayLeave_done_iff {result : α} {transcript : Transcript α} :
    MayLeave world (.done result) transcript ↔ transcript = ⟨[], [], result⟩ :=
  ⟨mayLeave_done, fun htranscript => htranscript ▸ .done result⟩

theorem mayLeave_say_iff {entry : Entry} {next : Dialogue α} {transcript : Transcript α} :
    MayLeave world (.say entry next) transcript ↔
      ∃ rest, MayLeave world next rest ∧ transcript = { rest with log := entry :: rest.log } := by
  constructor
  · intro hleave
    cases hleave with
    | say hrest => exact ⟨_, hrest, rfl⟩
  · rintro ⟨rest, hrest, rfl⟩
    exact .say hrest

theorem mayLeave_ask_iff {request : Request} {next : Reply → Dialogue α}
    {transcript : Transcript α} :
    MayLeave world (.ask request next) transcript ↔
      ∃ reply, world.mayReply request reply ∧ ∃ rest, MayLeave world (next reply) rest ∧
        transcript = { rest with calls := (request, reply) :: rest.calls } := by
  constructor
  · intro hleave
    cases hleave with
    | ask hreply hrest => exact ⟨_, hreply, _, hrest, rfl⟩
  · rintro ⟨reply, hreply, rest, hrest, rfl⟩
    exact .ask hreply hrest

theorem MayLeave.bind {first : Dialogue α} {next : α → Dialogue β} {before : Transcript α}
    {after : Transcript β} (hbefore : MayLeave world first before)
    (hafter : MayLeave world (next before.result) after) :
    MayLeave world (first.bind next) (before.append after) := by
  induction hbefore with
  | done result => exact hafter
  | say _ ih => exact .say (ih hafter)
  | ask hreply _ ih => exact mayLeave_ask_iff.mpr ⟨_, hreply, _, ih hafter, rfl⟩

theorem mayLeave_bind_iff {first : Dialogue α} {next : α → Dialogue β}
    {transcript : Transcript β} :
    MayLeave world (first.bind next) transcript ↔
      ∃ before after, MayLeave world first before ∧ MayLeave world (next before.result) after ∧
        transcript = before.append after := by
  refine ⟨mayLeave_bind, ?_⟩
  rintro ⟨before, after, hbefore, hafter, rfl⟩
  exact hbefore.bind hafter

theorem mayLeave_tellAll_iff {log : Log} {transcript : Transcript Unit} :
    MayLeave world (tellAll log) transcript ↔ transcript = ⟨[], log, ()⟩ := by
  induction log generalizing transcript with
  | nil => exact mayLeave_done_iff
  | cons entry log ih => simp [tellAll, mayLeave_say_iff, ih]

theorem MayLeave.toCalm {dialogue : Dialogue α} {transcript : Transcript α}
    (h : MayLeave world dialogue transcript) : MayLeave .calm dialogue transcript := by
  induction h with
  | done result => exact .done result
  | say _ ih => exact .say ih
  | ask _ _ ih => exact .ask trivial ih

theorem mayLeave_of_network {network : Network}
    (hnetwork : ∀ request, world.mayReply request (network request)) (dialogue : Dialogue α) :
    MayLeave world dialogue (dialogue.run network) := by
  induction dialogue with
  | done result => exact .done result
  | say entry next ih => exact .say ih
  | ask request next ih => exact .ask (hnetwork request) (ih (network request))

theorem mayReply_of_mayLeave {dialogue : Dialogue α} {transcript : Transcript α}
    (h : MayLeave world dialogue transcript) :
    ∀ call ∈ transcript.calls, world.mayReply call.1 call.2 := by
  induction h with
  | done result => exact List.forall_mem_nil _
  | say _ ih => exact ih
  | ask hreply _ ih => exact List.forall_mem_cons.mpr ⟨hreply, ih⟩

-- Where replies depend on the calls alone, so does what a dialogue leaves.
theorem mayLeave_replying {network : Network} {dialogue : Dialogue α} {transcript : Transcript α}
    (h : MayLeave (.replying network) dialogue transcript) :
    transcript = dialogue.run network := by
  induction h with
  | done result => rfl
  | say _ ih =>
      rw [ih]
      rfl
  | ask hreply _ ih =>
      rw [ih, hreply]
      rfl

end Dialogue

end IndexFleet
