import IndexFleet.Command.Run
import IndexFleet.Proofs.World

namespace IndexFleet

-- A dialogue whose calls all go to one server, whatever it hears.
def Dialogue.Addresses {α : Type} (host : String) (port : Port) : Dialogue α → Prop
  | done _ => True
  | say _ next => next.Addresses host port
  | ask request next => (request.host = host ∧ request.port = port) ∧
      ∀ reply, (next reply).Addresses host port

namespace Dialogue

variable {α β : Type} {host : String} {port : Port} {world : World}

theorem Addresses.bind {first : Dialogue α} {next : α → Dialogue β}
    (hfirst : first.Addresses host port) (hnext : ∀ result, (next result).Addresses host port) :
    (first.bind next).Addresses host port := by
  induction first with
  | done result => exact hnext result
  | say entry rest ih => exact ih hfirst
  | ask request rest ih => exact ⟨hfirst.1, fun reply => ih reply (hfirst.2 reply)⟩

theorem addresses_tellAll (log : Log) : (tellAll log).Addresses host port := by
  induction log with
  | nil => trivial
  | cons entry log ih => exact ih

theorem Addresses.of_mayLeave {dialogue : Dialogue α} {transcript : Transcript α}
    (h : dialogue.Addresses host port) (hleave : MayLeave world dialogue transcript) :
    ∀ call ∈ transcript.calls, call.1.host = host ∧ call.1.port = port := by
  induction hleave with
  | done result => exact fun _ hcall => nomatch hcall
  | say _ ih => exact ih h
  | ask _ _ ih => exact List.forall_mem_cons.mpr ⟨h.1, ih (h.2 _)⟩

end Dialogue

namespace Client

variable {client : Client}

theorem addresses_send {request : Request} (hhost : request.host = client.host)
    (hport : request.port = client.port) :
    (client.send request).Addresses client.host client.port :=
  ⟨⟨hhost, hport⟩, fun _ => trivial⟩

theorem addresses_pushOneByOne (header : String) (rows : List String) :
    (client.pushOneByOne header rows).Addresses client.host client.port := by
  induction rows with
  | nil => trivial
  | cons row rows ih =>
      refine (addresses_send rfl rfl).bind fun sent => ?_
      cases sent with
      | ok answer => exact ih
      | error failure =>
          cases htransport : failure.isTransport with
          | true =>
              simp only [htransport, if_true]
              trivial
          | false =>
              simp only [htransport, Bool.false_eq_true, if_false]
              exact ih

theorem addresses_pushWithFallback (source body : String) :
    (client.pushWithFallback source body).Addresses client.host client.port := by
  refine (addresses_send rfl rfl).bind fun sent => ?_
  cases sent with
  | ok answer => trivial
  | error failure =>
      cases hrejection : failure.isRejection with
      | false =>
          simp only [hrejection, Bool.false_eq_true, if_false]
          trivial
      | true =>
          simp only [hrejection, if_true]
          cases rowsOneByOne body with
          | none => trivial
          | some parts => exact (addresses_pushOneByOne parts.1 parts.2).bind fun _ => trivial

end Client

namespace Command

variable {command : Command} {tree : FileTree} {path : String}

theorem dialogue_addFile_of_error {fault : FileFault} (hkind : command.kind = .addFile)
    (hargument : command.argument = some path) (hread : tree.read path = .error fault) :
    command.dialogue tree =
      .say (.info s!"adding tsv file: {path}") (.done (.error (.io fault.message))) := by
  simp only [dialogue, hkind, withArgument, hargument, hread]
  rfl

theorem dialogue_addFile_of_ok {bytes : Text.Bytes} (hkind : command.kind = .addFile)
    (hargument : command.argument = some path) (hread : tree.read path = .ok bytes) :
    command.dialogue tree =
      .say (.info s!"adding tsv file: {path}")
        ((Dialogue.tellAll (Text.damageNotes bytes path)).bind fun _ =>
          command.client.pushWithFallback path (Text.Utf8.decode bytes)) := by
  simp only [dialogue, hkind, withArgument, hargument, hread]
  rfl

theorem addresses_addFile (hkind : command.kind = .addFile)
    (hargument : command.argument = some path) :
    (command.dialogue tree).Addresses command.client.host command.client.port := by
  cases hread : tree.read path with
  | error fault =>
      rw [dialogue_addFile_of_error hkind hargument hread]
      trivial
  | ok bytes =>
      rw [dialogue_addFile_of_ok hkind hargument hread]
      exact (Dialogue.addresses_tellAll _).bind fun _ =>
        Client.addresses_pushWithFallback path (Text.Utf8.decode bytes)

theorem addresses_dialogue (command : Command) (tree : FileTree) :
    (command.dialogue tree).Addresses command.client.host command.client.port := by
  obtain ⟨kind, argument, client⟩ := command
  have hargument : ∀ {next : String → Dialogue (Except Failure String)},
      (∀ argument, (next argument).Addresses client.host client.port) →
      (withArgument ⟨kind, argument, client⟩ next).Addresses client.host client.port := by
    intro next hnext
    cases argument with
    | none => trivial
    | some argument => exact hnext argument
  cases kind with
  | addFile =>
      cases argument with
      | none => trivial
      | some path => exact addresses_addFile rfl rfl
  | addData => exact hargument fun rows => Client.addresses_pushWithFallback "chunk" rows
  | delete => exact hargument fun query => Client.addresses_send rfl rfl
  | deleteAll | commit | softCommit | optimize | ping => exact Client.addresses_send rfl rfl
  | updateViaStreamFile =>
      refine hargument fun path => ?_
      change Dialogue.Addresses _ _ (client.streamFile tree.home path)
      unfold Client.streamFile
      cases AbsolutePath.ofPath tree.home (Text.utf8 path) with
      | ok absolute => exact Client.addresses_send rfl rfl
      | error fault => trivial

end Command

end IndexFleet
