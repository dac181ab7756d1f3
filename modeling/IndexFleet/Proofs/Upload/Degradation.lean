import IndexFleet.Proofs.Addressing
import IndexFleet.Proofs.Bulk.Sources
import IndexFleet.Proofs.Upload

namespace IndexFleet

open Dialogue (MayLeave)

namespace Command

variable {tree : FileTree} {client : Client} {body path : String} {bytes : Text.Bytes}
  {transcript : Dialogue.Transcript (Except Failure String)}

theorem mayLeave_addData_iff :
    MayLeave .calm (dialogue tree ⟨.addData, some body, client⟩) transcript ↔
      client.Degrades "chunk" body transcript := by
  rw [dialogue_addData rfl rfl]
  exact Client.mayLeave_pushWithFallback_iff

theorem mayLeave_addFile_iff (hread : tree.read path = .ok bytes) :
    MayLeave .calm (dialogue tree ⟨.addFile, some path, client⟩) transcript ↔
      ∃ rest, client.Degrades path (Text.Utf8.decode bytes) rest ∧
        transcript = ⟨rest.calls,
          .info s!"adding tsv file: {path}" :: (Text.damageNotes bytes path ++ rest.log),
          rest.result⟩ := by
  rw [dialogue_addFile_of_ok rfl rfl hread]
  simp [Dialogue.mayLeave_say_iff, Dialogue.mayLeave_bind_iff, Dialogue.mayLeave_tellAll_iff,
    Client.mayLeave_pushWithFallback_iff, Dialogue.Transcript.append]

-- Rows that are given and rows of a file are uploaded as a whole, and one by one if the whole is
-- refused. A failure is always one of the transport.
theorem upload_degrades (client : Client) (tree : FileTree) :
    (∀ body transcript, MayLeave .calm (dialogue tree ⟨.addData, some body, client⟩) transcript ↔
        client.Degrades "chunk" body transcript) ∧
      (∀ path bytes, tree.read path = .ok bytes → ∀ transcript,
        MayLeave .calm (dialogue tree ⟨.addFile, some path, client⟩) transcript ↔
          ∃ rest, client.Degrades path (Text.Utf8.decode bytes) rest ∧
            transcript = ⟨rest.calls,
              .info s!"adding tsv file: {path}" :: (Text.damageNotes bytes path ++ rest.log),
              rest.result⟩) ∧
      (∀ source body transcript failure, client.Degrades source body transcript →
        transcript.result = .error failure →
          failure.isTransport = true ∧ failure.isRejection = false) ∧
      ∀ (command : Command) (network : Network),
        MayLeave .calm (command.dialogue tree) ((command.dialogue tree).run network) ∧
          ∀ call ∈ ((command.dialogue tree).run network).calls, call.2 = network call.1 := by
  refine ⟨fun _ _ => mayLeave_addData_iff, fun _ _ hread _ => mayLeave_addFile_iff hread,
    fun _ _ _ _ hdegrades hfailure => ?_, fun command network => ⟨?_, ?_⟩⟩
  · have htransport := Client.isTransport_of_degrades hdegrades hfailure
    exact ⟨htransport, Failure.isRejection_of_isTransport htransport⟩
  · exact Dialogue.mayLeave_of_network (fun _ => trivial) _
  · have hrun : MayLeave (.replying network) (command.dialogue tree)
        ((command.dialogue tree).run network) :=
      Dialogue.mayLeave_of_network (fun _ => rfl) _
    exact Dialogue.mayReply_of_mayLeave hrun

-- A server that refuses everything and is gone at the last row.
def goneAtLastRow : Network := fun request =>
  if request.body = "id\n2" then .dropped else .answered 400 []

theorem upload_degrades_twoRows :
    FileTree.twoRows.read "rows" = .ok [105, 100, 10, 49, 10, 50, 10] ∧
      ∃ rest : Dialogue.Transcript (Except Failure String),
        (⟨"a", 1, 500⟩ : Client).Degrades "rows" "id\n1\n2\n" rest ∧
        rest.calls.map (·.1.body) = ["id\n1\n2\n", "id\n1", "id\n2"] ∧
        ∃ failure, rest.result = .error failure ∧ failure.isTransport = true := by
  have hread := FileTree.read_twoRows
  obtain ⟨-, hfile, htransport, hrun⟩ := upload_degrades ⟨"a", 1, 500⟩ .twoRows
  obtain ⟨rest, hrest, hleft⟩ :=
    (hfile "rows" _ hread _).mp (hrun ⟨.addFile, some "rows", ⟨"a", 1, 500⟩⟩ goneAtLastRow).1
  rw [dialogue_addFile_of_ok rfl rfl hread] at hleft
  have hcalls := congrArg (fun transcript => transcript.calls.map (·.1.body)) hleft
  have hresult := congrArg (·.result.toOption) hleft
  refine ⟨hread, rest, hrest, hcalls.symm, ?_⟩
  cases hfailure : rest.result with
  | ok answer =>
      rw [hfailure] at hresult
      cases hresult
  | error failure => exact ⟨failure, rfl, (htransport _ _ _ _ hrest hfailure).1⟩

end Command

end IndexFleet
