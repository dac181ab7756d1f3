import IndexFleet.Proofs.Bulk.Distribution
import IndexFleet.Proofs.Execution.Log

namespace IndexFleet

def skipNote (row : String) : Entry := .warn s!"skipping invalid line: {Text.dropReturn row}"

-- What becomes of a chunk at its server when all calls are answered: it is accepted, and nothing
-- more is sent for it, or it is refused, and each of its rows is sent to the same server, in order.
-- Header and row lose a return at their ends. Rows that are refused again are told.
inductive Node.Accounts (node : Node) (header : String) (chunk : List String) (one : CommandRun) :
    Prop
  | accepted {reply : Reply} (haccepting : reply.isAccepting = true)
      (hcalls : one.transcript.calls = [(node.chunkUpload header chunk, reply)])
  | refused {reply : Reply} {answered : List (String × Reply)}
      (hrefusing : reply.isRefusing = true) (hrows : answered.map (·.1) = chunk)
      (hcomplete : ∀ row ∈ answered, row.2.isComplete = true)
      (hcalls : one.transcript.calls = (node.chunkUpload header chunk, reply) ::
        answered.map fun row =>
          (node.rowUpload (Text.dropReturn header) (Text.dropReturn row.1), row.2))
      (htold : ((answered.filter fun row => !row.2.isAccepting).map fun row =>
        skipNote row.1).Sublist one.transcript.log)

theorem exists_unmapped {α β γ : Type} {name : α → γ} {items : List α} {pairs : List (γ × β)}
    (hpairs : pairs.map (·.1) = items.map name) :
    ∃ originals : List (α × β), originals.map (·.1) = items ∧
      pairs = originals.map (Prod.map name id) := by
  induction items generalizing pairs with
  | nil => exact ⟨[], rfl, List.map_eq_nil_iff.mp hpairs⟩
  | cons item items ih =>
      obtain ⟨⟨first, value⟩, rest, rfl, hfirst, hrest⟩ := List.map_eq_cons_iff.mp hpairs
      obtain ⟨originals, rfl, rfl⟩ := ih hrest
      exact ⟨(item, value) :: originals, rfl, by simp [← hfirst]⟩

theorem skipNotes_sublist (client : Client) (header : String) (answered : List (String × Reply)) :
    ((answered.filter fun row => !row.2.isAccepting).map fun row => skipNote row.1).Sublist
      (answered.flatMap fun row => client.rowNotes header (Text.dropReturn row.1) row.2) := by
  induction answered with
  | nil => exact List.Sublist.refl []
  | cons row answered ih =>
      rw [List.flatMap_cons]
      cases haccepting : row.2.isAccepting with
      | true =>
          rw [List.filter_cons_of_neg (by simp [haccepting])]
          exact ih.trans (List.sublist_append_right _ _)
      | false =>
          have hnotes : [skipNote row.1].Sublist
              (client.rowNotes header (Text.dropReturn row.1) row.2) := by
            unfold Client.rowNotes
            cases houtcome : client.outcome
                (client.rowRequest header (Text.dropReturn row.1)) row.2 with
            | ok answer =>
                exact nomatch haccepting.symm.trans (Client.isAccepting_of_outcome houtcome)
            | error failure => exact List.sublist_cons_self _ _
          rw [List.filter_cons_of_pos (by simp [haccepting]), List.map_cons]
          exact hnotes.append ih

namespace ClusterCommand

variable {command : ClusterCommand} {tree : FileTree} {targets : Targets} {header : String}
  {rows : List String} {waves : List WaveRun} {run : Run}

theorem accounts_of_answering {one : CommandRun} {chunk : List String × Nat}
    (hheader : Text.IsRow header) (hrows : ∀ row ∈ chunk.1, Text.IsRow row)
    (hcommand : one.command = command.chunkCommand targets header chunk)
    (hleave : Dialogue.MayLeave .answering (one.command.dialogue tree) one.transcript) :
    (targets.turn chunk.2).Accounts header chunk.1 one := by
  rw [hcommand] at hleave
  have hparts := Source.rowsOneByOne_chunkText hheader hrows
  rcases Command.mayLeave_addData_answering rfl rfl hleave with
    ⟨reply, answer, haccepting, htranscript⟩ |
    ⟨reply, failure, dropped, hrefusing, hdropped, hcomplete, htranscript⟩
  · refine .accepted haccepting ?_
    rw [htranscript, Source.chunkText_eq]
    rfl
  · rw [hparts, Option.getD_some] at hdropped htranscript
    obtain ⟨answered, hanswered, rfl⟩ := exists_unmapped hdropped
    refine .refused hrefusing hanswered (fun row hrow => ?_) ?_ ?_
    · exact hcomplete (Prod.map Text.dropReturn id row) (List.mem_map_of_mem hrow)
    · rw [htranscript, Source.chunkText_eq, Client.answeredRows, List.map_map]
      rfl
    · rw [htranscript, Client.answeredRows, List.flatMap_map]
      exact ((skipNotes_sublist _ _ answered).cons _).cons _

-- What ends a command before a task fails is not that a server refuses something.
theorem ComesTo.isRejection_eq_false {waves : List (List Command)} {failure : Failure}
    (hcomes : command.ComesTo tree waves (.error failure)) : failure.isRejection = false := by
  cases hcomes with
  | @unresolved fault => cases fault <;> rfl
  | unmade => rfl
  | unlisted _ hpaths =>
      rcases FileTree.failure_of_inputFiles hpaths with rfl | ⟨reason, rfl⟩ <;> rfl
  | upTo _ _ _ hupTo =>
      have hsource := hupTo.isOfSource
      cases failure <;> first | rfl | cases hsource
  | part => rfl

theorem MayLeave.exists_upload (hkind : command.kind = .addDir) (hcalm : ¬world.mayPanic)
    (hrun : command.MayLeave tree world run) {wave : WaveRun} (hwave : wave ∈ run.waves)
    {one : CommandRun} (hone : one ∈ wave) :
    ∃ argument, one.command.kind = .addData ∧ one.command.argument = some argument ∧
      Dialogue.MayLeave world (one.command.dialogue tree) one.transcript := by
  obtain ⟨limit, hadds⟩ := isWaveOf_of_addDir hkind (hrun.planned hwave)
  have hmade : one.command ∈ wave.commands := List.mem_map_of_mem hone
  obtain ⟨argument, hargument⟩ := Option.isSome_iff_exists.mp (hadds.given one.command hmade rfl)
  have hleave := hrun.complete hcalm wave hwave one hone
  exact ⟨argument, hadds.kind_eq one.command hmade, hargument, hleave⟩

-- Taking in sources never fails because a server refuses something, whatever comes of the calls.
theorem isRejection_of_addDir (hkind : command.kind = .addDir)
    (hrun : command.MayLeave tree .calm run) {failure : Failure}
    (hfailure : run.result = .error failure) : failure.isRejection = false := by
  rcases hrun.comesTo_or_fails with ⟨hcomes, _⟩ | ⟨brought, hbrought, wave, hwave, one, hone, hcame⟩
  · exact (hfailure ▸ hcomes).isRejection_eq_false
  · have hsame : brought = failure := Except.error.inj (hbrought.symm.trans hfailure)
    obtain ⟨argument, hadds, hargument, hleave⟩ := hrun.exists_upload hkind id hwave hone
    rw [Command.dialogue_addData hadds hargument] at hleave
    have htransport := Client.isTransport_of_pushWithFallback hleave (hsame ▸ hcame)
    exact Failure.isRejection_of_isTransport htransport

-- Everything that addDir should do with its sources when all calls are answered: it succeeds, each
-- row is in one chunk, and all chunks are accounted for. What their tasks tell is in the log.
def AccountsAll (targets : Targets) (contents : List Table) (run : Run) : Prop :=
  run.result = .ok () ∧
    (∃ groups : List (List WaveRun), run.waves = groups.flatten ∧
      List.Forall₂ (fun content waves => ∃ chunks : List (List String),
        chunks.flatten = content.2 ∧
          List.Forall₂ (fun chunk one => ∃ node,
              targets.nodes[chunk.2 % targets.nodes.length]? = some node ∧
                node.Accounts content.1 chunk.1 one)
            chunks.zipIdx waves.flatten)
        contents groups) ∧
    ∀ entry, (run.waves.flatten.flatMap (·.transcript.log)).count entry ≤ run.log.count entry

theorem clean_of_answering (hkind : command.kind = .addDir)
    (hrun : command.MayLeave tree .answering run) : ∀ wave ∈ run.waves, wave.failures = [] := by
  intro wave hwave
  rw [WaveRun.failures_eq_nil_iff]
  intro one hone
  obtain ⟨argument, hadds, hargument, hleave⟩ := hrun.exists_upload hkind id hwave hone
  rcases Command.mayLeave_addData_answering hadds hargument hleave with
    ⟨reply, answer, _, htranscript⟩ | ⟨reply, failure, answered, _, _, _, htranscript⟩
  · exact ⟨answer, by rw [htranscript]⟩
  · exact ⟨"", by rw [htranscript]⟩

theorem accounts_chunks {runs : List CommandRun} {chunks : List (List String × Nat)}
    (hheader : Text.IsRow header) (hrows : ∀ chunk ∈ chunks, ∀ row ∈ chunk.1, Text.IsRow row)
    (hcommands : runs.map (·.command) = chunks.map (command.chunkCommand targets header))
    (hcomplete : ∀ one ∈ runs,
      Dialogue.MayLeave .answering (one.command.dialogue tree) one.transcript) :
    List.Forall₂ (fun chunk one => ∃ node,
        targets.nodes[chunk.2 % targets.nodes.length]? = some node ∧
          node.Accounts header chunk.1 one) chunks runs := by
  apply forall₂_of_map_eq hcommands
  intro chunk hchunk one hone hcommand
  refine ⟨_, targets.getElem?_mod chunk.2, ?_⟩
  exact accounts_of_answering hheader (hrows chunk hchunk) hcommand (hcomplete one hone)

theorem MayLeave.accountsAll {contents : List Table}
    (hrun : command.MayLeave tree .answering run)
    (hready : command.IsReady tree targets contents) : AccountsAll targets contents run := by
  obtain ⟨hcommands, hresult⟩ := hrun.follows.of_clean (clean_of_answering hready.kind hrun)
  obtain ⟨groups, hgroups, hparts⟩ := exists_groups (hcommands.trans hready.makes_plan.waves)
  refine ⟨hresult.trans hready.makes_plan.outcome, ⟨groups, hgroups, ?_⟩, hrun.count_log_le⟩
  have hcomplete : ∀ waves ∈ groups, ∀ one ∈ waves.flatten,
      Dialogue.MayLeave .answering (one.command.dialogue tree) one.transcript := by
    intro waves hwaves
    refine List.forall_mem_flatten.mpr fun wave hwave => ?_
    exact hrun.complete id wave (hgroups ▸ List.mem_flatten_of_mem hwaves hwave)
  have hboth := (List.forall₂_and_left groups contents).mpr ⟨hcomplete, hparts.flip⟩
  have hall := (List.forall₂_and_left contents groups).mpr ⟨hready.isRow, hboth.flip⟩
  refine hall.imp fun content waves ⟨⟨hheader, hrows⟩, hwaves, hsame⟩ => ?_
  have hflat := flatten_pieces hready.lines content.2
  refine ⟨_, hflat, accounts_chunks hheader (fun chunk hchunk row hrow => ?_)
    (commands_flatten hsame) hwaves⟩
  refine hrows row (hflat ▸ List.mem_flatten_of_mem ?_ hrow)
  exact List.fst_mem_of_mem_zipIdx hchunk

-- No row is lost when all calls are answered. Even when calls break off, taking in sources never
-- fails because a server refuses something.
theorem accountsAll_of_addDir (hkind : command.kind = .addDir) :
    (∀ targets contents, command.IsReady tree targets contents →
      (∀ run, command.MayLeave tree .answering run → AccountsAll targets contents run) ∧
        ∀ network : Network, (∀ request, (network request).isComplete = true) →
          AccountsAll targets contents (command.run tree network)) ∧
      ∀ run, command.MayLeave tree .calm run → ∀ failure, run.result = .error failure →
        failure.isRejection = false := by
  refine ⟨fun targets contents hready => ⟨fun run hrun => hrun.accountsAll hready, ?_⟩, ?_⟩
  · intro network hcomplete
    exact (mayLeave_run hcomplete command tree).accountsAll hready
  · exact fun run hrun failure hfailure => isRejection_of_addDir hkind hrun hfailure

def firstRowRefused : Network := fun request =>
  if request.body = "id\n1\n" ∨ request.body = "id\n1" then .answered 400 [] else .answered 200 []

theorem accountsAll_twoRows :
    AccountsAll .pair [("id", ["1", "2"])]
      ((forPair .addDir (some "rows")).run .twoRows firstRowRefused) := by
  refine ((accountsAll_of_addDir isReady_twoRows.kind).1 _ _ isReady_twoRows).2 _ fun request => ?_
  unfold firstRowRefused
  split <;> rfl

end ClusterCommand

end IndexFleet
