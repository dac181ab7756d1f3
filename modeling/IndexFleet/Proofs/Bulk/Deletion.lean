import IndexFleet.Proofs.Bulk.Cut
import IndexFleet.Proofs.Execution.Refinement

namespace IndexFleet

variable {tree : FileTree} {world : World}

namespace Source

def passNote (idColumn row : String) : Entry := .warn s!"skipping row without {idColumn}: {row}"

def isPassNote (entry : Entry) : Bool :=
  entry.level == .warn && "skipping row without ".toList.isPrefixOf entry.message.toList

theorem isPassNote_passNote (idColumn row : String) :
    isPassNote (passNote idColumn row) = true := by
  simp [isPassNote, passNote, Entry.warn, toString]

theorem isPassNote_info (message : String) : isPassNote (.info message) = false := rfl

theorem IsDamageNote.isPassNote {entry : Entry} (h : IsDamageNote entry) :
    isPassNote entry = false := by
  obtain ⟨name, text, rfl⟩ := h
  simp [Source.isPassNote, Entry.warn, toString, List.isPrefixOf]

end Source

-- What a target is asked for a query, once. It fails if and only if it does not accept.
structure ClusterCommand.DeletesAt (command : ClusterCommand) (query : String) (node : Node)
    (one : CommandRun) : Prop where
  made : one.command = command.commandAt node .delete (some query)
  asked : ∃ reply, one.transcript.calls = [(⟨node.host, node.port, .post, Wire.updatePath,
      some Wire.xmlType, Wire.deleteBody query⟩, reply)] ∧
    (one.failure? = none ↔ reply.isAccepting = true)

-- How the rows below a header are deleted by their ids: one after the other, and each on every
-- target, up to the first one that fails somewhere. Those seen before the end are a beginning of
-- the rows.
structure ClusterCommand.DeletesRows (command : ClusterCommand) (targets : Targets)
    (idColumn : String) (rows seen : List String) (course : Course) : Prop where
  begins : seen <+: rows
  waves : List.Forall₂ (fun id wave => List.Forall₂ (command.DeletesAt s!"{idColumn}:{id}")
    targets.nodes wave) (Source.idsOf seen) course.waves
  clean : ∀ wave ∈ course.waves.dropLast, wave.failures = []
  passed : course.told.filter Source.isPassNote =
    (seen.filter fun row => (Source.idOf row).isEmpty).map (Source.passNote idColumn)
  whole : course.result = .ok () → seen = rows ∧ ∀ wave ∈ course.waves, wave.failures = []
  cut : ∀ failure, course.result = .error failure → ∃ earlier row last,
    seen = earlier ++ [row] ∧ (Source.idOf row).isEmpty = false ∧
      course.waves.getLast? = some last ∧ failure ∈ last.failures

namespace ClusterCommand

variable {command : ClusterCommand} {targets : Targets} {idColumn query : String} {course : Course}

theorem deletesAt_of_mayLeave {node : Node} {one : CommandRun}
    (hcommand : one.command = command.commandAt node .delete (some query))
    (hleave : Dialogue.MayLeave world (one.command.dialogue tree) one.transcript) :
    command.DeletesAt query node one := by
  refine ⟨hcommand, ?_⟩
  rw [hcommand, Command.dialogue_delete rfl rfl] at hleave
  obtain ⟨reply, _, htranscript⟩ := Client.mayLeave_send hleave
  refine ⟨reply, by rw [htranscript]; rfl, ?_⟩
  rw [CommandRun.failure?_eq_none_iff, htranscript]
  exact Client.outcome_eq_ok_iff

theorem deletesAt_of_wave {notes : Log} {runs : WaveRun}
    (hruns : Wave.MayLeave ⟨notes, command.forEach targets .delete (some query)⟩ tree world runs) :
    List.Forall₂ (command.DeletesAt query) targets.nodes runs := by
  have hcommands : runs.map (·.command) =
      targets.nodes.map (command.commandAt · .delete (some query)) := hruns.commands
  exact forall₂_of_map_eq hcommands fun node _ one hone hcommand =>
    deletesAt_of_mayLeave hcommand (hruns.complete one hone)

theorem deletesRows_nil : command.DeletesRows targets idColumn [] [] ⟨[], [], .ok ()⟩ where
  begins := List.prefix_rfl
  waves := .nil
  clean _ hwave := nomatch hwave
  passed := rfl
  whole _ := ⟨rfl, fun _ hwave => nomatch hwave⟩
  cut _ hfailure := nomatch hfailure

variable {rows seen : List String} {row : String} {told : Log}

theorem DeletesRows.pass (h : command.DeletesRows targets idColumn rows seen course)
    (hid : (Source.idOf row).isEmpty = true)
    (htold : told.filter Source.isPassNote = [Source.passNote idColumn row]) :
    command.DeletesRows targets idColumn (row :: rows) (row :: seen) (course.after [] told) where
  begins := List.cons_prefix_cons.mpr ⟨rfl, h.begins⟩
  waves := by
    rw [Source.idsOf_cons_of_unnamed seen hid]
    exact h.waves
  clean := h.clean
  passed := by
    simp only [Course.after, List.filter_append, htold, h.passed, hid, List.filter_cons_of_pos,
      List.map_cons, List.singleton_append]
  whole hok := by
    obtain ⟨rfl, hclean⟩ := h.whole hok
    exact ⟨rfl, hclean⟩
  cut failure hfailure := by
    obtain ⟨earlier, last, wave, rfl, hlast⟩ := h.cut failure hfailure
    exact ⟨row :: earlier, last, wave, rfl, hlast⟩

theorem DeletesRows.delete (h : command.DeletesRows targets idColumn rows seen course)
    (hid : (Source.idOf row).isEmpty = false) {runs : WaveRun}
    (hruns : List.Forall₂ (command.DeletesAt s!"{idColumn}:{Source.idOf row}") targets.nodes runs)
    (hclean : runs.failures = []) (htold : told.filter Source.isPassNote = []) :
    command.DeletesRows targets idColumn (row :: rows) (row :: seen)
      (course.after [runs] told) where
  begins := List.cons_prefix_cons.mpr ⟨rfl, h.begins⟩
  waves := by
    rw [Source.idsOf_cons_of_named seen hid]
    exact .cons hruns h.waves
  clean wave hwave := by
    have hsplit : wave = runs ∨ wave ∈ course.waves.dropLast := by
      cases hwaves : course.waves with
      | nil => simp [Course.after, hwaves] at hwave
      | cons first rest => simpa [Course.after, hwaves] using hwave
    rcases hsplit with rfl | hmore
    · exact hclean
    · exact h.clean wave hmore
  passed := by
    rw [Course.after, List.filter_append, htold, h.passed, List.filter_cons_of_neg (by simp [hid])]
    rfl
  whole hok := by
    obtain ⟨rfl, hmore⟩ := h.whole hok
    exact ⟨rfl, List.forall_mem_cons.mpr ⟨hclean, hmore⟩⟩
  cut failure hfailure := by
    obtain ⟨earlier, last, wave, rfl, hlast, hwave, hmem⟩ := h.cut failure hfailure
    refine ⟨row :: earlier, last, wave, rfl, hlast, ?_, hmem⟩
    have hlonger := List.getLast?_append_of_ne_nil [runs]
      (List.ne_nil_of_mem (List.mem_of_getLast? hwave))
    exact hlonger.trans hwave

theorem deletesRows_giveUp (rows : List String) (hid : (Source.idOf row).isEmpty = false)
    {runs : WaveRun} {failure : Failure}
    (hruns : List.Forall₂ (command.DeletesAt s!"{idColumn}:{Source.idOf row}") targets.nodes runs)
    (hfailure : failure ∈ runs.failures) (htold : told.filter Source.isPassNote = []) :
    command.DeletesRows targets idColumn (row :: rows) [row] ⟨[runs], told, .error failure⟩ where
  begins := List.cons_prefix_cons.mpr ⟨rfl, List.nil_prefix⟩
  waves := by
    rw [Source.idsOf_cons_of_named [] hid]
    exact .cons hruns .nil
  clean _ hwave := nomatch hwave
  passed := by
    rw [htold, List.filter_cons_of_neg (by simp [hid])]
    rfl
  whole hok := nomatch hok
  cut same hsame := by
    obtain rfl := Except.error.inj hsame
    exact ⟨[], row, runs, rfl, hid, rfl, hfailure⟩

theorem DeletesRows.of_same {same : Course}
    (h : command.DeletesRows targets idColumn rows seen course) (hwaves : same.waves = course.waves)
    (hresult : same.result = course.result)
    (htold : same.told.filter Source.isPassNote = course.told.filter Source.isPassNote) :
    command.DeletesRows targets idColumn rows seen same := by
  obtain ⟨waves, told, result⟩ := same
  obtain rfl := hwaves
  obtain rfl := hresult
  exact ⟨h.begins, h.waves, h.clean, htold.trans h.passed, h.whole, h.cut⟩

theorem filter_damageNotes {told : Log} (htold : ∀ entry ∈ told, Source.IsDamageNote entry) :
    told.filter Source.isPassNote = [] := by
  rw [List.filter_eq_nil_iff]
  intro entry hentry
  simp [(htold entry hentry).isPassNote]

theorem filter_of_warnings {told : Log} (htold : ∀ entry ∈ told, entry.level = .warn) :
    told.filter (·.level == .info) = [] := by
  rw [List.filter_eq_nil_iff]
  intro entry hentry
  simp [htold entry hentry]

-- What is told on the way are warnings.
theorem deletesRows_of_mayTake {rows : List (String × Log)}
    (hnotes : ∀ row ∈ rows, ∀ entry ∈ row.2, Source.IsDamageNote entry)
    (h : (Plan.sequence (rows.map (command.rowPlan targets idColumn))).MayTake tree world
      course) :
    (∃ seen, command.DeletesRows targets idColumn (rows.map (·.1)) seen course) ∧
      ∀ entry ∈ course.told, entry.level = .warn := by
  induction rows generalizing course with
  | nil =>
      cases h with
      | done => exact ⟨⟨[], deletesRows_nil⟩, List.forall_mem_nil _⟩
  | cons row rows ih =>
      obtain ⟨hrow, hrest⟩ := List.forall_mem_cons.mp hnotes
      have hwarns : ∀ entry ∈ row.2, entry.level = .warn :=
        fun entry hentry => (hrow entry hentry).level
      have hsilent := filter_damageNotes hrow
      rw [List.map_cons, Plan.sequence_cons] at h
      cases hid : (Source.idOf row.1).isEmpty with
      | true =>
          rw [rowPlan_of_unnamed hid, Plan.mayTake_notes_andThen] at h
          obtain ⟨after, hafter, rfl⟩ := h
          obtain ⟨⟨seen, hseen⟩, htold⟩ := ih hrest hafter
          refine ⟨⟨row.1 :: seen, hseen.pass hid ?_⟩, ?_⟩
          · rw [List.filter_append, hsilent, List.nil_append]
            exact List.filter_cons_of_pos (Source.isPassNote_passNote idColumn row.1)
          · simp only [Course.after, List.forall_mem_append, List.forall_mem_singleton]
            exact ⟨⟨hwarns, rfl⟩, htold⟩
      | false =>
          rw [rowPlan_of_named hid, Plan.mayTake_andThen] at h
          rcases h with ⟨failure, hresult, hfirst⟩ | ⟨before, after, hbefore, hok, hafter, rfl⟩
          · obtain ⟨runs, hruns, ⟨_, rfl⟩ | ⟨same, hfailure, rfl⟩⟩ :=
              Plan.mayTake_wave_iff.mp hfirst
            · cases hresult
            · have hwave := deletesAt_of_wave hruns
              exact ⟨⟨[row.1], deletesRows_giveUp _ hid hwave hfailure hsilent⟩, hwarns⟩
          · obtain ⟨⟨seen, hseen⟩, htold⟩ := ih hrest hafter
            obtain ⟨runs, hruns, ⟨hclean, rfl⟩ | ⟨_, _, rfl⟩⟩ := Plan.mayTake_wave_iff.mp hbefore
            · have hwave := deletesAt_of_wave hruns
              refine ⟨⟨row.1 :: seen, hseen.delete hid hwave hclean hsilent⟩, ?_⟩
              simp only [Course.after, List.forall_mem_append]
              exact ⟨hwarns, htold⟩
            · cases hok

-- The tasks that delete tell nothing but that they failed.
theorem unsaid_of_batchDelete {p : Entry → Bool} (hkind : command.kind = .batchDelete)
    (hfailed : ∀ message, p (.error message) = false)
    (hignored : p (.warn "sync group decremented below zero, ignoring") = false) :
    (command.plan tree).Unsaid tree p := by
  refine Plan.unsaid_of_dialogues (fun commands hcommands made hmade => ?_) hfailed hignored
  obtain ⟨count, hwave⟩ := isWave_of_mem_plan hcommands
  rw [IsWave, hkind] at hwave
  obtain ⟨argument, hargument⟩ := Option.isSome_iff_exists.mp (hwave.given made hmade rfl)
  rw [Command.dialogue_delete (hwave.kind_eq made hmade) hargument]
  exact fun _ => trivial

-- Everything that batchDelete should do with a source, and what it reports in the end.
def DeletesAll (command : ClusterCommand) (targets : Targets) (path header : String)
    (rows : List String) (run : Run) : Prop :=
  (∃ seen, command.DeletesRows targets (Source.idOf header) rows seen
    ⟨run.waves, run.log, run.result⟩) ∧
    (run.result = .ok () → run.log.filter (·.level == .info) = [
      .info s!"{command.title} resolved to {targets.count} node(s)",
      .info s!"deleting rows of {path} by {Source.idOf header}",
      .info s!"{path}: {(Source.idsOf rows).length} row(s) deleted",
      .info s!"{command.title} succeeded"])

theorem plan_of_batchDelete {path : String} {source : Source} {told : Log}
    (hkind : command.kind = .batchDelete)
    (htargets : command.database.targets command.target = .ok targets.nodes)
    (hpath : (tree.inputFiles (command.argument.getD "")).1 = .ok [path])
    (hsource : Source.ofFile tree path = (.ok source, told)) (hwhole : source.fault = none) :
    command.plan tree =
      (Plan.notes ([.info s!"{command.title} resolved to {targets.count} node(s)"] ++ told ++
        [.info s!"deleting rows of {path} by {Source.idOf source.header}"])).andThen
        ((Plan.sequence (source.rows.map
          (command.rowPlan targets (Source.idOf source.header)))).andThen
          (.notes (source.tail ++
            [.info s!"{path}: {(Source.idsOf source.texts).length} row(s) deleted"]))) := by
  have hfile : command.deleteFile tree targets path =
      (Plan.notes told).andThen (command.deleteSource targets path source) := by
    rw [deleteFile, Plan.attempt_of_ok (by rw [hsource]), hsource]
  have hend : rowsEnd path source (0 + (Source.idsOf source.texts).length) =
      .notes (source.tail ++
        [.info s!"{path}: {(Source.idsOf source.texts).length} row(s) deleted"]) := by
    rw [rowsEnd, Source.failureAt_of_whole hwhole, Nat.zero_add]
  rw [plan_of_targets command tree targets htargets, planFor, hkind]
  simp only [forSources]
  rw [Plan.attempt_of_ok hpath, FileTree.told_of_inputFiles hpath, List.map_singleton,
    Plan.sequence_cons, Plan.sequence_nil, Plan.andThen_done, hfile, deleteSource, deleteRows_eq,
    hend, source.idColumn_eq]
  simp only [Plan.notes_append, Plan.andThen_assoc]
  rfl

theorem MayLeave.deletesAll {path header : String} {rows : List String} {run : Run}
    (hcalm : ¬world.mayPanic) (hrun : command.MayLeave tree world run)
    (hkind : command.kind = .batchDelete)
    (htargets : command.database.targets command.target = .ok targets.nodes)
    (hpath : (tree.inputFiles (command.argument.getD "")).1 = .ok [path])
    (hholds : tree.Holds path header rows) : command.DeletesAll targets path header rows run := by
  obtain ⟨source, hfound, rfl, rfl, hwhole⟩ := hholds.ofFile
  have hsource : Source.ofFile tree path = (.ok source, (Source.ofFile tree path).2) :=
    Prod.ext hfound rfl
  obtain ⟨htold, hrows, htail⟩ := Source.isDamageNote_ofFile hsource
  obtain ⟨course, htakes, hwaves, hresult, hheard⟩ := hrun.takes hcalm
  have hpass := hheard _ (unsaid_of_batchDelete hkind (fun _ => rfl) rfl :
    (command.plan tree).Unsaid tree Source.isPassNote)
  have hinfo := hheard _ (unsaid_of_batchDelete hkind (fun _ => rfl) rfl :
    (command.plan tree).Unsaid tree (·.level == .info))
  rw [plan_of_batchDelete hkind htargets hpath hsource hwhole, Plan.mayTake_notes_andThen] at htakes
  obtain ⟨after, hafter, rfl⟩ := htakes
  have hstart := filter_damageNotes htold
  have hverdict : Source.isPassNote (command.verdict run.result) = false := by
    cases run.result <;> rfl
  rcases Plan.mayTake_andThen.mp hafter with
    ⟨failure, hfailure, hcourse⟩ | ⟨before, last, hcourse, hok, hlast, rfl⟩
  · obtain ⟨⟨seen, hseen⟩, _⟩ := deletesRows_of_mayTake hrows hcourse
    refine ⟨⟨seen, hseen.of_same hwaves hresult ?_⟩, fun hok => ?_⟩
    · simp only [hpass, Course.after, List.filter_append, List.filter_cons, List.filter_nil, hstart,
        Source.isPassNote_info, hverdict]
      simp
    · cases hok.symm.trans (hresult.trans hfailure)
  · obtain ⟨⟨seen, hseen⟩, hwarns⟩ := deletesRows_of_mayTake hrows hcourse
    obtain rfl := Plan.mayTake_notes_iff.mp hlast
    refine ⟨⟨seen, hseen.of_same ?_ (hresult.trans hok.symm) ?_⟩, fun hok => ?_⟩
    · rw [hwaves]
      exact List.append_nil _
    · simp only [hpass, Course.after, List.filter_append, List.filter_cons, List.filter_nil, hstart,
        filter_damageNotes htail, Source.isPassNote_info, hverdict]
      simp
    · have hquiet := filter_of_warnings fun entry hentry => (htold entry hentry).level
      have hend := filter_of_warnings fun entry hentry => (htail entry hentry).level
      have hinfos : ∀ message, ((Entry.info message).level == .info) = true := fun _ => rfl
      simp only [hinfo, hok, Course.after, verdict, List.filter_append, List.filter_cons,
        List.filter_nil, hquiet, hend, filter_of_warnings hwarns, hinfos]
      rfl

-- Whatever comes of the calls, rows with an id are deleted one by one and everywhere, up to the
-- first failure.
theorem deletesAll_of_batchDelete {path header : String} {rows : List String}
    (hkind : command.kind = .batchDelete)
    (htargets : command.database.targets command.target = .ok targets.nodes)
    (hpath : (tree.inputFiles (command.argument.getD "")).1 = .ok [path])
    (hholds : tree.Holds path header rows) :
    (∀ run, command.MayLeave tree .calm run → command.DeletesAll targets path header rows run) ∧
      ∀ network : Network,
        command.DeletesAll targets path header rows (command.run tree network) := by
  have hall : ∀ run, command.MayLeave tree .calm run →
      command.DeletesAll targets path header rows run :=
    fun run hrun => hrun.deletesAll id hkind htargets hpath hholds
  exact ⟨hall, fun network => hall _ (mayLeave_run (fun _ => trivial) command tree)⟩

def lastDeletionRefused : Network := fun request =>
  if request.host = "b" ∧ request.body = Wire.deleteBody "id:2" then .answered 500 []
  else .answered 200 []

theorem deletesAll_unnamedRow :
    (forPair .batchDelete (some "rows")).DeletesAll .pair "rows" "id\tname"
      ["1\tx", "\ty", "2\tz"]
      ((forPair .batchDelete (some "rows")).run (.single ⟨FileTree.unnamedRow, none⟩)
        lastDeletionRefused) := by
  let command := forPair .batchDelete (some "rows")
  let tree : FileTree := .single ⟨FileTree.unnamedRow, none⟩
  have htargets : command.database.targets command.target = .ok Targets.pair.nodes :=
    targets_forPair _ _
  have hpath : (tree.inputFiles (command.argument.getD "")).1 = .ok ["rows"] :=
    congrArg Prod.fst (FileTree.inputFiles_single _)
  exact (deletesAll_of_batchDelete rfl htargets hpath FileTree.holds_unnamedRow).2
    lastDeletionRefused

end ClusterCommand

end IndexFleet
