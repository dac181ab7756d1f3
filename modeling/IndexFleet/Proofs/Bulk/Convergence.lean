import IndexFleet.Proofs.Bulk.Deletion
import IndexFleet.Proofs.Bulk.Distribution
import IndexFleet.Proofs.Index
import IndexFleet.Proofs.Target
import Mathlib.Data.List.ProdSigma

namespace IndexFleet

namespace Table

def ids (table : Table) : List String := table.2.map Source.idOf

-- A table whose rows have ids of their own, below a column that names them. Its lines are read as
-- they stand.
structure IsKeyed (table : Table) (idColumn : String) : Prop where
  column : Source.idOf table.1 = idColumn
  given : ∀ row ∈ table.2, Source.idOf row ≠ ""
  distinct : table.ids.Nodup
  closed : ∀ line ∈ table.1 :: table.2, line.toList.getLast? ≠ some '\r'

theorem IsKeyed.idsOf_eq {table : Table} {idColumn : String} (h : table.IsKeyed idColumn) :
    Source.idsOf table.2 = table.ids := by
  refine List.filter_eq_self.mpr fun id hid => ?_
  obtain ⟨row, hrow, rfl⟩ := List.mem_map.mp hid
  simpa using h.given row hrow

end Table

-- The row with an id in the last one of tables that has it, and its place there.
inductive LastRow (id : String) : List Table → Nat → String → Prop
  | here {table : Table} {rest : List Table} {place : Nat} {row : String}
      (hrow : table.2[place]? = some row) (hid : Source.idOf row = id)
      (hlast : ∀ other ∈ rest, id ∉ other.ids) : LastRow id (table :: rest) place row
  | later {table : Table} {rest : List Table} {place : Nat} {row : String}
      (hrow : LastRow id rest place row) : LastRow id (table :: rest) place row

theorem exists_lastRow {tables : List Table} {id : String}
    (hid : ∃ table ∈ tables, id ∈ table.ids) : ∃ place row, LastRow id tables place row := by
  induction tables with
  | nil =>
      obtain ⟨_, htable, _⟩ := hid
      exact nomatch htable
  | cons first rest ih =>
      by_cases hmore : ∃ table ∈ rest, id ∈ table.ids
      · obtain ⟨place, row, hrow⟩ := ih hmore
        exact ⟨place, row, .later hrow⟩
      · obtain ⟨table, htable, hmem⟩ := hid
        rcases List.mem_cons.mp htable with rfl | hrest
        · obtain ⟨row, hrow, hsame⟩ := List.mem_map.mp hmem
          obtain ⟨place, hplace⟩ := List.mem_iff_getElem?.mp hrow
          refine ⟨place, row, .here hplace hsame fun other hother hhas => ?_⟩
          exact hmore ⟨other, hother, hhas⟩
        · exact absurd ⟨table, hrest, hmem⟩ hmore

namespace Index

-- What an update should do to the rows that servers hold: those of its tables take the places that
-- their last table gives them, with the targets in turn for so many rows each, and are at no other
-- target. All others stay.
structure Updated (before after : Index) (targets : Targets) (size : Nat) (tables : List Table) :
    Prop where
  found : ∀ id, (∃ table ∈ tables, id ∈ table.ids) → ∃ place row, LastRow id tables place row
  placed : ∀ id place row, LastRow id tables place row → ∃ node,
    targets.nodes[place / size % targets.nodes.length]? = some node ∧
      after node.address id = some row ∧
      ∀ other ∈ targets.nodes, other ≠ node → after other.address id = none
  kept : ∀ address id,
    (address ∉ targets.nodes.map (·.address) ∨ ∀ table ∈ tables, id ∉ table.ids) →
      after address id = before address id

variable {before between after last : Index} {targets : Targets} {size : Nat} {table : Table}
  {tables : List Table}

theorem updated_nil (index : Index) (targets : Targets) (size : Nat) :
    index.Updated index targets size [] where
  found _ hid := exists_lastRow hid
  placed _ _ _ hrow := nomatch hrow
  kept _ _ _ := rfl

-- The tables that come later have the last word.
theorem Updated.cons (hfirst : before.Updated between targets size [table])
    (hrest : between.Updated after targets size tables) :
    before.Updated after targets size (table :: tables) where
  found _ hid := exists_lastRow hid
  placed id place row hrow := by
    cases hrow with
    | here hplace hid hlast =>
        obtain ⟨node, hturn, hstored, helsewhere⟩ :=
          hfirst.placed id place row (.here hplace hid fun _ hother => nomatch hother)
        have hsame : ∀ address, after address id = between address id :=
          fun address => hrest.kept address id (.inr hlast)
        refine ⟨node, hturn, (hsame _).trans hstored, fun other hmem hother => ?_⟩
        exact (hsame _).trans (helsewhere other hmem hother)
    | later hmore => exact hrest.placed id place row hmore
  kept address id hother := by
    have hpart : ∀ part : List Table, part ⊆ table :: tables →
        address ∉ targets.nodes.map (·.address) ∨ ∀ other ∈ part, id ∉ other.ids :=
      fun part hpart => hother.imp_right fun hnone other hmem => hnone other (hpart hmem)
    have hsame := hfirst.kept address id (hpart [table] (by simp))
    exact (hrest.kept address id (hpart tables (List.subset_cons_self _ _))).trans hsame

-- Once an index is updated, the same update changes nothing.
theorem Updated.eq_of_updated (hfirst : before.Updated after targets size tables)
    (hsecond : after.Updated last targets size tables) : last = after := by
  funext address id
  by_cases hother : address ∉ targets.nodes.map (·.address) ∨ ∀ table ∈ tables, id ∉ table.ids
  · exact hsecond.kept address id hother
  · push Not at hother
    obtain ⟨haddress, hid⟩ := hother
    obtain ⟨node, hnode, rfl⟩ := List.mem_map.mp haddress
    obtain ⟨place, row, hrow⟩ := hfirst.found id hid
    obtain ⟨chosen, hturn, hstored, helsewhere⟩ := hfirst.placed id place row hrow
    obtain ⟨same, hsame, hagain, hnowhere⟩ := hsecond.placed id place row hrow
    obtain rfl : chosen = same := Option.some.inj (hturn.symm.trans hsame)
    by_cases hchosen : node = chosen
    · rw [hchosen, hstored, hagain]
    · rw [helsewhere node hnode hchosen, hnowhere node hnode hchosen]

end Index

namespace Targets

variable {targets : Targets} {size : Nat} {rows ids : List String} {write : Write}

def deletions (targets : Targets) (ids : List String) : List Write :=
  (ids.product targets.nodes).map fun place => ⟨place.2.address, place.1, none⟩

def chunkWrites (targets : Targets) (chunk : List String × Nat) : List Write :=
  chunk.1.map fun row => ⟨(targets.turn chunk.2).address, Source.idOf row, some row⟩

def insertions (targets : Targets) (size : Nat) (rows : List String) : List Write :=
  (pieces size rows).zipIdx.flatMap targets.chunkWrites

theorem mem_deletions_iff : write ∈ targets.deletions ids ↔
    write.id ∈ ids ∧ write.row = none ∧ write.address ∈ targets.nodes.map (·.address) := by
  obtain ⟨address, id, row⟩ := write
  simp only [deletions, List.mem_map, Prod.exists, List.pair_mem_product, Write.mk.injEq]
  constructor
  · rintro ⟨same, node, ⟨hid, hnode⟩, rfl, rfl, rfl⟩
    exact ⟨hid, rfl, node, hnode, rfl⟩
  · rintro ⟨hid, rfl, node, hnode, rfl⟩
    exact ⟨id, node, ⟨hid, hnode⟩, rfl, rfl, rfl⟩

theorem mem_insertions_iff (hsize : 0 < size) : write ∈ targets.insertions size rows ↔
    ∃ place row, rows[place]? = some row ∧
      write = ⟨(targets.turn (place / size)).address, Source.idOf row, some row⟩ := by
  simp only [insertions, chunkWrites, List.mem_flatMap, List.mem_map, Prod.exists]
  constructor
  · rintro ⟨chunk, index, hchunk, row, hrow, rfl⟩
    obtain ⟨place, rfl, hplace⟩ := (mem_zipIdx_pieces_iff hsize).mp ⟨chunk, hchunk, hrow⟩
    exact ⟨place, row, hplace, rfl⟩
  · rintro ⟨place, row, hplace, rfl⟩
    obtain ⟨chunk, hchunk, hrow⟩ := (mem_zipIdx_pieces_iff hsize).mpr ⟨place, rfl, hplace⟩
    exact ⟨chunk, place / size, hchunk, row, hrow, rfl⟩

theorem turn_mem (targets : Targets) (index : Nat) : targets.turn index ∈ targets.nodes :=
  List.get_mem _ _

theorem place_of_mem_insertions (hsize : 0 < size)
    (hwrite : write ∈ targets.insertions size rows) :
    write.address ∈ targets.nodes.map (·.address) ∧ write.id ∈ rows.map Source.idOf := by
  obtain ⟨place, row, hplace, rfl⟩ := (mem_insertions_iff hsize).mp hwrite
  exact ⟨List.mem_map_of_mem (targets.turn_mem _),
    List.mem_map_of_mem (List.mem_of_getElem? hplace)⟩

-- Where no two rows share an id, a row is stored once.
theorem eq_of_mem_insertions (hsize : 0 < size) (hdistinct : (rows.map Source.idOf).Nodup)
    {place : Nat} {row : String} (hplace : rows[place]? = some row)
    (hwrite : write ∈ targets.insertions size rows) (hid : Source.idOf row = write.id) :
    write = ⟨(targets.turn (place / size)).address, Source.idOf row, some row⟩ := by
  obtain ⟨other, same, hsame, rfl⟩ := (mem_insertions_iff hsize).mp hwrite
  have hids : (rows.map Source.idOf)[place]? = (rows.map Source.idOf)[other]? := by
    simp only [List.getElem?_map, hplace, hsame, Option.map_some]
    exact congrArg some hid
  have hlt : place < (rows.map Source.idOf).length := by
    rw [List.length_map]
    exact (List.getElem?_eq_some_iff.mp hplace).1
  obtain rfl := (List.getElem?_inj hlt hdistinct).mp hids
  obtain rfl := Option.some.inj (hplace.symm.trans hsame)
  rfl

end Targets

namespace Index

variable {before : Index} {targets : Targets} {size : Nat} {table : Table} {idColumn : String}

-- In whatever order the rows of a table are deleted everywhere and then stored, each at its place.
theorem updated_of_writes (hsize : 0 < size) (hdistinct : table.ids.Nodup)
    (haddresses : (targets.nodes.map (·.address)).Nodup) {deleted inserted : List Write}
    (hdeleted : deleted.Perm (targets.deletions table.ids))
    (hinserted : inserted.Perm (targets.insertions size table.2)) :
    before.Updated ((before.putAll deleted).putAll inserted) targets size [table] where
  found _ hid := exists_lastRow hid
  placed id place row hlast := by
    have hrow : table.2[place]? = some row ∧ Source.idOf row = id := by
      cases hlast with
      | here hrow hid _ => exact ⟨hrow, hid⟩
      | later hmore => exact nomatch hmore
    obtain ⟨hplace, rfl⟩ := hrow
    let stored : Write := ⟨(targets.turn (place / size)).address, Source.idOf row, some row⟩
    have hstored : stored ∈ inserted :=
      hinserted.mem_iff.mpr ((Targets.mem_insertions_iff hsize).mpr ⟨place, row, hplace, rfl⟩)
    have honly : ∀ write ∈ inserted, Source.idOf row = write.id → write = stored :=
      fun write hwrite hid =>
        Targets.eq_of_mem_insertions hsize hdistinct hplace (hinserted.mem_iff.mp hwrite) hid
    refine ⟨targets.turn (place / size), targets.getElem?_mod (place / size), ?_, ?_⟩
    · exact putAll_of_agree _ ⟨stored, hstored, rfl, rfl⟩ fun write hwrite _ hid =>
        congrArg Write.row (honly write hwrite hid)
    · intro node hnode hother
      have haddress : node.address ≠ (targets.turn (place / size)).address := fun hsame =>
        hother (List.inj_on_of_nodup_map haddresses hnode (targets.turn_mem _) hsame)
      rw [putAll_of_unwritten _ fun write hwrite hat hid =>
        haddress (hat.trans (congrArg Write.address (honly write hwrite hid)))]
      refine putAll_of_agree _ ⟨⟨node.address, Source.idOf row, none⟩, ?_, rfl, rfl⟩ ?_
      · refine hdeleted.mem_iff.mpr (Targets.mem_deletions_iff.mpr ⟨?_, rfl, ?_⟩)
        · exact List.mem_map_of_mem (List.mem_of_getElem? hplace)
        · exact List.mem_map_of_mem hnode
      · exact fun write hwrite _ _ =>
          (Targets.mem_deletions_iff.mp (hdeleted.mem_iff.mp hwrite)).2.1
  kept address id hother := by
    have hkept : ∀ write : Write, write.address ∈ targets.nodes.map (·.address) →
        write.id ∈ table.ids → address = write.address → id ≠ write.id := by
      intro write haddress hid hat hsame
      rcases hother with hnowhere | hnone
      · exact hnowhere (hat ▸ haddress)
      · exact List.forall_mem_singleton.mp hnone (hsame ▸ hid)
    rw [putAll_of_unwritten, putAll_of_unwritten]
    · intro write hwrite
      obtain ⟨hid, _, haddress⟩ := Targets.mem_deletions_iff.mp (hdeleted.mem_iff.mp hwrite)
      exact hkept write haddress hid
    · intro write hwrite
      obtain ⟨haddress, hid⟩ :=
        Targets.place_of_mem_insertions hsize (hinserted.mem_iff.mp hwrite)
      exact hkept write haddress hid

end Index

namespace ClusterCommand

variable {command : ClusterCommand} {tree : FileTree} {targets : Targets} {service : Service}
  {idColumn header : String} {rows ids : List String} {waves : List WaveRun}

theorem received_of_accepting (hcomplete : ∀ wave ∈ waves, ∀ one ∈ wave,
      Dialogue.MayLeave .accepting (one.command.dialogue tree) one.transcript) :
    waves.flatMap (·.received) = (waves.flatten.flatMap (·.transcript.calls)).map (·.1) := by
  induction waves with
  | nil => rfl
  | cons wave waves ih =>
      obtain ⟨hwave, hrest⟩ := List.forall_mem_cons.mp hcomplete
      have hreceived : wave.received = (wave.flatMap (·.transcript.calls)).map (·.1) := by
        rw [WaveRun.received, List.map_flatMap]
        refine List.flatMap_congr fun one hone => ?_
        have haccepted := Dialogue.mayReply_of_mayLeave (hwave one hone)
        rw [List.filter_eq_self.mpr fun call hcall =>
          Reply.wasReceived_of_isAccepting (haccepted call hcall)]
      rw [List.flatMap_cons, ih hrest, hreceived, List.flatten_cons, List.flatMap_append,
        List.map_append]

def deleteRequest (idColumn : String) (place : String × Node) : Request :=
  ⟨place.2.host, place.2.port, .post, Wire.updatePath, some Wire.xmlType,
    Wire.deleteBody s!"{idColumn}:{place.1}"⟩

-- What is written by the calls of waves that delete.
theorem writes_deletes (hservice : service.Understands idColumn)
    (hwaves : waves.map (·.commands) =
      ids.map fun id => command.forEach targets .delete (some s!"{idColumn}:{id}"))
    (hcomplete : ∀ wave ∈ waves, ∀ one ∈ wave,
      Dialogue.MayLeave .accepting (one.command.dialogue tree) one.transcript) :
    List.Forall₂ service.Writes (waves.flatMap (·.received))
      ((targets.deletions ids).map fun write => [write]) := by
  let make : String × Node → Command := fun place =>
    command.commandAt place.2 .delete (some s!"{idColumn}:{place.1}")
  have hcommands : waves.flatten.map (·.command) = (ids.product targets.nodes).map make := by
    have hproduct : (ids.product targets.nodes).map make =
        (ids.map fun id => command.forEach targets .delete (some s!"{idColumn}:{id}")).flatten := by
      simp only [List.product, List.map_flatMap, ← List.flatMap_def, forEach, List.map_map]
      rfl
    rw [hproduct, ← hwaves, List.map_flatten]
    rfl
  have hrequests : (waves.flatten.flatMap (·.transcript.calls)).map (·.1) =
      (ids.product targets.nodes).map (deleteRequest idColumn) := by
    refine requests_of_single hcommands fun one hone place hcommand => ?_
    obtain ⟨_, reply, hcalls, _⟩ := deletesAt_of_mayLeave hcommand
      (List.forall_mem_flatten.mpr hcomplete one hone)
    rw [hcalls]
    rfl
  rw [received_of_accepting hcomplete, hrequests, Targets.deletions, List.map_map,
    List.forall₂_map_left_iff, List.forall₂_map_right_iff, List.forall₂_same]
  exact fun place _ => hservice.writes_delete ⟨place.2.host, place.2.port, 0⟩ place.1

theorem writes_uploads (hservice : service.Understands idColumn)
    (hlines : 0 < command.settings.maxLinesPerChunk) (hcolumn : Source.idOf header = idColumn)
    (hwhole : ∀ line ∈ header :: rows, Text.IsWhole line)
    (hgiven : ∀ row ∈ rows, Source.idOf row ≠ "")
    (hwaves : waves.map (·.commands) = command.sourceWaves targets header rows)
    (hcomplete : ∀ wave ∈ waves, ∀ one ∈ wave,
      Dialogue.MayLeave .accepting (one.command.dialogue tree) one.transcript) :
    List.Forall₂ service.Writes (waves.flatMap (·.received))
      ((pieces command.settings.maxLinesPerChunk rows).zipIdx.map targets.chunkWrites) := by
  obtain ⟨hheader, hrows⟩ := List.forall_mem_cons.mp hwhole
  rw [received_of_accepting hcomplete, requests_of_waves hwaves hcomplete,
    List.forall₂_map_left_iff,
    List.forall₂_map_right_iff, List.forall₂_same]
  rintro ⟨chunk, index⟩ hchunk
  have hpart : ∀ row ∈ chunk, row ∈ rows := by
    intro row hrow
    obtain ⟨place, _, hplace⟩ := (mem_zipIdx_pieces_iff hlines).mp ⟨chunk, hchunk, hrow⟩
    exact List.mem_of_getElem? hplace
  exact hservice.writes_rows ⟨(targets.turn index).host, (targets.turn index).port, 0⟩ hcolumn
    (List.forall_mem_cons.mpr ⟨hheader, fun row hrow => hrows row (hpart row hrow)⟩)
    fun row hrow => hgiven row (hpart row hrow)

-- An updateDir whose targets are different servers, and whose sources can be taken in and have
-- rows with ids.
structure CanUpdate (command : ClusterCommand) (tree : FileTree) (targets : Targets)
    (idColumn : String) (tables : List Table) : Prop where
  kind : command.kind = .updateDir
  database : ∃ nodes told, Database.ofNodes nodes = .ok (command.database, told)
  resolves : command.database.targets command.target = .ok targets.nodes
  distinct : targets.nodes.Nodup
  lines : 0 < command.settings.maxLinesPerChunk
  contents : ∃ paths, (tree.inputFiles (command.argument.getD "")).1 = .ok paths ∧
    List.Forall₂ (fun path table => tree.Holds path table.1 table.2) paths tables
  keyed : ∀ table ∈ tables, table.IsKeyed idColumn

variable {table : Table} {tables : List Table}

theorem CanUpdate.makes_plan (hcan : command.CanUpdate tree targets idColumn tables) :
    (command.plan tree).Makes (tables.flatMap (command.updateWaves targets)) := by
  obtain ⟨paths, hpaths, hall⟩ := hcan.contents
  have htakes : List.Forall₂ (command.Takes tree) paths tables :=
    hall.imp fun _ _ => takes_of_holds
  have hmakes := makes_plan_of_bulk (.inr (.inl hcan.kind)) hcan.resolves hpaths htakes
  have hwaves : command.tableWaves targets = command.updateWaves targets :=
    funext fun table => by simp [tableWaves, hcan.kind, ClusterCommandKind.stages, stageWaves,
      updateWaves]
  rwa [hwaves] at hmakes

theorem CanUpdate.of_accepting (hcan : command.CanUpdate tree targets idColumn tables) {run : Run}
    (hrun : command.MayLeave tree .accepting run) :
    run.commands = tables.flatMap (command.updateWaves targets) ∧ run.result = .ok () :=
  IsBulk.of_accepting (.inr (.inl hcan.kind)) hcan.makes_plan hrun

-- Whatever the order in which the calls for a table arrive.
theorem updated_of_arrival (hservice : service.Understands idColumn)
    (hlines : 0 < command.settings.maxLinesPerChunk) (hkeyed : table.IsKeyed idColumn)
    (hrows : ∀ line ∈ table.1 :: table.2, Text.IsRow line)
    (haddresses : (targets.nodes.map (·.address)).Nodup)
    (hwaves : waves.map (·.commands) = command.updateWaves targets table)
    (hcomplete : ∀ wave ∈ waves, ∀ one ∈ wave,
      Dialogue.MayLeave .accepting (one.command.dialogue tree) one.transcript)
    {requests : List Request} (harrive : MayArrive waves requests) (before : Index) :
    before.Updated (before.replay service requests) targets command.settings.maxLinesPerChunk
      [table] := by
  have hwhole : ∀ line ∈ table.1 :: table.2, Text.IsWhole line :=
    fun line hline => ⟨hrows line hline, hkeyed.closed line hline⟩
  rw [updateWaves, deleteWaves, hkeyed.column, hkeyed.idsOf_eq] at hwaves
  obtain ⟨deletes, uploads, rfl, hdeletes, huploads⟩ := List.map_eq_append_iff.mp hwaves
  obtain ⟨hcompleted, hcomplete⟩ := List.forall_mem_append.mp hcomplete
  obtain ⟨first, second, rfl, hfirst, hsecond⟩ := harrive.split
  obtain ⟨deleted, hdeleted, hreplay⟩ :=
    Service.exists_writes (writes_deletes hservice hdeletes hcompleted) hfirst.perm
  obtain ⟨inserted, hinserted, hagain⟩ := Service.exists_writes
    (writes_uploads hservice hlines hkeyed.column hwhole hkeyed.given huploads hcomplete)
    hsecond.perm
  rw [Index.replay_append, hreplay, hagain]
  rw [← List.flatMap_def, List.flatMap_singleton'] at hdeleted
  rw [← List.flatMap_def] at hinserted
  exact Index.updated_of_writes hlines hkeyed.distinct haddresses hdeleted hinserted

theorem updated_of_groups (hservice : service.Understands idColumn)
    (hlines : 0 < command.settings.maxLinesPerChunk)
    (haddresses : (targets.nodes.map (·.address)).Nodup)
    (hkeyed : ∀ table ∈ tables, table.IsKeyed idColumn)
    (hrows : ∀ table ∈ tables, Text.IsRow table.1 ∧ ∀ row ∈ table.2, Text.IsRow row)
    {groups : List (List WaveRun)}
    (hwaves : List.Forall₂ (fun table waves =>
      waves.map (·.commands) = command.updateWaves targets table) tables groups)
    (hcomplete : ∀ wave ∈ groups.flatten, ∀ one ∈ wave,
      Dialogue.MayLeave .accepting (one.command.dialogue tree) one.transcript)
    {requests : List Request} (harrive : MayArrive groups.flatten requests) (before : Index) :
    before.Updated (before.replay service requests) targets command.settings.maxLinesPerChunk
      tables := by
  induction hwaves generalizing before requests with
  | nil =>
      cases harrive
      exact Index.updated_nil before targets _
  | @cons table waves tables groups hfirst _ ih =>
      obtain ⟨hkey, hkeys⟩ := List.forall_mem_cons.mp hkeyed
      obtain ⟨hrow, hmore⟩ := List.forall_mem_cons.mp hrows
      obtain ⟨hnow, hlater⟩ := List.forall_mem_append.mp hcomplete
      obtain ⟨early, late, rfl, hearly, hlate⟩ := harrive.split
      rw [Index.replay_append]
      exact (updated_of_arrival hservice hlines hkey (List.forall_mem_cons.mpr hrow) haddresses
        hfirst hnow hearly before).cons (ih hkeys hmore hlater hlate _)

-- Everything that updateDir should do: it succeeds, what servers hold is updated, whatever they
-- held before, and doing it again changes nothing.
structure UpdatesIndex (command : ClusterCommand) (tree : FileTree) (service : Service)
    (targets : Targets) (tables : List Table) (run : Run) : Prop where
  succeeds : run.result = .ok ()
  updates : ∀ (before : Index) requests, MayArrive run.waves requests →
    before.Updated (before.replay service requests) targets command.settings.maxLinesPerChunk tables
  repeats : ∀ again, command.MayLeave tree .accepting again →
    ∀ (before : Index) requests more, MayArrive run.waves requests → MayArrive again.waves more →
      (before.replay service requests).replay service more = before.replay service requests

theorem CanUpdate.updated (hcan : command.CanUpdate tree targets idColumn tables)
    (hservice : service.Understands idColumn) {run : Run}
    (hrun : command.MayLeave tree .accepting run) (before : Index) {requests : List Request}
    (harrive : MayArrive run.waves requests) :
    before.Updated (before.replay service requests) targets command.settings.maxLinesPerChunk
      tables := by
  obtain ⟨_, _, hnodes⟩ := hcan.database
  have haddresses := Database.nodup_addresses_of_targets hnodes hcan.resolves hcan.distinct
  obtain ⟨_, _, hcontents⟩ := hcan.contents
  obtain ⟨groups, hgroups, hwaves⟩ := exists_groups (hcan.of_accepting hrun).1
  exact updated_of_groups hservice hcan.lines haddresses hcan.keyed (isRow_of_holds hcontents)
    hwaves (hgroups ▸ hrun.complete id) (hgroups ▸ harrive) before

-- An update takes every row to its place and leaves all else alone, and it can be repeated.
theorem updatesIndex_of_canUpdate (hcan : command.CanUpdate tree targets idColumn tables)
    (hservice : service.Understands idColumn) :
    (∀ run, command.MayLeave tree .accepting run →
        command.UpdatesIndex tree service targets tables run) ∧
      ∀ network : Network, (∀ request, (network request).isAccepting = true) →
        command.UpdatesIndex tree service targets tables (command.run tree network) := by
  have hall : ∀ run, command.MayLeave tree .accepting run →
      command.UpdatesIndex tree service targets tables run := by
    intro run hrun
    refine ⟨(hcan.of_accepting hrun).2, ?_, ?_⟩
    · exact fun before requests harrive => hcan.updated hservice hrun before harrive
    · intro again hagain before requests more hrequests hmore
      exact (hcan.updated hservice hrun before hrequests).eq_of_updated
        (hcan.updated hservice hagain _ hmore)
  exact ⟨hall, fun network haccepting => hall _ (mayLeave_run haccepting command tree)⟩

theorem canUpdate_namedRows :
    (forPair .updateDir (some "rows")).CanUpdate (.single ⟨FileTree.namedRows, none⟩) .pair "id"
      [("id\tname", ["1\tx", "2\ty"])] where
  kind := rfl
  database := ⟨Targets.pair.nodes, _, rfl⟩
  resolves := targets_forPair .updateDir (some "rows")
  distinct := by decide
  lines := by decide
  contents := ⟨["rows"], congrArg Prod.fst (FileTree.inputFiles_single _),
    .cons FileTree.holds_namedRows .nil⟩
  keyed := List.forall_mem_singleton.mpr ⟨by decide, by decide, by decide, by decide⟩

theorem updatesIndex_namedRows :
    (forPair .updateDir (some "rows")).UpdatesIndex (.single ⟨FileTree.namedRows, none⟩)
      (.plain "id") .pair [("id\tname", ["1\tx", "2\ty"])]
      ((forPair .updateDir (some "rows")).run (.single ⟨FileTree.namedRows, none⟩)
        fun _ => .answered 200 []) :=
  (updatesIndex_of_canUpdate canUpdate_namedRows (Service.understands_plain "id")).2 _ fun _ => rfl

end ClusterCommand

end IndexFleet
