import IndexFleet.CommandLine.Run
import IndexFleet.Proofs.Selection

namespace IndexFleet

open CommandLine (Action Invocation databaseOf linesText settingsOf)

theorem CommandLine.withDatabase_of_ok {tree : FileTree} {conf : String} {database : Database}
    {log : Log} (hdatabase : databaseOf tree conf = .ok (database, log))
    (next : Database → Log → Outcome) : withDatabase tree conf next = next database log := by
  unfold withDatabase
  rw [hdatabase]

namespace Database

variable {database : Database} {nodes : List Node} {node : Node} {told : Log} {host : String}
  {port : Option Port} {fault : SelectionFault}

-- A host that is known has a node, and only a host with nodes is known.
theorem HasFiled.onHost?_cases (hfiled : HasFiled database nodes) (host : String) :
    (database.onHost? host = none ∧ nodes.filter (·.host = host) = []) ∨
      ∃ first rest, database.onHost? host = some (first :: rest) ∧
        nodes.filter (·.host = host) = first :: rest := by
  have hhere := hfiled.hosts.getD_lookup host
  cases hfound : database.byHost.lookup host with
  | none =>
      rw [hfound] at hhere
      exact .inl ⟨hfound, hhere.symm⟩
  | some found =>
      obtain ⟨hsame, hsome⟩ := (hfiled.hosts.lookup host found).mp hfound
      obtain ⟨first, rest, rfl⟩ := List.exists_cons_of_ne_nil hsome
      exact .inr ⟨first, rest, hfound, hsame.symm⟩

theorem HasFiled.selectByHost_none_eq_ok_iff (hfiled : HasFiled database nodes) :
    (database.selectByHost host none).1 = .ok node ↔ nodes.filter (·.host = host) = [node] := by
  unfold selectByHost
  obtain ⟨hfound, hhere⟩ | ⟨first, rest, hfound, hhere⟩ := hfiled.onHost?_cases host
  · simp [hfound, hhere]
  · rw [hfound, hhere]
    cases rest with
    | nil => simp
    | cons second rest => simp

theorem filter_host_eq_singleton_iff (hnodup : nodes.Nodup) :
    nodes.filter (·.host = host) = [node] ↔
      node ∈ nodes ∧ node.host = host ∧ ∀ other ∈ nodes, other.host = host → other = node := by
  have hapart : (nodes.filter (·.host = host)).Nodup := hnodup.filter _
  rw [← List.perm_singleton, List.perm_ext_iff_of_nodup hapart (List.nodup_singleton node)]
  simp only [List.mem_filter, decide_eq_true_iff, List.mem_singleton]
  constructor
  · intro honly
    obtain ⟨hnode, hhost⟩ := (honly node).mpr rfl
    exact ⟨hnode, hhost, fun other hother hsame => (honly other).mp ⟨hother, hsame⟩⟩
  · rintro ⟨hnode, hhost, honly⟩ other
    exact ⟨fun hother => honly other hother.1 hother.2, fun hsame => hsame ▸ ⟨hnode, hhost⟩⟩

theorem IsCluster.selects_iff (hcluster : IsCluster nodes) :
    (selectByHost (indexed nodes) host port).1 = .ok node ↔ node ∈ nodes ∧ node.host = host ∧
      (port = some node.port ∨
        port = none ∧ ∀ other ∈ nodes, other.host = host → other = node) := by
  cases port with
  | some port => simp [hcluster.selectByHost_eq_ok_iff, eq_comm (a := port)]
  | none =>
      have hnodup : nodes.Nodup := hcluster.nodup_addresses.of_map
      rw [hcluster.hasFiled.selectByHost_none_eq_ok_iff, filter_host_eq_singleton_iff hnodup]
      simp

-- A port is asked for where there are several nodes, and everything else that fails finds none.
theorem HasFiled.failure_of_selectByHost (hfiled : HasFiled database nodes)
    (hfault : (database.selectByHost host port).1 = .error fault) :
    if port = none ∧ 2 ≤ (nodes.filter (·.host = host)).length then
      ∃ reason, fault.failure = .argument reason
    else ∃ reason, fault.failure = .targetNotFound reason := by
  unfold selectByHost at hfault
  obtain ⟨hfound, hhere⟩ | ⟨first, rest, hfound, hhere⟩ := hfiled.onHost?_cases host
  · rw [hfound] at hfault
    cases hfault
    rw [hhere, if_neg (by simp)]
    exact ⟨_, rfl⟩
  · rw [hfound] at hfault
    rw [hhere]
    cases port with
    | none =>
        cases rest with
        | nil => cases hfault
        | cons second rest =>
            cases hfault
            rw [if_pos (by simp)]
            exact ⟨_, rfl⟩
    | some port =>
        rw [if_neg (by simp)]
        cases rest with
        | nil =>
            dsimp only at hfault
            split at hfault
            · cases hfault
            · cases hfault
              exact ⟨_, rfl⟩
        | cons second rest =>
            dsimp only at hfault
            split at hfault
            · cases hfault
            · cases hfault
              exact ⟨_, rfl⟩

theorem HasFiled.selectByHost_of_crowded (hfiled : HasFiled database nodes)
    (hseveral : 2 ≤ (nodes.filter (·.host = host)).length) :
    (database.selectByHost host none).1 =
      .error (.portNeeded host (nodes.filter (·.host = host)).length) := by
  unfold selectByHost
  obtain ⟨hfound, hhere⟩ | ⟨first, rest, hfound, hhere⟩ := hfiled.onHost?_cases host
  · simp [hhere] at hseveral
  · rw [hfound, hhere]
    cases rest with
    | nil => simp [hhere] at hseveral
    | cons second rest => rfl

theorem HasFiled.fails_as_argument_iff (hfiled : HasFiled database nodes) :
    (∃ fault reason, (database.selectByHost host port).1 = .error fault ∧
      fault.failure = .argument reason) ↔
      port = none ∧ 2 ≤ (nodes.filter (·.host = host)).length := by
  constructor
  · rintro ⟨fault, reason, hfault, hargument⟩
    by_contra hplain
    have hkind := hfiled.failure_of_selectByHost hfault
    rw [if_neg hplain] at hkind
    obtain ⟨other, hmissing⟩ := hkind
    cases hargument.symm.trans hmissing
  · rintro ⟨rfl, hseveral⟩
    exact ⟨_, _, hfiled.selectByHost_of_crowded hseveral, rfl⟩

theorem IsCluster.selectByName_eq_ok (hcluster : IsCluster nodes) (hnode : node ∈ nodes)
    {key : String} (hkey : key ∈ node.keys) :
    selectByName (indexed nodes) key = .ok node := by
  rw [selectByName, hcluster.find?_eq_some_iff.mpr ⟨hnode, hkey⟩]

-- The ways to ask for the properties of a node that do not depend on what else is on its host.
def inspections (conf : String) (node : Node) : List Action :=
  [.propertiesOfName conf node.name, .propertiesOfName conf node.address,
    .propertiesOfHost conf node.host (some node.port)]

-- How the nodes of a database are selected to be looked into: by their host and port, by their
-- host alone where it has no other node, and by each of their keys.
structure SelectsNodes (database : Database) (nodes : List Node) : Prop where
  host : ∀ host port node, (database.selectByHost host port).1 = .ok node ↔
    node ∈ nodes ∧ node.host = host ∧ (port = some node.port ∨
      port = none ∧ ∀ other ∈ nodes, other.host = host → other = node)
  argument : ∀ host port,
    (∃ fault reason, (database.selectByHost host port).1 = .error fault ∧
      fault.failure = .argument reason) ↔
      port = none ∧ 2 ≤ (nodes.filter (·.host = host)).length
  missing : ∀ host port fault, (database.selectByHost host port).1 = .error fault →
    ¬(port = none ∧ 2 ≤ (nodes.filter (·.host = host)).length) →
      ∃ reason, fault.failure = .targetNotFound reason
  agreeing : ∀ node ∈ nodes, database.selectByName node.name = .ok node ∧
    database.selectByName node.address = .ok node ∧
    (database.selectByHost node.host (some node.port)).1 = .ok node
  alone : ∀ node ∈ nodes, (database.selectByHost node.host none).1 = .ok node ↔
    ∀ other ∈ nodes, other.host = node.host → other = node
  printed : ∀ node ∈ nodes, ∀ tree conf log, databaseOf tree conf = .ok (database, log) →
    ∀ invocation settings, settingsOf tree invocation = .ok settings → ∀ network,
      ∀ action ∈ inspections conf node, ∃ told,
        Invocation.run { invocation with action } tree network =
          ⟨0, linesText (database.properties node), none, log ++ told, []⟩

variable {tree : FileTree} {conf : String} {log : Log} {invocation : Invocation}
  {settings : Settings} {action : Action}

theorem IsCluster.exists_run (hcluster : IsCluster nodes) (hnode : node ∈ nodes)
    (hdatabase : databaseOf tree conf = .ok (indexed nodes, log))
    (hsettings : settingsOf tree invocation = .ok settings) (network : Network)
    (haction : action ∈ inspections conf node) :
    ∃ told, Invocation.run { invocation with action } tree network =
      ⟨0, linesText (properties (indexed nodes) node), none, log ++ told, []⟩ := by
  have hsame : settingsOf tree { invocation with action } = .ok settings := hsettings
  have hnamed : ∀ key ∈ node.keys, selectByName (indexed nodes) key = .ok node := fun _ hkey =>
    hcluster.selectByName_eq_ok hnode hkey
  have hplaced := hcluster.selectByHost_eq_ok_iff.mpr ⟨hnode, rfl, rfl⟩
  simp only [inspections, List.mem_cons, List.not_mem_nil, or_false] at haction
  simp only [Invocation.run, hsame]
  rcases haction with rfl | rfl | rfl
  · refine ⟨[], ?_⟩
    simp only [CommandLine.withDatabase_of_ok hdatabase, hnamed _ node.name_mem_keys,
      CommandLine.showProperties, CommandLine.succeed, List.append_nil]
  · refine ⟨[], ?_⟩
    simp only [CommandLine.withDatabase_of_ok hdatabase, hnamed _ node.address_mem_keys,
      CommandLine.showProperties, CommandLine.succeed, List.append_nil]
  · refine ⟨(selectByHost (indexed nodes) node.host (some node.port)).2, ?_⟩
    simp only [CommandLine.withDatabase_of_ok hdatabase, hplaced, CommandLine.showProperties,
      CommandLine.succeed]

theorem IsCluster.selectsNodes (hcluster : IsCluster nodes) :
    SelectsNodes (indexed nodes) nodes where
  host _ _ _ := hcluster.selects_iff
  argument _ _ := hcluster.hasFiled.fails_as_argument_iff
  missing host port fault hfault hplain := by
    have hkind := hcluster.hasFiled.failure_of_selectByHost hfault
    rwa [if_neg hplain] at hkind
  agreeing node hnode :=
    ⟨hcluster.selectByName_eq_ok hnode node.name_mem_keys,
      hcluster.selectByName_eq_ok hnode node.address_mem_keys,
      hcluster.selectByHost_eq_ok_iff.mpr ⟨hnode, rfl, rfl⟩⟩
  alone node hnode := by
    rw [hcluster.selects_iff]
    simp [hnode]
  printed _ hnode _ _ _ hdatabase _ _ hsettings network _ haction :=
    hcluster.exists_run hnode hdatabase hsettings network haction

theorem selectsNodes_of_ofNodes (hnodes : ofNodes nodes = .ok (database, told)) :
    SelectsNodes database nodes := by
  obtain ⟨hcluster, rfl⟩ := ofNodes_eq_ok_iff.mp ⟨told, hnodes⟩
  exact hcluster.selectsNodes

theorem selectsNodes_twoGroups :
    ∃ database told, ofNodes twoGroups = .ok (database, told) ∧
      SelectsNodes database twoGroups :=
  ⟨_, _, rfl, selectsNodes_of_ofNodes rfl⟩

end Database

end IndexFleet
