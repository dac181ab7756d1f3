import IndexFleet.Instance
import IndexFleet.Proofs.Database.Tables
import Mathlib.Data.List.Perm.Basic

namespace IndexFleet

namespace Database

variable {database : Database} {nodes : List Node} {node : Node}

-- Every node says where it is and whom it replicates, and there are both of the roles that a
-- cluster cannot be without.
structure IsComplete (nodes : List Node) : Prop where
  placed : ∀ node ∈ nodes, node.host ≠ "" ∧ node.port ≠ 0
  master : ∃ node ∈ nodes, node.roles.has .master
  slave : ∃ node ∈ nodes, node.roles.has .slave
  replicated : ∀ node ∈ nodes, ∀ master ∈ node.replicationMaster,
    ∃ other ∈ nodes, master ∈ other.keys

-- And no name or address stands for two of them.
structure IsCluster (nodes : List Node) : Prop extends IsComplete nodes where
  apart : nodes.Pairwise (·.keys.Disjoint ·.keys)

theorem HasFiled.isSome_find?_iff (hfiled : HasFiled database nodes) {key : String} :
    (database.find? key).isSome ↔ ∃ node ∈ nodes, key ∈ node.keys := by
  rw [find?, Option.isSome_map, hfiled.names, List.find?_isSome, List.exists_mem_zipIdx']
  simp [List.exists_mem_iff_getElem]

theorem HasFiled.checkReplication_eq_ok_iff (hfiled : HasFiled database nodes)
    {checked : List Node} :
    database.checkReplication checked = .ok () ↔
      ∀ node ∈ checked, ∀ master ∈ node.replicationMaster,
        ∃ other ∈ nodes, master ∈ other.keys := by
  simp only [← hfiled.isSome_find?_iff]
  induction checked with
  | nil => simp [checkReplication]
  | cons node checked ih =>
      rw [List.forall_mem_cons, checkReplication]
      cases node.replicationMaster with
      | none => simpa using ih
      | some master => by_cases hmaster : (database.find? master).isSome <;> simp [hmaster, ih]

theorem HasFiled.validate_eq_ok_iff (hfiled : HasFiled database nodes)
    (hnodes : database.nodes = nodes) :
    database.validate = .ok () ↔
      (∃ node ∈ nodes, node.roles.has .master) ∧ (∃ node ∈ nodes, node.roles.has .slave) ∧
        ∀ node ∈ nodes, ∀ master ∈ node.replicationMaster,
          ∃ other ∈ nodes, master ∈ other.keys := by
  have hmaster : ¬database.masters.isEmpty ↔ ∃ node ∈ nodes, node.roles.has .master := by
    simp [hfiled.masters]
  have hslave : ¬database.slaves.isEmpty ↔ ∃ node ∈ nodes, node.roles.has .slave := by
    simp [hfiled.slaves]
  rw [validate, ite_error_eq_ok_iff, ite_error_eq_ok_iff, hmaster, hslave, hnodes,
    hfiled.checkReplication_eq_ok_iff]

-- A list of nodes becomes a database exactly if it is a cluster, and its tables are then filled.
theorem ofNodes_eq_ok_iff :
    (∃ told, ofNodes nodes = .ok (database, told)) ↔
      IsCluster nodes ∧ database = indexed nodes := by
  have hvalid (hapart : nodes.Pairwise (·.keys.Disjoint ·.keys)) :=
    (hasFiled_indexed hapart).validate_eq_ok_iff (nodes_indexed nodes)
  simp only [ofNodes, bind_eq_ok_iff, foldlM_addNode_eq_ok_iff]
  constructor
  · rintro ⟨told, made, ⟨⟨hplaced, hapart⟩, rfl⟩, _, hok, hmade⟩
    obtain ⟨hmaster, hslave, hreplicated⟩ := (hvalid hapart).mp hok
    exact ⟨⟨⟨hplaced, hmaster, hslave, hreplicated⟩, hapart⟩,
      (congrArg Prod.fst (Except.ok.inj hmade)).symm⟩
  · rintro ⟨hcluster, rfl⟩
    have hok := (hvalid hcluster.apart).mpr
      ⟨hcluster.master, hcluster.slave, hcluster.replicated⟩
    exact ⟨_, _, ⟨⟨hcluster.placed, hcluster.apart⟩, rfl⟩, _, hok, rfl⟩

theorem IsCluster.hasFiled (hcluster : IsCluster nodes) : HasFiled (indexed nodes) nodes :=
  hasFiled_indexed hcluster.apart

theorem IsCluster.nodup_addresses (hcluster : IsCluster nodes) :
    (nodes.map (·.address)).Nodup := by
  refine List.pairwise_map.mpr (hcluster.apart.imp fun {node other} hdisjoint hsame => ?_)
  exact hdisjoint node.address_mem_keys (hsame ▸ other.address_mem_keys)

-- No two nodes share a key, so whoever has it is found.
theorem IsCluster.filter_keys (hcluster : IsCluster nodes) (key : String) :
    nodes.filter (fun node => key ∈ node.keys) = ((indexed nodes).find? key).toList := by
  have hfind : (indexed nodes).find? key = nodes.find? fun node => key ∈ node.keys := by
    rw [find?, hcluster.hasFiled.names]
    conv_rhs => rw [← List.zipIdx_map_fst 0 nodes, List.find?_map]
    rfl
  rw [hfind]
  have hapart := hcluster.apart
  clear hfind hcluster
  induction nodes with
  | nil => rfl
  | cons node nodes ih =>
      obtain ⟨hnode, hnodes⟩ := List.pairwise_cons.mp hapart
      by_cases hkey : key ∈ node.keys
      · have hnone : nodes.filter (fun node => key ∈ node.keys) = [] := by
          refine List.filter_eq_nil_iff.mpr fun other hother => ?_
          simpa using hnode other hother hkey
        simp [hkey, hnone]
      · simp [hkey, ih hnodes]

theorem IsCluster.find?_eq_some_iff (hcluster : IsCluster nodes) {key : String} :
    (indexed nodes).find? key = some node ↔ node ∈ nodes ∧ key ∈ node.keys := by
  rw [← Option.mem_toList, ← hcluster.filter_keys, List.mem_filter, decide_eq_true_iff]

-- What is looked up in a database, told by the nodes that it is made of.
structure IsIndexOf (database : Database) (nodes : List Node) : Prop where
  all : database.nodes = nodes
  find : ∀ key, nodes.filter (fun node => key ∈ node.keys) = (database.find? key).toList
  host : ∀ host found, database.onHost? host = some found ↔
    found = nodes.filter (·.host = host) ∧ found ≠ []
  masters : database.masters = nodes.filter (·.roles.has .master)
  slaves : database.slaves = nodes.filter (·.roles.has .slave)
  backups : database.backups = nodes.filter (·.roles.has .backup)
  groups : ∀ group, group ∈ database.slaveGroups ↔
    ∃ node ∈ nodes, node.roles.has .slave ∧ node.group = group
  sorted : database.slaveGroups.Pairwise (· < ·)
  group : ∀ group found, database.slavesInGroup? group = some found ↔
    found = nodes.filter (fun node => node.roles.has .slave ∧ node.group = group) ∧ found ≠ []
  partition : (database.slaveGroups.flatMap database.slavesInGroup).Perm database.slaves
  independent : ∀ node ∈ nodes, node.replicationMaster = none →
    database.properties node = [s!"INSTANCE_TYPE={node.instanceRole.name}"]
  replica : ∀ node ∈ nodes, ∀ key, node.replicationMaster = some key →
    ∃ master ∈ nodes, key ∈ master.keys ∧
      database.properties node = [s!"INSTANCE_TYPE={node.instanceRole.name}",
        s!"REPLICATION_MASTER_NODE={master.host}",
        s!"REPLICATION_MASTER_PORT={master.port.toNat}"]

theorem HasFiled.slavesInGroup_eq (hfiled : HasFiled database nodes) (group : String) :
    database.slavesInGroup group = database.slaves.filter (·.group = group) := by
  rw [slavesInGroup, slavesInGroup?, hfiled.groups.getD_lookup, hfiled.slaves]

theorem HasFiled.mem_slaveGroups (hfiled : HasFiled database nodes) {group : String} :
    group ∈ database.slaveGroups ↔ ∃ node ∈ database.slaves, node.group = group := by
  rw [slaveGroups, hfiled.groups.mem_keys_iff, hfiled.slaves]

theorem HasFiled.partition (hfiled : HasFiled database nodes) (hnodup : nodes.Nodup) :
    (database.slaveGroups.flatMap database.slavesInGroup).Perm database.slaves := by
  have hslaves : database.slaves.Nodup := by
    rw [hfiled.slaves]
    exact hnodup.filter _
  refine (List.perm_ext_iff_of_nodup (List.nodup_flatMap.mpr ⟨?_, ?_⟩) hslaves).mpr fun node => ?_
  · intro group _
    rw [hfiled.slavesInGroup_eq]
    exact hslaves.filter _
  · refine hfiled.groups.sorted.imp fun {a b} hless => ?_
    simp only [Function.onFun, hfiled.slavesInGroup_eq]
    intro node hnode hother
    have hfirst := of_decide_eq_true (List.mem_filter.mp hnode).2
    have hsecond := of_decide_eq_true (List.mem_filter.mp hother).2
    exact String.lt_irrefl b (hfirst.symm.trans hsecond ▸ hless)
  · simp only [List.mem_flatMap, hfiled.mem_slaveGroups, hfiled.slavesInGroup_eq, List.mem_filter,
      decide_eq_true_iff]
    exact ⟨fun ⟨_, _, hslave, _⟩ => hslave, fun hslave => ⟨_, ⟨node, hslave, rfl⟩, hslave, rfl⟩⟩

theorem IsCluster.isIndexOf (hcluster : IsCluster nodes) : IsIndexOf (indexed nodes) nodes where
  all := nodes_indexed nodes
  find := hcluster.filter_keys
  host := hcluster.hasFiled.hosts.lookup
  masters := hcluster.hasFiled.masters
  slaves := hcluster.hasFiled.slaves
  backups := hcluster.hasFiled.backups
  groups group := by
    simp [hcluster.hasFiled.mem_slaveGroups, hcluster.hasFiled.slaves, and_assoc]
  sorted := hcluster.hasFiled.groups.sorted
  group group found := by
    have hboth : nodes.filter (fun node => node.roles.has .slave ∧ node.group = group) =
        (nodes.filter (·.roles.has .slave)).filter (·.group = group) := by
      rw [List.filter_filter]
      refine List.filter_congr fun node _ => ?_
      rw [Bool.decide_and, Bool.decide_eq_true, Bool.and_comm]
    rw [hboth]
    exact hcluster.hasFiled.groups.lookup group found
  partition := hcluster.hasFiled.partition hcluster.nodup_addresses.of_map
  independent node _ hnone := by rw [properties, hnone]; rfl
  replica node hnode key hkey := by
    obtain ⟨master, hfound⟩ := Option.isSome_iff_exists.mp
      (hcluster.hasFiled.isSome_find?_iff.mpr (hcluster.replicated node hnode key hkey))
    obtain ⟨hmaster, hmem⟩ := hcluster.find?_eq_some_iff.mp hfound
    exact ⟨master, hmaster, hmem, by rw [properties, hkey, Option.bind_some, hfound]⟩

theorem exists_ofNodes_iff : (∃ made, ofNodes nodes = .ok made) ↔ IsCluster nodes := by
  rw [Prod.exists, exists_congr fun database => ofNodes_eq_ok_iff, exists_and_left]
  exact and_iff_left ⟨_, rfl⟩

theorem isIndexOf_of_eq_ok {told : Log} (hnodes : ofNodes nodes = .ok (database, told)) :
    database.IsIndexOf nodes := by
  obtain ⟨hcluster, rfl⟩ := ofNodes_eq_ok_iff.mp ⟨told, hnodes⟩
  exact hcluster.isIndexOf

theorem isIndexOf_ofNodes (nodes : List Node) :
    ((∃ made, ofNodes nodes = .ok made) ↔ IsCluster nodes) ∧
      ∀ database told, ofNodes nodes = .ok (database, told) → database.IsIndexOf nodes :=
  ⟨exists_ofNodes_iff, fun _ _ => isIndexOf_of_eq_ok⟩

-- A master with an alias, taken over by address in one group and by alias in another.
def twoGroups : List Node :=
  [⟨"a", 1, "one", ⟨true, true, false, false⟩, none, "west"⟩,
    ⟨"a", 2, "a:2", ⟨false, true, false, false⟩, some "a:1", "east"⟩,
    ⟨"b", 1, "b:1", ⟨false, true, false, true⟩, some "one", "west"⟩]

theorem isIndexOf_twoGroups :
    ∃ database told, ofNodes twoGroups = .ok (database, told) ∧ database.IsIndexOf twoGroups := by
  obtain ⟨hiff, hindex⟩ := isIndexOf_ofNodes twoGroups
  exact ⟨_, _, rfl, hindex _ _ rfl⟩

end Database

end IndexFleet
