import IndexFleet.Log
import IndexFleet.Node

namespace IndexFleet

inductive ClusterFault
  | incomplete (name : String)
  | sharedKey (key first second : String)
  | noMaster
  | noSlave
  | unknownReplicationMaster (master node : String)
  deriving Repr, DecidableEq, Inhabited

def ClusterFault.message : ClusterFault → String
  | incomplete name => s!"invalid node with name: {name}"
  | sharedKey key first second => s!"{key} names both {first} and {second}"
  | noMaster => "no master node"
  | noSlave => "no slave node"
  | unknownReplicationMaster master node =>
      s!"no node named {master} (replication master of {node})"

-- Nodes put away under a text that each of them has, in the order of those texts.
abbrev NodesByKey := List (String × List Node)

def NodesByKey.put (key : String) (node : Node) : NodesByKey → NodesByKey
  | [] => [(key, [node])]
  | (other, nodes) :: rest =>
      if key = other then (other, nodes ++ [node]) :: rest
      else if key < other then (key, [node]) :: (other, nodes) :: rest
      else (other, nodes) :: NodesByKey.put key node rest

structure Database where
  nodes : List Node
  -- what each name and each address stands for: a node and its place among all nodes, by which it
  -- is told apart from one that is written alike
  byName : List (String × Node × Nat)
  byHost : NodesByKey
  masters : List Node
  slaves : List Node
  backups : List Node
  bySlaveGroup : NodesByKey
  deriving Repr, DecidableEq, Inhabited

namespace Database

-- No table has anything in it yet.
def blank (nodes : List Node) : Database := ⟨nodes, [], [], [], [], [], []⟩

def slaveGroups (database : Database) : List String := database.bySlaveGroup.map Prod.fst

def slavesInGroup? (database : Database) (group : String) : Option (List Node) :=
  database.bySlaveGroup.lookup group

def slavesInGroup (database : Database) (group : String) : List Node :=
  (database.slavesInGroup? group).getD []

def onHost? (database : Database) (host : String) : Option (List Node) :=
  database.byHost.lookup host

def onHost (database : Database) (host : String) : List Node := (database.onHost? host).getD []

def find? (database : Database) (key : String) : Option Node :=
  (database.byName.lookup key).map Prod.fst

def findAddress? (database : Database) (host : String) (port : Port) : Option Node :=
  database.find? (addressOf host port)

def withKey (database : Database) (key : String) (node : Node × Nat) : Database :=
  { database with byName := (key, node) :: database.byName }

-- A key that stands for another node already is refused, not one that the node has twice.
def bindName (database : Database) (key : String) (node : Node × Nat) :
    Except ClusterFault Database :=
  match database.byName.lookup key with
  | some other =>
      if other.2 = node.2 then .ok (database.withKey key node)
      else .error (.sharedKey key other.1.address node.1.address)
  | none => .ok (database.withKey key node)

def shelve (database : Database) (node : Node) : Database :=
  { database with
    byHost := database.byHost.put node.host node
    masters := if node.roles.has .master then database.masters ++ [node] else database.masters
    slaves := if node.roles.has .slave then database.slaves ++ [node] else database.slaves
    bySlaveGroup :=
      if node.roles.has .slave then database.bySlaveGroup.put node.group node
      else database.bySlaveGroup
    backups := if node.roles.has .backup then database.backups ++ [node] else database.backups }

def addNode (database : Database) (node : Node × Nat) : Except ClusterFault Database :=
  if node.1.host.isEmpty || node.1.port == 0 then .error (.incomplete node.1.name)
  else do
    let database ← database.bindName node.1.name node
    let database ← database.bindName node.1.address node
    .ok (database.shelve node.1)

-- The first node whose replication master nobody knows.
def checkReplication (database : Database) : List Node → Except ClusterFault Unit
  | [] => .ok ()
  | node :: rest =>
      match node.replicationMaster with
      | some master =>
          if (database.find? master).isSome then checkReplication database rest
          else .error (.unknownReplicationMaster master node.name)
      | none => checkReplication database rest

def validate (database : Database) : Except ClusterFault Unit :=
  if database.masters.isEmpty then .error .noMaster
  else if database.slaves.isEmpty then .error .noSlave
  else database.checkReplication database.nodes

def mergerNotes (nodes : List Node) : Log :=
  (nodes.filter (·.roles.has .merger)).map fun node =>
    .info s!"Role merger is obsolete: {node.name}"

def replicationNotes (nodes : List Node) : Log :=
  (nodes.filter fun node =>
    node.replicationMaster.isNone && (node.roles.has .slave || node.roles.has .backup)).map
      fun node =>
        .info s!"node (slave or backup) {node.address} does not have a replication master"

def hostNotes (database : Database) : Log :=
  database.byHost.filterMap fun (host, nodes) =>
    if 1 < nodes.length then some (.info s!"host {host} runs {nodes.length} index instances")
    else none

-- The database of a list of nodes, with what there is to tell about it. Its tables are filled in
-- one pass over the nodes, which stops at the first that is incomplete or shares a key.
def ofNodes (nodes : List Node) : Except ClusterFault (Database × Log) := do
  let database ← nodes.zipIdx.foldlM addNode (blank nodes)
  database.validate
  .ok (database, mergerNotes nodes ++ replicationNotes nodes ++ database.hostNotes)

end Database

end IndexFleet
