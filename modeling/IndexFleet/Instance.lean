import IndexFleet.Database
import IndexFleet.Failure

namespace IndexFleet

inductive InstanceRole
  | index
  | replicate
  -- both or neither
  | standalone
  deriving Repr, DecidableEq, Inhabited

def InstanceRole.name : InstanceRole → String
  | index => "INDEX"
  | replicate => "REPLICATE"
  | standalone => "STANDALONE"

def Node.instanceRole (node : Node) : InstanceRole :=
  match node.roles.has .master, node.roles.has .slave || node.roles.has .backup with
  | true, false => .index
  | false, true => .replicate
  | _, _ => .standalone

namespace Database

def properties (database : Database) (node : Node) : List String :=
  s!"INSTANCE_TYPE={node.instanceRole.name}" ::
    match node.replicationMaster.bind database.find? with
    | some master =>
        [s!"REPLICATION_MASTER_NODE={master.host}",
          s!"REPLICATION_MASTER_PORT={master.port.toNat}"]
    | none => []

def listing (database : Database) : List String :=
  database.nodes.map fun node => s!"{node.host}_{node.port.toNat}_{node.instanceRole.name}"

inductive SelectionFault
  | noSuchName (name : String)
  | noSuchHost (host : String)
  | otherPort (host : String) (port : Port)
  | noSuchPort (host : String) (port : Port)
  | portNeeded (host : String) (count : Nat)
  deriving Repr, DecidableEq, Inhabited

def SelectionFault.failure : SelectionFault → Failure
  | noSuchName name => .targetNotFound s!"no instance named {name}"
  | noSuchHost host => .targetNotFound s!"no index instance on host {host}"
  | otherPort host port => .targetNotFound s!"host {host} does not have port {port.toNat}"
  | noSuchPort host port =>
      .targetNotFound s!"no index instance on host {host} with port {port.toNat}"
  | portNeeded host count =>
      .argument s!"host {host} runs {count} instances, a port is required"

def selectByName (database : Database) (name : String) : Except SelectionFault Node :=
  match database.find? name with
  | some node => .ok node
  | none => .error (.noSuchName name)

-- The node on a host. The port may be left out where there is only one, which is told.
def selectByHost (database : Database) (host : String) (port : Option Port) :
    Except SelectionFault Node × Log :=
  match database.onHost? host, port with
  | none, _ => (.error (.noSuchHost host), [])
  | some [only], none =>
      (.ok only, [.info s!"port is not specified, guessing {only.port.toNat} for host {host}"])
  | some [only], some port =>
      if only.port == port then (.ok only, []) else (.error (.otherPort host port), [])
  | some several, none => (.error (.portNeeded host several.length), [])
  | some several, some port =>
      match several.find? (·.port == port) with
      | some node => (.ok node, [])
      | none => (.error (.noSuchPort host port), [])

end Database

end IndexFleet
