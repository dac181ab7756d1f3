import IndexFleet.Database
import IndexFleet.Text.Blank

namespace IndexFleet

inductive TopologyEntry
  -- gives the section's role to a node described elsewhere
  | reference (name : String) (group : Option String)
  | node (host : String) (port : Port) (aliasName replicate group : Option String)
  deriving Repr, DecidableEq, Inhabited

structure Topology where
  master : List TopologyEntry
  merger : List TopologyEntry
  backup : List TopologyEntry
  slave : List TopologyEntry
  deriving Repr, DecidableEq, Inhabited

namespace Topology

inductive Fault
  | twoAliases (address : String)
  | nameUsedTwice (name : String)
  | addressIsAlias (address : String)
  | aliasIsAddress (name : String)
  | unresolvedReference (name : String)
  | cluster (fault : ClusterFault)
  deriving Repr, DecidableEq, Inhabited

def Fault.message : Fault → String
  | twoAliases address => s!"{address} is declared twice with different aliases"
  | nameUsedTwice name => s!"node name {name} is used by more than one instance"
  | addressIsAlias address => s!"{address} is the alias of another instance"
  | aliasIsAddress name => s!"alias {name} is the address of another instance"
  | unresolvedReference name => s!"cannot resolve reference name: {name}"
  | cluster fault => fault.message

def spoken (text : Option String) : Option String :=
  text.filter (!Text.allBlank ·)

def groupOrDefault (group : Option String) : String :=
  (spoken group).getD defaultGroup

structure Pending where
  host : String
  port : Port
  aliasName : Option String
  replicate : Option String
  roles : Roles
  group : String
  deriving Repr, DecidableEq, Inhabited

namespace Pending

def name (pending : Pending) : String :=
  pending.aliasName.getD (addressOf pending.host pending.port)

def toNode (pending : Pending) : Node :=
  ⟨pending.host, pending.port, pending.name, pending.roles, pending.replicate, pending.group⟩

end Pending

def sections (topology : Topology) : List (Role × List TopologyEntry) :=
  [(.master, topology.master), (.merger, topology.merger), (.backup, topology.backup),
    (.slave, topology.slave)]

def entries (topology : Topology) : List (Role × TopologyEntry) :=
  topology.sections.flatMap fun (role, entries) => entries.map (role, ·)

-- What another entry says of a node by its name, until all nodes are known.
structure Reference where
  name : String
  role : Role
  group : String
  deriving Repr, DecidableEq, Inhabited

-- The nodes in the order in which they come up, with tables of their places in it, the addresses
-- that are taken and the references that have been put off.
structure Collected where
  pending : List Pending
  byName : List (String × Nat)
  byPlace : List ((String × Port) × Nat)
  addresses : List String
  references : List Reference
  deriving Repr, DecidableEq, Inhabited

def Collected.nothing : Collected := ⟨[], [], [], [], []⟩

-- Takes a node in. A second description of a node at the same address may only add a role: it must
-- not name another alias, and the rest of it does not count.
def collectNode (collected : Collected) (role : Role) (host : String) (port : Port)
    (aliasName replicate group : Option String) : Except Fault Collected :=
  let aliasName := spoken aliasName
  let address := addressOf host port
  let name := aliasName.getD address
  match collected.byPlace.lookup (host, port) with
  | some index =>
      if aliasName.isSome && aliasName != collected.pending[index]?.bind (·.aliasName) then
        .error (.twoAliases address)
      else .ok { collected with
        pending := collected.pending.modify index fun existing =>
          { existing with roles := existing.roles.insert role } }
  | none =>
      if (collected.byName.lookup name).isSome then .error (.nameUsedTwice name)
      else if (collected.byName.lookup address).isSome then .error (.addressIsAlias address)
      else if collected.addresses.contains name then .error (.aliasIsAddress name)
      else
        let index := collected.pending.length
        .ok { collected with
          pending := collected.pending ++
            [⟨host, port, aliasName, replicate, Roles.none.insert role, groupOrDefault group⟩]
          byName := (name, index) :: collected.byName
          addresses := address :: collected.addresses
          byPlace := ((host, port), index) :: collected.byPlace }

def collect (collected : Collected) : List (Role × TopologyEntry) → Except Fault Collected
  | [] => .ok collected
  | (role, .reference name group) :: rest =>
      let reference : Reference := ⟨name, role, groupOrDefault group⟩
      collect { collected with references := collected.references ++ [reference] } rest
  | (role, .node host port aliasName replicate group) :: rest => do
      collect (← collectNode collected role host port aliasName replicate group) rest

-- A node that is referred to takes the role, and a slave the group of the reference as well.
def Pending.refer (pending : Pending) (reference : Reference) : Pending :=
  { pending with
    group := if reference.role = .slave ∧ pending.group ≠ reference.group then reference.group
      else pending.group
    roles := pending.roles.insert reference.role }

def resolve (byName : List (String × Nat)) (pending : List Pending) :
    List Reference → Except Fault (List Pending)
  | [] => .ok pending
  | reference :: rest =>
      match byName.lookup reference.name with
      | none => .error (.unresolvedReference reference.name)
      | some index => resolve byName (pending.modify index (·.refer reference)) rest

def build (topology : Topology) : Except Fault (Database × Log) := do
  let collected ← collect .nothing topology.entries
  let pending ← resolve collected.byName collected.pending collected.references
  (Database.ofNodes (pending.map Pending.toNode)).mapError .cluster

end Topology

end IndexFleet
