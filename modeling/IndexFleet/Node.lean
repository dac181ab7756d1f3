namespace IndexFleet

-- What a node is there for. Merging of answers is obsolete and still accepted.
inductive Role
  | master
  | slave
  | merger
  | backup
  deriving Repr, DecidableEq, Inhabited

namespace Role

def name : Role → String
  | master => "MASTER"
  | slave => "SLAVE"
  | merger => "MERGER"
  | backup => "BACKUP"

def all : List Role := [master, slave, merger, backup]

end Role

structure Roles where
  master : Bool
  slave : Bool
  merger : Bool
  backup : Bool
  deriving Repr, DecidableEq, Inhabited

namespace Roles

def none : Roles := ⟨false, false, false, false⟩

def has (roles : Roles) : Role → Bool
  | .master => roles.master
  | .slave => roles.slave
  | .merger => roles.merger
  | .backup => roles.backup

def insert (roles : Roles) : Role → Roles
  | .master => { roles with master := true }
  | .slave => { roles with slave := true }
  | .merger => { roles with merger := true }
  | .backup => { roles with backup := true }

def ofList (roles : List Role) : Roles := roles.foldl insert none

def toList (roles : Roles) : List Role := Role.all.filter roles.has

@[simp] theorem has_none (role : Role) : none.has role = false := by cases role <;> rfl

@[simp] theorem has_insert (roles : Roles) (role other : Role) :
    (roles.insert role).has other = (roles.has other || decide (role = other)) := by
  cases role <;> cases other <;> simp [has, insert]

end Roles

abbrev Port := UInt16

def addressOf (host : String) (port : Port) : String := s!"{host}:{port.toNat}"

def defaultGroup : String := "DEFAULT"

structure Node where
  host : String
  port : Port
  -- an alias, or the address where there is none
  name : String
  roles : Roles
  -- the name of the node whose index this one takes over
  replicationMaster : Option String
  group : String
  deriving Repr, DecidableEq, Inhabited

namespace Node

def bare (host : String) (port : Port) (role : Role) (replicationMaster : Option String) : Node :=
  ⟨host, port, addressOf host port, Roles.none.insert role, replicationMaster, defaultGroup⟩

def address (node : Node) : String := addressOf node.host node.port

-- The address as other index servers write it into their queries.
def shardAddress (node : Node) : String := node.address ++ "/solr"

def display (node : Node) : String := s!"{node.name} ({node.address})"

end Node

end IndexFleet
