import IndexFleet.Database
import IndexFleet.Failure
import IndexFleet.Text.Blank
import IndexFleet.Text.Lines

namespace IndexFleet

inductive TargetFault
  | unspecified
  | unknownNode (name : String)
  | noNodes (target : String)
  deriving Repr, DecidableEq, Inhabited

def TargetFault.failure : TargetFault → Failure
  | unspecified => .targetNotFound "no target specified"
  | unknownNode name => .targetNotFound s!"no instance named {name}"
  | noNodes target => .targetNotFound s!"target {target} has no nodes"

namespace Database

-- The nodes that a list of names stands for, in the order of the names; all must be known.
def named (database : Database) : List String → Except TargetFault (List Node)
  | [] => .ok []
  | name :: rest =>
      match database.find? name with
      | none => .error (.unknownNode name)
      | some node => (database.named rest).map (node :: ·)

-- The nodes that a target means: those of a role, all, or those of a list of names between commas.
def targets (database : Database) (target : String) : Except TargetFault (List Node) := do
  let nodes ←
    match Text.trim target with
    | "master" => .ok database.masters
    | "slave" => .ok database.slaves
    | "all" => .ok database.nodes
    | "" => .error .unspecified
    | names => database.named ((Text.fields ',' names).map Text.trim)
  if nodes.isEmpty then .error (.noNodes target) else .ok nodes

end Database

end IndexFleet
