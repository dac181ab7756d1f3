import IndexFleet.Peer

namespace IndexFleet

-- When a rule applies. A condition that is not given holds.
structure RuleCondition where
  node : Option String := none
  method : Option String := none
  pathContains : Option String := none
  bodyContains : Option String := none
  bodyEquals : Option String := none
  deriving Repr, DecidableEq, Inhabited

structure Rule where
  condition : RuleCondition
  reply : Reply
  deriving Repr, DecidableEq, Inhabited

namespace Rule

def occursIn (part text : List Char) : Bool :=
  match text with
  | [] => part.isEmpty
  | _ :: rest => part.isPrefixOf text || occursIn part rest

def holds (wanted : Option String) (test : String → Bool) : Bool :=
  (wanted.map test).getD true

def applies (rule : Rule) (request : Request) : Bool :=
  let condition := rule.condition
  holds condition.node (· == request.node) &&
    holds condition.method (· == request.method.name) &&
    holds condition.pathContains (occursIn ·.toList request.path.toList) &&
    holds condition.bodyContains (occursIn ·.toList request.body.toList) &&
    holds condition.bodyEquals (· == request.body)

-- Some statuses have no body.
def answer (status : Nat) (body : Text.Bytes) : Reply :=
  .answered status (if status = 204 ∨ status = 304 then [] else body)

end Rule

-- The first rule that applies decides; without any the call succeeds.
def Network.scripted (rules : List Rule) (request : Request) : Reply :=
  match rules.find? (·.applies request) with
  | some rule => rule.reply
  | none => .answered 200 (Text.utf8 "OK")

end IndexFleet
