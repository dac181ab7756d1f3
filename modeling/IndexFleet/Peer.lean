import IndexFleet.Node
import IndexFleet.Text.Utf8

namespace IndexFleet

inductive Method
  | get
  | post
  deriving Repr, DecidableEq, Inhabited

def Method.name : Method → String
  | get => "GET"
  | post => "POST"

structure Request where
  host : String
  port : Port
  method : Method
  -- with the query behind it
  path : String
  contentType : Option String
  body : String
  deriving Repr, DecidableEq, Inhabited

namespace Request

def node (request : Request) : String := addressOf request.host request.port

-- The address of the call. The usual port is left out.
def url (request : Request) : String :=
  let host := if request.port == 80 then request.host else request.node
  s!"http://{host}{request.path}"

-- The longest address that a call can be sent to, in bytes.
def maxUrl : Nat := 65534

end Request

inductive Reply
  | answered (status : Nat) (body : Text.Bytes)
  | refused
  -- there is no such address, or none that a call could be sent to
  | unaddressable
  -- the connection was closed without an answer
  | dropped
  -- no answer came in time
  | unanswered
  -- the answer's body was cut short
  | truncated
  deriving Repr, DecidableEq, Inhabited

def Reply.wasReceived : Reply → Bool
  | refused | unaddressable => false
  | _ => true

-- All index servers together, as a call sees them: what comes of it depends on the call alone.
abbrev Network := Request → Reply

namespace Network

def isHost (host : String) : Bool := !host.isEmpty && !host.toList.contains ' '

def ofServers (listens : String → Bool) (answer : Request → Reply) : Network := fun request =>
  if !isHost request.host || Request.maxUrl < request.url.utf8ByteSize then .unaddressable
  else if listens request.node then answer request
  else .refused

end Network

end IndexFleet
