namespace IndexFleet

-- Why an operation did not succeed. A node that cannot be reached and a node that refuses what it
-- was sent are different causes: a bulk upload goes on after the second one only.
inductive Failure
  | config (reason : String)
  | argument (reason : String)
  | unknownCommand (name : String)
  | targetNotFound (reason : String)
  | transport (node message : String)
  | rejected (node : String) (status : Nat) (body : String)
  | noInputFiles (path : String)
  | emptySource (source : String)
  | taskPanicked (label : String)
  | io (reason : String)
  deriving Repr, DecidableEq, Inhabited

namespace Failure

def message : Failure → String
  | config reason => s!"Configuration error: {reason}"
  | argument reason => s!"Argument error: {reason}"
  | unknownCommand name => s!"Unknown command: {name}"
  | targetNotFound reason => s!"Target not found: {reason}"
  | transport node text => s!"Transport error on {node}: {text}"
  | rejected node status body => s!"Rejected by {node} (HTTP {status}): {body}"
  | noInputFiles path => s!"There are no files in: {path}"
  | emptySource source => s!"Input file {source} has no content"
  | taskPanicked label => s!"Dispatched task panicked: {label}"
  | io reason => s!"I/O error: {reason}"

-- The node did not take part: it was out of reach or the exchange broke off.
def isTransport : Failure → Bool
  | transport .. => true
  | _ => false

def isRejection : Failure → Bool
  | rejected .. => true
  | _ => false

-- The message with all causes below it. The reason of an I/O failure is a cause of its own.
def chain : Failure → String
  | io reason => s!"{message (io reason)}: {reason}"
  | failure => failure.message

end Failure

end IndexFleet
