import IndexFleet.Failure
import IndexFleet.FileTree
import IndexFleet.Settings
import IndexFleet.Yaml.Content

namespace IndexFleet

-- Why a document could not be used. What is wrong inside a document that is not even well formed
-- is not told apart.
inductive DocumentFault
  | unreadable (path : String) (fault : FileFault)
  | malformed
  deriving Repr, DecidableEq, Inhabited

def DocumentFault.message : DocumentFault → String
  | unreadable path fault => s!"cannot read {path}: {fault.message}"
  | malformed => "the document does not have the expected form"

def documentText (tree : FileTree) (path : String) : Except DocumentFault String :=
  (tree.readText path).mapError (.unreadable path)

namespace Settings

open Yaml (Reading)

def timeoutsOf (node : Yaml.Node) : Reading Timeouts := do
  let pairs ← node.namedPairs
  let usual : Timeouts := {}
  return {
    connect := ← Yaml.Node.field pairs "connect_timeout_ms" usual.connect Yaml.Node.word
    read := ← Yaml.Node.field pairs "read_timeout_ms" usual.read Yaml.Node.word
    commitRead := ← Yaml.Node.field pairs "commit_read_timeout_ms" usual.commitRead Yaml.Node.word
    optimizeRead :=
      ← Yaml.Node.field pairs "optimize_read_timeout_ms" usual.optimizeRead Yaml.Node.word
    streamFileRead :=
      ← Yaml.Node.field pairs "stream_file_read_timeout_ms" usual.streamFileRead Yaml.Node.word }

-- The settings that a document describes. What it does not give keeps its usual value, and names
-- that mean nothing are passed over.
def ofRoot (root : Option Yaml.Node) : Reading Settings := do
  let pairs ← Yaml.Node.rootPairs root
  let usual : Settings := {}
  return {
    timeouts := ← Yaml.Node.field pairs "client" usual.timeouts timeoutsOf
    maxLinesPerChunk :=
      ← Yaml.Node.field pairs "max_lines_per_chunk" usual.maxLinesPerChunk Yaml.Node.word
    threadFactor := ← Yaml.Node.field pairs "thread_factor" usual.threadFactor Yaml.Node.float }

inductive LoadFault
  | document (fault : DocumentFault)
  | invalid (fault : Fault)

def LoadFault.failure : LoadFault → Failure
  | document fault => .config fault.message
  | invalid fault => .config fault.message

def ofText (text : String) : Except LoadFault Settings := do
  match (Yaml.Document.ofText? text).bind (·.read ofRoot) with
  | none => .error (.document .malformed)
  | some settings =>
      settings.check.mapError .invalid
      .ok settings

def load (tree : FileTree) (path : String) : Except LoadFault Settings := do
  ofText (← (documentText tree path).mapError .document)

end Settings

end IndexFleet
