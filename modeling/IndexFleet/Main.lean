import IndexFleet.CommandLine.Run

namespace IndexFleet.CommandLine

def pathCandidates (words : List String) : List String :=
  usualConf :: words.flatMap fun word =>
    match longOption? word with
    | some (_, some value) => [value]
    | _ => [word]

def treeOnDisk (words : List String) : IO FileTree := do
  let home := (← IO.getEnv "PWD").getD ""
  let mut tree := FileTree.bare ((AbsolutePath.names (Text.utf8 home)).map Text.Utf8.decode)
  for path in pathCandidates words do
    try
      let data ← IO.FS.readBinFile path
      tree := tree.place path (.file (data.toList : Text.Bytes))
    catch _ => pure ()
  return tree

-- A network without servers: a call finds nobody who listens.
def silentNetwork : Network := Network.ofServers (fun _ => false) fun _ => .refused

end IndexFleet.CommandLine

open IndexFleet in
def main (words : List String) : IO UInt32 := do
  let outcome := CommandLine.run words (← CommandLine.treeOnDisk words) CommandLine.silentNetwork
  IO.print outcome.output
  for entry in outcome.log do
    IO.eprintln entry.render
  if let some reason := outcome.error then
    IO.eprintln (Entry.error reason).render
  if outcome.exitCode == 2 then
    IO.eprint CommandLine.usage
  return outcome.exitCode.toUInt32
