import IndexFleet.Failure
import IndexFleet.FileTree
import IndexFleet.Log

namespace IndexFleet.FileTree

def join (path name : String) : String :=
  if path.toList.getLast? == some '/' then path ++ name else path ++ "/" ++ name

-- The names of the regular files in a directory, in the order of their bytes. Links do not count,
-- wherever they lead to.
def fileNames (tree : FileTree) (location : Location) : List String :=
  ((tree.children location).filterMap fun (name, entry) =>
    match entry with
    | .file _ => some name
    | _ => none).mergeSort fun a b => decide (a ≤ b)

-- The paths of the sources behind a path: itself if it leads to a file, or the files of the
-- directory that it leads to. There has to be one.
def inputFiles (tree : FileTree) (path : String) : Except Failure (List String) × Log :=
  match tree.find path with
  | .error fault =>
      (.error (.noInputFiles path), [.error s!"cannot read {path}: {fault.message}"])
  | .ok (_, .file _) => (.ok [path], [])
  | .ok (location, .directory) =>
      let names := tree.fileNames location
      if names.isEmpty then (.error (.noInputFiles path), [])
      else (.ok (names.map (join path)), [])
  | .ok _ => (.error (.io FileFault.notDirectory.message), [])

end IndexFleet.FileTree
