import IndexFleet.FileTree

namespace IndexFleet.AbsolutePath

open Text (Bytes utf8)

def slash : UInt8 := 0x2F

def dot : Bytes := [0x2E]

def names (path : Bytes) : List Bytes :=
  (path.splitOn slash).filter fun name => !name.isEmpty && name != dot

-- Two slashes in front are kept, any other number of them counts as one.
def lead (path : Bytes) : Bytes :=
  match (path.takeWhile (· == slash)).length with
  | 2 => [slash, slash]
  | _ => [slash]

-- A path from the root that names the same place as a path from the home directory. It is a matter
-- of bytes alone: the file system is not asked, so steps upward stay.
def ofPath (home : List Bytes) (path : Bytes) : Except FileFault Bytes :=
  if path.isEmpty then .error .emptyPath
  else
    let names := (if path.head? == some slash then [] else home) ++ names path
    let trail := if path.getLast? == some slash && !names.isEmpty then [slash] else []
    .ok (lead path ++ [slash].intercalate names ++ trail)

end IndexFleet.AbsolutePath
