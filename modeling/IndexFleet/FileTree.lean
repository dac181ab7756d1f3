import IndexFleet.Text.Utf8

namespace IndexFleet

inductive FileFault
  | notFound
  | notDirectory
  | isDirectory
  | nameTooLong
  | linkLoop
  | nulInPath
  | notText
  | emptyPath
  | denied
  -- the medium gives no more
  | broken
  deriving Repr, DecidableEq, Inhabited

def FileFault.message : FileFault → String
  | notFound => "No such file or directory (os error 2)"
  | notDirectory => "Not a directory (os error 20)"
  | isDirectory => "Is a directory (os error 21)"
  | nameTooLong => "File name too long (os error 36)"
  | linkLoop => "Too many levels of symbolic links (os error 40)"
  | nulInPath => "file name contained an unexpected NUL byte"
  | notText => "stream did not contain valid UTF-8"
  | emptyPath => "cannot make an empty path absolute"
  | denied => "Permission denied (os error 13)"
  | broken => "Input/output error (os error 5)"

-- The names from the root down to a place.
abbrev Location := List String

-- What there is to read in a file: some bytes, and why no more can be read behind them if that is
-- not the end. A file that may not be read at all breaks off at once.
structure FileContent where
  bytes : Text.Bytes
  fault : Option FileFault := none
  deriving Repr, DecidableEq, Inhabited

instance : Coe Text.Bytes FileContent := ⟨fun bytes => { bytes }⟩

inductive FileEntry
  | file (content : FileContent)
  | directory
  | link (target : String)
  -- neither a file nor a directory, and nothing to read in it
  | device
  deriving Repr, DecidableEq, Inhabited

structure FileTree where
  entries : List (Location × FileEntry)
  -- the names of the current directory, which need not be text
  home : List Text.Bytes
  deriving Repr, Inhabited

namespace FileTree

-- The place of the current directory. The names in a tree are text.
def current (tree : FileTree) : Location := tree.home.map Text.Utf8.decode

-- The entry at a place, links not followed. The root is always a directory.
def entry? (tree : FileTree) (location : Location) : Option FileEntry :=
  match location with
  | [] => some .directory
  | _ => tree.entries.lookup location

-- The names of a path. A slash at the end asks for a directory, as a dot does.
def steps (path : String) : List String :=
  let names := (path.toList.splitOn '/').map String.ofList
  names.filter (!·.isEmpty) ++ (if path.toList.getLast? == some '/' then ["."] else [])

def isAbsolute (path : String) : Bool := path.toList.head? == some '/'

-- The longest name that a directory can hold, in bytes.
def maxName : Nat := 255

-- The shortest path that is too long, in bytes.
def maxPath : Nat := 4096

def maxLinks : Nat := 40

-- Goes from a place along names, following every link, at most so many.
def walk (tree : FileTree) (links : Nat) (here : Location) (names : List String) :
    Except FileFault Location :=
  match names with
  | [] => .ok here
  | name :: rest =>
      if tree.entry? here != some .directory then .error .notDirectory
      else if name == "." then walk tree links here rest
      else if name == ".." then walk tree links here.dropLast rest
      else if maxName < name.utf8ByteSize then .error .nameTooLong
      else match tree.entry? (here ++ [name]) with
        | none => .error .notFound
        | some (.link target) =>
            match links with
            | 0 => .error .linkLoop
            | links + 1 =>
                walk tree links (if isAbsolute target then [] else here) (steps target ++ rest)
        | some _ => walk tree links (here ++ [name]) rest
termination_by (links, names.length)

def locate (tree : FileTree) (path : String) : Except FileFault Location :=
  if path.toList.contains '\x00' then .error .nulInPath
  else if path.isEmpty then .error .notFound
  else if maxPath ≤ path.utf8ByteSize then .error .nameTooLong
  else walk tree maxLinks (if isAbsolute path then [] else tree.current) (steps path)

def find (tree : FileTree) (path : String) : Except FileFault (Location × FileEntry) := do
  let location ← tree.locate path
  match tree.entry? location with
  | some entry => .ok (location, entry)
  | none => .error .notFound

-- A directory can be opened like a file, and there is nothing to read in a device.
def content (tree : FileTree) (path : String) : Except FileFault FileContent := do
  match ← tree.find path with
  | (_, .file content) => .ok content
  | (_, .directory) => .ok ⟨[], some .isDirectory⟩
  | _ => .ok ⟨[], none⟩

def read (tree : FileTree) (path : String) : Except FileFault Text.Bytes := do
  let content ← tree.content path
  match content.fault with
  | none => .ok content.bytes
  | some fault => .error fault

def readText (tree : FileTree) (path : String) : Except FileFault String := do
  match Text.Utf8.decode? (← tree.read path) with
  | some text => .ok text
  | none => .error .notText

def children (tree : FileTree) (location : Location) : List (String × FileEntry) :=
  tree.entries.filterMap fun (place, entry) =>
    match place.getLast? with
    | some name => if place.dropLast == location then some (name, entry) else none
    | none => none

def add (tree : FileTree) (location : Location) (entry : FileEntry) : FileTree :=
  if (tree.entry? location).isSome then tree
  else { tree with entries := tree.entries ++ [(location, entry)] }

def addDirectories (tree : FileTree) (location : Location) (depth : Nat) : FileTree :=
  (List.range depth).foldl (fun tree n => tree.add (location.take (n + 1)) .directory) tree

def place (tree : FileTree) (path : String) (entry : FileEntry) : FileTree :=
  let names := (steps path).filter (· != ".")
  let location := if isAbsolute path then names else tree.current ++ names
  (tree.addDirectories location (location.length - 1)).add location entry

def bare (home : Location) : FileTree :=
  let devices : FileTree :=
    ⟨[(["dev"], .directory), (["dev", "null"], .device)], home.map Text.utf8⟩
  devices.addDirectories home home.length

end FileTree

end IndexFleet
