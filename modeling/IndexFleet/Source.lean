import IndexFleet.Failure
import IndexFleet.FileTree
import IndexFleet.Text.Blank
import IndexFleet.Text.Decoding
import IndexFleet.Text.Lines

namespace IndexFleet

-- A source of rows below a header that names the columns. Each row comes with what is told while
-- it is looked for: the lines are decoded one by one, and blank ones are passed over.
structure Source where
  name : String
  header : String
  rows : List (String × Log)
  -- what is told between the last row and the end
  tail : Log
  -- why the source breaks off behind its rows, if that is not its end
  fault : Option FileFault
  deriving Repr, Inhabited

namespace Source

def rowsOf (name : String) (told : Log) : List Text.Bytes → List (String × Log) × Log
  | [] => ([], told)
  | line :: rest =>
      let text := Text.Utf8.decode line
      let told := told ++ Text.damageNotes line name
      if Text.allBlank text then rowsOf name told rest
      else
        let (rows, tail) := rowsOf name [] rest
        ((text, told) :: rows, tail)

def rawLines (bytes : Text.Bytes) : List Text.Bytes := Text.linesOf 0x0A 0x0D bytes

-- The lines that have been closed when reading breaks off. What has been read of another one is
-- lost.
def closedLines (bytes : Text.Bytes) : List Text.Bytes :=
  (bytes.splitOn 0x0A).dropLast.map (Text.dropLastOf 0x0D)

def ofLines (name : String) (fault : Option FileFault) :
    List Text.Bytes → Except Failure Source × Log
  | [] =>
      match fault with
      | none => (.error (.emptySource name), [.error s!"input file: {name} has no content"])
      | some fault => (.error (.io fault.message), [])
  | first :: rest =>
      let header := Text.Utf8.decode first
      let told := Text.damageNotes first name
      if Text.allBlank header then
        (.error (.emptySource name), told ++ [.error s!"input file: {name} has no content"])
      else
        let (rows, tail) := rowsOf name [] rest
        (.ok ⟨name, header, rows, tail, fault⟩, told)

def ofBytes (name : String) (bytes : Text.Bytes) : Except Failure Source × Log :=
  ofLines name none (rawLines bytes)

def ofContent (name : String) (content : FileContent) : Except Failure Source × Log :=
  match content.fault with
  | none => ofBytes name content.bytes
  | some fault => ofLines name (some fault) (closedLines content.bytes)

def ofFile (tree : FileTree) (path : String) : Except Failure Source × Log :=
  match tree.content path with
  | .ok content => ofContent path content
  | .error fault => (.error (.io fault.message), [])

def idColumn (source : Source) : String := Text.firstField '\t' source.header

-- Takes a number of rows, or as many as there are. Only who asks for more rows than there are gets
-- to the end of the source, or to where it breaks off.
def takeRows (source : Source) (count : Nat) : List String × Log × Source :=
  let taken := source.rows.take count
  let told := taken.flatMap (·.2)
  if source.rows.length < count then
    (taken.map (·.1), told ++ source.tail, { source with rows := [], tail := [] })
  else (taken.map (·.1), told, { source with rows := source.rows.drop count })

theorem takeRows_fst (source : Source) (count : Nat) :
    (source.takeRows count).1 = (source.rows.take count).map (·.1) := by
  unfold takeRows
  split <;> rfl

theorem takeRows_rows (source : Source) (count : Nat) :
    (source.takeRows count).2.2.rows = source.rows.drop count := by
  unfold takeRows
  split
  · rename_i h
    exact (List.drop_eq_nil_of_le (Nat.le_of_lt h)).symm
  · rfl

theorem takeRows_header (source : Source) (count : Nat) :
    (source.takeRows count).2.2.header = source.header := by
  unfold takeRows
  split <;> rfl

def nextRow (source : Source) : Option String × Log × Source :=
  let (rows, told, rest) := source.takeRows 1
  (rows.head?, told, rest)

def chunkText (header : String) (rows : List String) : String :=
  header ++ String.join (rows.map ("\n" ++ ·)) ++ "\n"

def nextChunk (source : Source) (count : Nat) : Option String × Log × Source :=
  let (rows, told, rest) := source.takeRows count
  (if rows.isEmpty then none else some (chunkText source.header rows), told, rest)

theorem nextChunk_rows (source : Source) (count : Nat) :
    (source.nextChunk count).2.2.rows = source.rows.drop count :=
  source.takeRows_rows count

theorem nextChunk_fst (source : Source) (count : Nat) :
    (source.nextChunk count).1 =
      if (source.rows.take count).isEmpty then none
      else some (chunkText source.header ((source.rows.take count).map (·.1))) := by
  simp only [nextChunk, takeRows_fst, List.isEmpty_map]

theorem length_nextChunk_lt (source : Source) (count : Nat)
    (h : (source.nextChunk count).1.isSome) :
    (source.nextChunk count).2.2.rows.length < source.rows.length := by
  rw [nextChunk_fst] at h
  rw [nextChunk_rows, List.length_drop]
  cases hr : source.rows with
  | nil => simp [hr] at h
  | cons row rows =>
    cases count with
    | zero => simp at h
    | succ count => simp only [List.length_cons]; omega

-- The failure that who asks for so many rows runs into.
def failureWithin (source : Source) (count : Nat) : Option Failure :=
  if source.rows.length < count then source.fault.map fun fault => .io fault.message else none

-- What is read before a failure is of no use to who asked for more.
def readRow (source : Source) : Except Failure (Option String) × Log × Source :=
  let (row, rest) := source.nextRow
  ((source.failureWithin 1).elim (.ok row) .error, rest)

def readChunk (source : Source) (count : Nat) : Except Failure (Option String) × Log × Source :=
  let (chunk, rest) := source.nextChunk count
  ((source.failureWithin count).elim (.ok chunk) .error, rest)

theorem elim_eq_ok {α : Type} {failure : Option Failure} {value found : α}
    (hfound : failure.elim (.ok value) .error = Except.ok found) : value = found := by
  cases failure with
  | none => exact Except.ok.inj hfound
  | some failure => cases hfound

-- Whoever gets a row or a chunk leaves fewer rows behind.
theorem length_readRow_lt {source rest : Source} {row : String} {told : Log}
    (hrow : source.readRow = (.ok (some row), told, rest)) :
    rest.rows.length < source.rows.length := by
  have hsome : source.nextRow.1 = some row := elim_eq_ok (congrArg Prod.fst hrow)
  have hrest : source.readRow.2.2.rows = source.rows.drop 1 := source.takeRows_rows 1
  rw [hrow] at hrest
  rw [hrest, List.length_drop]
  cases hrows : source.rows with
  | nil => simp [nextRow, takeRows_fst, hrows] at hsome
  | cons first rows => simp

theorem length_readChunk_lt (source : Source) {count : Nat} {chunk : String}
    (hchunk : (source.readChunk count).1 = .ok (some chunk)) :
    (source.readChunk count).2.2.rows.length < source.rows.length := by
  have hsome : (source.nextChunk count).1 = some chunk := elim_eq_ok hchunk
  exact source.length_nextChunk_lt count (by rw [hsome]; rfl)

end Source

end IndexFleet
