namespace IndexFleet.Text

variable {α : Type} [BEq α]

def dropLastOf (closing : α) (line : List α) : List α :=
  if line.getLast? == some closing then line.dropLast else line

-- What follows the last terminator is a line of its own unless it is empty.
def openLine : List α → List (List α)
  | [] => []
  | c :: rest => [c :: rest]

-- The lines of a text. A line ends at a feed, and a return right before the feed belongs to the
-- terminator. The same rule serves characters and bytes.
def linesOf (feed ret : α) (text : List α) : List (List α) :=
  let pieces := text.splitOn feed
  pieces.dropLast.map (dropLastOf ret) ++ openLine (pieces.getLastD [])

def lines (text : String) : List String :=
  (linesOf '\n' '\r' text.toList).map String.ofList

-- The fields between separators, one more than there are separators.
def fields (separator : Char) (text : String) : List String :=
  (text.toList.splitOn separator).map String.ofList

def firstField (separator : Char) (text : String) : String :=
  String.ofList (text.toList.takeWhile (· != separator))

end IndexFleet.Text
