namespace IndexFleet.Yaml

inductive Style
  | plain
  | quoted
  | literal
  | folded
  deriving Repr, DecidableEq, Inhabited

-- The pieces of a document. Block collections have no marks of their own in the text: their starts
-- and ends follow from the indentation.
inductive Token
  | version (major minor : Nat)
  | tagDirective (handle extent : String)
  | documentStart
  | documentEnd
  | blockSequenceStart
  | blockMappingStart
  | blockEnd
  | flowSequenceStart
  | flowSequenceEnd
  | flowMappingStart
  | flowMappingEnd
  | blockEntry
  | flowEntry
  | key
  | value
  | recall (name : String)
  | anchor (name : String)
  | tag (handle suffix : String)
  | scalar (text : String) (style : Style)
  deriving Repr, DecidableEq, Inhabited

end IndexFleet.Yaml
