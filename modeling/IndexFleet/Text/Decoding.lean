import IndexFleet.Log
import IndexFleet.Text.Utf8

namespace IndexFleet.Text

def damageNotes (bytes : Bytes) (source : String) : Log :=
  if Utf8.damaged bytes then
    [.warn s!"invalid UTF-8 in {source} replaced: {Utf8.decode bytes}"]
  else []

end IndexFleet.Text
