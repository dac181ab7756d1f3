import IndexFleet.Command
import IndexFleet.Text.Decoding
import IndexFleet.Text.Lines

namespace IndexFleet

-- Uploads rows one by one, each below the header. Rows that the server refuses are skipped; a
-- server that is out of reach ends the upload.
def Client.pushOneByOne (client : Client) (header : String) :
    List String → Dialogue (Except Failure Unit)
  | [] => pure (.ok ())
  | row :: rest => do
      match ← client.pushRows (header ++ "\n" ++ row) with
      | .ok _ => client.pushOneByOne header rest
      | .error failure =>
          if failure.isTransport then
            Dialogue.tell (.error failure.message)
            pure (.error failure)
          else
            Dialogue.tell (.warn failure.message)
            Dialogue.tell (.warn s!"skipping invalid line: {row}")
            client.pushOneByOne header rest

def Client.rowsOneByOne (body : String) : Option (String × List String) :=
  match Text.lines body with
  | [] => none
  | header :: rest => some (header, rest.filter (!·.isEmpty))

-- Uploads a header with its rows. If the server refuses the whole, it gets the rows one by one.
def Client.pushWithFallback (client : Client) (source body : String) :
    Dialogue (Except Failure String) := do
  match ← client.pushRows body with
  | .ok answer => pure (.ok answer)
  | .error failure =>
      if failure.isRejection then
        Dialogue.tell (.warn failure.message)
        Dialogue.tell (.warn s!"adding {source} one by one...")
        match Client.rowsOneByOne body with
        | none => pure (.ok "")
        | some (header, rows) => do
            let result ← client.pushOneByOne header rows
            pure (result.map fun _ => "")
      else
        Dialogue.tell (.error failure.message)
        pure (.error failure)

namespace Command

def withArgument (command : Command) (k : String → Dialogue (Except Failure String)) :
    Dialogue (Except Failure String) :=
  match command.argument with
  | some argument => k argument
  | none => pure (.error (missingArgument command.kind))

def dialogue (tree : FileTree) (command : Command) : Dialogue (Except Failure String) :=
  let client := command.client
  match command.kind with
  | .addFile => command.withArgument fun path => do
      Dialogue.tell (.info s!"adding tsv file: {path}")
      match tree.read path with
      | .error fault => pure (.error (.io fault.message))
      | .ok bytes =>
          Dialogue.tellAll (Text.damageNotes bytes path)
          client.pushWithFallback path (Text.Utf8.decode bytes)
  | .addData => command.withArgument fun rows => client.pushWithFallback "chunk" rows
  | .deleteAll => client.update Wire.deleteAllBody
  | .delete => command.withArgument fun query => client.update (Wire.deleteBody query)
  | .commit => client.update Wire.commitBody
  | .softCommit => client.update Wire.softCommitBody
  | .optimize => client.update Wire.optimizeBody
  | .ping => client.ping
  | .updateViaStreamFile => command.withArgument fun path => do
      Dialogue.tell (.info s!"adding tsv file via stream.file: {path}")
      client.streamFile tree.home path

end Command

end IndexFleet
