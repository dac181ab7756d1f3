import IndexFleet.AbsolutePath
import IndexFleet.Dialogue
import IndexFleet.Duration
import IndexFleet.Failure
import IndexFleet.Settings
import IndexFleet.Text.Percent
import IndexFleet.Wire

namespace IndexFleet

structure Client where
  host : String
  port : Port
  -- how long to wait for each piece of an answer, in milliseconds
  readTimeout : Nat
  deriving Repr, DecidableEq, Inhabited

namespace Client

def toServer (host : String) (port : Port) (timeouts : Timeouts) : Client :=
  ⟨host, port, timeouts.read⟩

def address (client : Client) : String := addressOf client.host client.port

def broken (client : Client) (message : String) : Failure :=
  .transport client.address message

-- Why a call cannot be made. Of an address that is none there is nothing to tell.
def unsendable (client : Client) (request : Request) : String :=
  if Network.isHost client.host then s!"builder error for url ({request.url})"
  else "builder error"

def outcome (client : Client) (request : Request) (reply : Reply) : Except Failure String :=
  let sending := s!"error sending request for url ({request.url})"
  match reply with
  | .answered status body =>
      let text := Text.Utf8.decode body
      if 200 ≤ status ∧ status < 300 then .ok text
      else .error (.rejected client.address status text)
  | .refused => .error (client.broken s!"connection failed: {sending}")
  | .unaddressable => .error (client.broken (client.unsendable request))
  | .dropped => .error (client.broken sending)
  | .unanswered =>
      .error (client.broken s!"timed out after {Duration.render client.readTimeout}: {sending}")
  | .truncated => .error (client.broken "error decoding response body")

def send (client : Client) (request : Request) : Dialogue (Except Failure String) :=
  .ask request fun reply => .done (client.outcome request reply)

def post (client : Client) (path contentType body : String) : Request :=
  ⟨client.host, client.port, .post, path, some contentType, body⟩

def get (client : Client) (path : String) : Request :=
  ⟨client.host, client.port, .get, path, none, ""⟩

def updateRequest (client : Client) (xml : String) : Request :=
  client.post Wire.updatePath Wire.xmlType xml

def rowsRequest (client : Client) (rows : String) : Request :=
  client.post Wire.rowsPath Wire.rowsType rows

def streamFileRequest (client : Client) (absolute : String) : Request :=
  client.get (Wire.streamFilePath ++ Text.Percent.encode absolute)

def pingRequest (client : Client) : Request := client.get Wire.pingPath

def update (client : Client) (xml : String) : Dialogue (Except Failure String) :=
  client.send (client.updateRequest xml)

def pushRows (client : Client) (rows : String) : Dialogue (Except Failure String) :=
  client.send (client.rowsRequest rows)

-- The path goes into the address as text, whatever its bytes are.
def streamFile (client : Client) (home : List Text.Bytes) (path : String) :
    Dialogue (Except Failure String) :=
  match AbsolutePath.ofPath home (Text.utf8 path) with
  | .ok absolute => client.send (client.streamFileRequest (Text.Utf8.decode absolute))
  | .error fault => .done (.error (.io fault.message))

def ping (client : Client) : Dialogue (Except Failure String) :=
  client.send client.pingRequest

end Client

end IndexFleet
