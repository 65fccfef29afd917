import Lobbylink.Client.Protocol
import Lobbylink.Java.Json
import Lobbylink.Lib.Utf16

/-! The messages of the server as JSON values, and what `serde` makes of them for the Rust
client: a field of the wrong type, or a missing one without a default, is an error. -/
namespace Lobbylink.System.Wire
open Client.Protocol
open Java.Json (JString Value units)

variable {D : Type}

def utf16 (s : String) : JString := Lib.Utf16.encode s.toList

def member (m : List (JString × Value D)) (key : String) : Option (Value D) :=
  (m.find? fun e => e.1 = units key).map Prod.snd

def members : Value D → Option (List (JString × Value D))
  | .map m => some m
  | _ => none

/-- A `u16`. -/
def playerId : Value D → Option PlayerId
  | .long n => if 0 ≤ n.toInt ∧ n.toInt < 2 ^ 16 then some n.toInt.toNat else none
  | _ => none

def boolean : Value D → Option Bool
  | .bool b => some b
  | _ => none

/-- Half of a pair that stands alone is an error. -/
def string : Value D → Option String
  | .string s => (Lib.Utf16.decode s).map String.ofList
  | _ => none

def booleanOr (default : Bool) : Option (Value D) → Option Bool
  | none => some default
  | some v => boolean v

def wirePlayer (v : Value D) : Option WirePlayer := do
  let m ← members v
  let id ← (member m "id").bind playerId
  let occupied ← booleanOr false (member m "occupied")
  let connected ← booleanOr false (member m "connected")
  return ⟨id, occupied, connected⟩

def players : Value D → Option (List WirePlayer)
  | .list l => l.mapM wirePlayer
  | _ => none

/-- `raw` is the text of a candidate, which the client does not look into. -/
def signalPayload (raw : Value D → String) (v : Value D) : Option (SignalPayload String) := do
  let m ← members v
  let kind ← (member m "kind").bind string
  if kind = "offer" then return .offer (← (member m "sdp").bind string)
  else if kind = "answer" then return .answer (← (member m "sdp").bind string)
  else if kind = "ice" then
    match member m "candidate" with
    | none | some .null => return .ice none
    | some candidate => return .ice (some (raw candidate))
  else return .unknown

/-- The ICE servers of a joined message are left out. -/
def joined (m : List (JString × Value D)) : Option JoinedMsg := do
  let code ← (member m "code").bind string
  let selfId ← (member m "selfId").bind playerId
  let maxPlayers ← (member m "maxPlayers").bind playerId
  let started ← booleanOr false (member m "started")
  let resumeToken ← (member m "resumeToken").bind string
  let players ← (member m "players").bind players
  return ⟨code, selfId, maxPlayers, started, resumeToken, players⟩

def serverMessage (raw : Value D → String) (v : Value D) : Option (ServerMessage String) := do
  let m ← members v
  let type ← (member m "type").bind string
  if type = "joined" then return .joined (← joined m)
  else if type = "player-joined" then
    return .playerJoined (← (member m "playerId").bind playerId) (← (member m "players").bind players)
  else if type = "player-left" then
    return .playerLeft (← (member m "playerId").bind playerId) (← (member m "reason").bind string)
  else if type = "player-rejoined" then
    return .playerRejoined (← (member m "playerId").bind playerId)
      (← (member m "wasReplacement").bind boolean)
  else if type = "player-replaced" then
    return .playerReplaced (← (member m "playerId").bind playerId)
  else if type = "room-started" then return .roomStarted
  else if type = "signal" then
    return .signal (← (member m "from").bind playerId) (← (member m "payload").bind (signalPayload raw))
  else if type = "error" then
    return .error (← (member m "code").bind string) (← (member m "message").bind string)
  else return .unknown

end Lobbylink.System.Wire
