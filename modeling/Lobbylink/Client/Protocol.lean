import Lobbylink.Server.Protocol

/-! The signalling messages as the client reads them. `decode` is what its JSON
layer makes of a server message; a frame it cannot parse is dropped. -/
namespace Lobbylink.Client.Protocol
open Server.Protocol (Msg)

/-- A slot index; the server allows at most 1024 slots, so `u16` never overflows. -/
abbrev PlayerId := Nat

structure WirePlayer where
  id : PlayerId
  occupied : Bool
  connected : Bool

/-- Without the ICE servers, which the roster and the tokens do not depend on. -/
structure JoinedMsg where
  code : String
  selfId : PlayerId
  maxPlayers : Nat
  started : Bool
  resumeToken : String
  players : List WirePlayer

/-- A session description is opaque text to the client. -/
inductive SignalPayload (Sdp : Type) where
  | offer (sdp : Sdp)
  | answer (sdp : Sdp)
  | ice (candidate : Option String)
  | unknown
  deriving DecidableEq, Repr

inductive ServerMessage (Sdp : Type) where
  | joined (msg : JoinedMsg)
  | playerJoined (playerId : PlayerId) (players : List WirePlayer)
  | playerLeft (playerId : PlayerId) (reason : String)
  | playerRejoined (playerId : PlayerId) (wasReplacement : Bool)
  | playerReplaced (playerId : PlayerId)
  | roomStarted
  | signal (source : PlayerId) (payload : SignalPayload Sdp)
  | error (code : String) (message : String)
  | unknown

/-- Server error codes after which the WebSocket will not come back. -/
def isFatalCode (code : String) : Bool :=
  code == "replaced" || code == "session-superseded" || code == "room-expired" ||
    code == "slow-consumer"

/-- Fatal codes that also mean our peers are gone or we left the room. -/
def isGameOverCode (code : String) : Bool :=
  code == "replaced" || code == "session-superseded" || code == "room-expired"

theorem isFatalCode_of_gameOver {code : String} (h : isGameOverCode code = true) :
    isFatalCode code = true := by
  simp only [isGameOverCode, isFatalCode, Bool.or_eq_true] at h ⊢
  exact .inl h

inductive PlayerLeftReason where
  | explicitLeave | disconnected
  deriving DecidableEq, Repr

/-- Anything other than an explicit leave counts as a disconnect. -/
def PlayerLeftReason.fromWire (reason : String) : PlayerLeftReason :=
  if reason = "explicit-leave" then .explicitLeave else .disconnected

def wirePlayer (p : Server.Protocol.PlayerInfo) : WirePlayer := ⟨p.id, p.occupied, p.connected⟩

/-- `payloadOf` parses the relayed payload, which the server passes on unchanged. -/
def decode {Sdp : Type} (payloadOf : String → Option (SignalPayload Sdp)) :
    Msg → Option (ServerMessage Sdp)
  | .joined m => some (.joined ⟨m.code, m.selfID, m.maxPlayers, m.started, m.resumeToken,
      m.players.map wirePlayer⟩)
  | .playerJoined id players => some (.playerJoined id (players.map wirePlayer))
  | .playerLeft id reason => some (.playerLeft id reason.text)
  | .playerRejoined id wasReplacement => some (.playerRejoined id wasReplacement)
  | .playerReplaced id => some (.playerReplaced id)
  | .roomStarted => some .roomStarted
  | .signal source payload => (payloadOf payload).map (.signal source)
  | .error code message => some (.error code.text message)

end Lobbylink.Client.Protocol
