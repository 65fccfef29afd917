import Mathlib.Algebra.Group.Int.Defs
import Mathlib.Data.Int.Basic

/-! The wire protocol of the lobby server: message types, error codes, and the
validation every client message passes before it reaches a room. Decoding JSON
is the standard library's; a frame enters the model as the decoded record. -/
namespace Lobbylink.Server.Protocol

/-- Nanoseconds; `0` is Go's zero `time.Time`. -/
abbrev Time := Int
abbrev Duration := Int

def millisecond : Duration := 1000000
def second : Duration := 1000 * millisecond
def hour : Duration := 3600 * second
def maxDuration : Duration := 2 ^ 63 - 1
def minDuration : Duration := -2 ^ 63

def Time.isZero (t : Time) : Bool := t == 0

/-- `Time.Sub` saturates instead of overflowing. -/
def Time.sub (t u : Time) : Duration := max minDuration (min maxDuration (t - u))

/-- `Duration.Milliseconds` truncates toward zero. -/
def Duration.milliseconds (d : Duration) : Int := d.tdiv millisecond

inductive ErrCode where
  | invalidMessage | invalidCode | invalidCreate | unknownApp | appMismatch
  | originForbidden | roomNotFound | roomFull | roomStarted | tooManyRooms
  | alreadyJoined | notJoined | invalidTarget | targetUnavailable
  | claimNotAllowed | slotNotClaimable | replaced | superseded | roomExpired
  | slowConsumer | internal
  deriving DecidableEq, Repr

/-- The code as it stands on the wire. -/
def ErrCode.text : ErrCode → String
  | .invalidMessage => "invalid-message"
  | .invalidCode => "invalid-code"
  | .invalidCreate => "invalid-create"
  | .unknownApp => "unknown-app"
  | .appMismatch => "app-mismatch"
  | .originForbidden => "origin-forbidden"
  | .roomNotFound => "room-not-found"
  | .roomFull => "room-full"
  | .roomStarted => "room-started"
  | .tooManyRooms => "too-many-rooms"
  | .alreadyJoined => "already-joined"
  | .notJoined => "not-joined"
  | .invalidTarget => "invalid-target"
  | .targetUnavailable => "target-unavailable"
  | .claimNotAllowed => "claim-not-allowed"
  | .slotNotClaimable => "slot-not-claimable"
  | .replaced => "replaced"
  | .superseded => "session-superseded"
  | .roomExpired => "room-expired"
  | .slowConsumer => "slow-consumer"
  | .internal => "internal"

inductive LeftReason where
  | explicit | disconnected
  deriving DecidableEq, Repr

def LeftReason.text : LeftReason → String
  | .explicit => "explicit-leave"
  | .disconnected => "disconnected"

/-- The policy field is a string on the wire; `other` is any text that is not
one of the four named policies. -/
inductive ReconnectPolicy where
  | tokenOnly | tokenOrClaimAfterTimeout | claimAfterTimeout | hostApproval
  | other (text : String)
  deriving DecidableEq, Repr

def ReconnectPolicy.text : ReconnectPolicy → String
  | .tokenOnly => "token-only"
  | .tokenOrClaimAfterTimeout => "token-or-claim-after-timeout"
  | .claimAfterTimeout => "claim-after-timeout"
  | .hostApproval => "host-approval"
  | .other text => text

def ReconnectPolicy.valid : ReconnectPolicy → Bool
  | .tokenOnly | .tokenOrClaimAfterTimeout | .claimAfterTimeout => true
  | _ => false

def ReconnectPolicy.allowsClaim (p : ReconnectPolicy) : Bool :=
  p == .tokenOrClaimAfterTimeout || p == .claimAfterTimeout

def defaultReconnectPolicy : ReconnectPolicy := .tokenOrClaimAfterTimeout

structure ProtoError where
  code : ErrCode
  message : String
  deriving DecidableEq, Repr

/-- `%q` of a text without characters that need escaping, as room codes are. -/
def quote (text : String) : String := "\"" ++ text ++ "\""

structure CreateOptions where
  maxPlayers : Int
  waitUntilFull : Option Bool := none
  allowLateJoin : Option Bool := none
  allowReconnect : Option Bool := none
  allowReplacement : Option Bool := none
  reconnectPolicy : Option ReconnectPolicy := none
  claimAfterMs : Option Int := none

/-- The resolved form. A room with no slots cannot be asked for. -/
structure RoomOptions where
  maxPlayers : Nat
  positive : 1 ≤ maxPlayers
  waitUntilFull : Bool
  allowLateJoin : Bool
  allowReconnect : Bool
  allowReplacement : Bool
  reconnectPolicy : ReconnectPolicy
  claimAfter : Duration

def boolOr (p : Option Bool) (default : Bool) : Bool := p.getD default

/-- The policy check of `ResolveCreate`. -/
def resolvePolicy (p : Option ReconnectPolicy) : Except ProtoError ReconnectPolicy :=
  match p with
  | none => .ok defaultReconnectPolicy
  | some p =>
    if p.valid then .ok p
    else .error ⟨.invalidCreate, "unsupported reconnectPolicy " ++ quote p.text⟩

/-- The `claimAfterMs` check of `ResolveCreate`. -/
def resolveClaimAfter (ms : Option Int) (default : Duration) : Except ProtoError Duration :=
  match ms with
  | none => .ok default
  | some ms =>
    if ms < 0 then .error ⟨.invalidCreate, "claimAfterMs must be >= 0"⟩
    else if ms > (24 * hour).tdiv millisecond then
      .error ⟨.invalidCreate, "claimAfterMs exceeds 24h"⟩
    else .ok (ms * millisecond)

def resolveCreate (opts : CreateOptions) (hardMaxPlayers : Int)
    (defaultClaimAfter : Duration) : Except ProtoError RoomOptions :=
  if h : opts.maxPlayers < 1 then
    .error ⟨.invalidCreate, "maxPlayers must be >= 1"⟩
  else if opts.maxPlayers > hardMaxPlayers then
    .error ⟨.invalidCreate, "maxPlayers " ++ toString opts.maxPlayers ++
      " exceeds limit " ++ toString hardMaxPlayers⟩
  else do
    let policy ← resolvePolicy opts.reconnectPolicy
    let claimAfter ← resolveClaimAfter opts.claimAfterMs defaultClaimAfter
    return {
      maxPlayers := opts.maxPlayers.toNat
      positive := by omega
      waitUntilFull := boolOr opts.waitUntilFull false
      allowLateJoin := boolOr opts.allowLateJoin true
      allowReconnect := boolOr opts.allowReconnect true
      allowReplacement := boolOr opts.allowReplacement true
      reconnectPolicy := policy
      claimAfter := claimAfter }

def minCodeLen : Nat := 4
def maxCodeLen : Nat := 64

def codeChar (c : Char) : Bool :=
  ('A' ≤ c && c ≤ 'Z') || ('a' ≤ c && c ≤ 'z') || ('0' ≤ c && c ≤ '9') ||
    c == '_' || c == '-'

/-- The first byte of the character in UTF-8, as `string(c)` shows it. -/
def firstByte (c : Char) : Char :=
  if c.toNat < 0x80 then c
  else if c.toNat < 0x800 then Char.ofNat (0xC0 + c.toNat / 0x40)
  else if c.toNat < 0x10000 then Char.ofNat (0xE0 + c.toNat / 0x1000)
  else Char.ofNat (0xF0 + c.toNat / 0x40000)

/-- `len` counts bytes, and the loop stops at the first byte outside the set. -/
def validateCode (code : String) : Except ProtoError Unit :=
  if code.utf8ByteSize < minCodeLen || code.utf8ByteSize > maxCodeLen then
    .error ⟨.invalidCode, "room code must be " ++ toString minCodeLen ++ "-" ++
      toString maxCodeLen ++ " characters"⟩
  else match code.toList.find? (fun c => !codeChar c) with
    | some c => .error ⟨.invalidCode,
        "room code contains invalid character " ++ quote (String.singleton (firstByte c))⟩
    | none => .ok ()

def maxResumeTokenLen : Nat := 128

inductive SignalKind where
  | offer | answer | ice
  | other (text : String)
  deriving DecidableEq, Repr

/-- A relayed payload: the raw JSON text, and what decoding its `kind` gives. -/
structure Payload where
  raw : String
  kind : Except String SignalKind

inductive ClientType where
  | join | claimSlot | signal | leave | missing
  | unknown (text : String)
  deriving DecidableEq, Repr

/-- The decoded envelope of a client message. -/
structure ClientMessage where
  type : ClientType
  appID : String := ""
  code : String := ""
  resumeToken : String := ""
  create : Option CreateOptions := none
  playerID : Option Int := none
  toPlayer : Option Int := none
  payload : Payload := ⟨"", .error ""⟩

def validateSignalPayload (payload : Payload) : Except ProtoError Unit :=
  if payload.raw.utf8ByteSize = 0 then
    .error ⟨.invalidMessage, "signal requires payload"⟩
  else match payload.kind with
    | .error text =>
      .error ⟨.invalidMessage, "signal payload must be a JSON object: " ++ text⟩
    | .ok .offer | .ok .answer | .ok .ice => .ok ()
    | .ok (.other _) =>
      .error ⟨.invalidMessage, "signal payload kind must be offer, answer, or ice"⟩

/-- `data` is the outcome of `json.Unmarshal` on the frame. -/
def parseClientMessage (data : Except String ClientMessage) :
    Except ProtoError ClientMessage :=
  match data with
  | .error text => .error ⟨.invalidMessage, "malformed JSON: " ++ text⟩
  | .ok m =>
    match m.type with
    | .join => do
      validateCode m.code
      if m.resumeToken.utf8ByteSize > maxResumeTokenLen then
        throw ⟨.invalidMessage, "resumeToken too long"⟩
      return m
    | .claimSlot => do
      validateCode m.code
      if m.playerID.isNone then
        throw ⟨.invalidMessage, "claim-slot requires playerId"⟩
      return m
    | .signal => do
      if m.toPlayer.isNone then
        throw ⟨.invalidMessage, "signal requires 'to'"⟩
      validateSignalPayload m.payload
      return m
    | .leave => .ok m
    | .missing => .error ⟨.invalidMessage, "missing message type"⟩
    | .unknown text => .error ⟨.invalidMessage, "unknown message type " ++ quote text⟩

structure PlayerInfo where
  id : Nat
  occupied : Bool
  connected : Bool
  lastSeenMsAgo : Int
  deriving DecidableEq, Repr

structure Joined where
  code : String
  selfID : Nat
  maxPlayers : Nat
  started : Bool
  resumeToken : String
  players : List PlayerInfo
  deriving DecidableEq, Repr

/-- Server to client messages. A relayed payload is carried as its raw text. -/
inductive Msg where
  | joined (msg : Joined)
  | playerJoined (playerID : Nat) (players : List PlayerInfo)
  | playerLeft (playerID : Nat) (reason : LeftReason)
  | playerRejoined (playerID : Nat) (wasReplacement : Bool)
  | playerReplaced (playerID : Nat)
  | roomStarted
  | signal (source : Nat) (payload : String)
  | error (code : ErrCode) (message : String)
  deriving DecidableEq, Repr

def errorMessage (err : ProtoError) : Msg := .error err.code err.message

theorem resolveCreate_maxPlayers {opts : CreateOptions} {hard : Int} {after : Duration}
    {r : RoomOptions} (h : resolveCreate opts hard after = .ok r) :
    (r.maxPlayers : Int) = opts.maxPlayers ∧ (r.maxPlayers : Int) ≤ hard := by
  unfold resolveCreate at h
  split at h
  · cases h
  split at h
  · cases h
  rename_i hlow hhigh
  cases hp : resolvePolicy opts.reconnectPolicy with
  | error e => simp [hp, bind, Except.bind] at h
  | ok policy =>
    cases hc : resolveClaimAfter opts.claimAfterMs after with
    | error e => simp [hp, hc, bind, Except.bind] at h
    | ok claimAfter =>
      simp only [hp, hc, bind, Except.bind, pure, Except.pure] at h
      cases h
      simp only
      omega

end Lobbylink.Server.Protocol
