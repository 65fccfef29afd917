import Lobbylink.Server.Protocol
import Mathlib.Data.List.Basic

/-! One room: its slots, the message fan-out with its slow-consumer cascade, the
three ways to acquire a slot, and the per-session operations. Each operation
runs under the room lock, so it is a function of the room and of what the calls
it makes answer (`Env`); the calls made on transports are recorded in order. -/
namespace Lobbylink.Server.Lobby
open Protocol

/-- The identity of a transport; Go compares `Conn` values by pointer. -/
abbrev Conn := Nat

/-- `[sha256.Size]byte`. -/
abbrev TokenHash := List UInt8

def zeroHash : TokenHash := List.replicate 32 0

structure Slot where
  occupied : Bool := false
  conn : Option Conn := none
  hasToken : Bool := false
  tokenHash : TokenHash := zeroHash
  joinedAt : Time := 0
  lastSeenAt : Time := 0
  deriving DecidableEq, Repr

/-- A room has one slot for each of its players throughout its life. -/
structure Room where
  destroyed : Bool
  code : String
  appID : String
  opts : RoomOptions
  started : Bool
  slots : List Slot
  slots_length : slots.length = opts.maxPlayers
  createdAt : Time
  emptySince : Time
  lastActivity : Time

/-- A call the lobby makes on a transport. -/
inductive Out where
  | enqueue (conn : Conn) (msg : Msg) (accepted : Bool)
  | kick (conn : Conn) (code : ErrCode) (message : String)
  deriving DecidableEq, Repr

/-- What one operation reads from outside the room: the clock, the token
generator (`none` when it fails), the answer of every `Enqueue`, and the clock
again whenever a broadcast ends. The last two are indexed by the number of
transport calls made before. -/
structure Env where
  now : Time
  token : Option String
  accepts : Nat → Bool
  clock : Nat → Time

/-- The room as an operation finds it so far, and the transport calls it made. -/
structure Call where
  room : Room
  out : List Out

def Room.slot (r : Room) (i : Nat) : Slot := r.slots.getD i {}

def Room.modifySlot (r : Room) (i : Nat) (f : Slot → Slot) : Room :=
  { r with
    slots := r.slots.modify i f
    slots_length := by rw [List.length_modify, r.slots_length] }

def Slot.clearConn (s : Slot) : Slot := { s with conn := none }

def Call.modifySlot (s : Call) (i : Nat) (f : Slot → Slot) : Call :=
  { s with room := s.room.modifySlot i f }

/-- The answer the next `Enqueue` will give. -/
def Call.accepts (s : Call) (env : Env) : Bool := env.accepts s.out.length

def Call.enqueue (s : Call) (env : Env) (conn : Conn) (msg : Msg) : Call :=
  { s with out := s.out ++ [.enqueue conn msg (s.accepts env)] }

def Call.kick (s : Call) (conn : Conn) (code : ErrCode) (message : String) : Call :=
  { s with out := s.out ++ [.kick conn code message] }

/-- `isCurrentLocked`. -/
def Room.isCurrent (r : Room) (playerID : Int) (conn : Conn) : Bool :=
  if playerID < 0 || playerID ≥ r.slots.length then false
  else
    let s := r.slot playerID.toNat
    s.occupied && s.conn == some conn

def Room.occupiedCount (r : Room) : Nat := r.slots.countP (·.occupied)

def Slot.holdsToken (s : Slot) (hash : TokenHash) : Bool :=
  s.occupied && s.hasToken && s.tokenHash == hash

/-- `findTokenLocked`: the first slot whose stored hash is the token's. -/
def Room.findToken (sha256 : String → TokenHash) (r : Room) (token : String) : Option Nat :=
  r.slots.findIdx? (·.holdsToken (sha256 token))

def lastSeenMsAgo (now : Time) (s : Slot) : Int :=
  if s.occupied then max 0 (Duration.milliseconds (Time.sub now s.lastSeenAt)) else 0

/-- `snapshotLocked`. -/
def Room.snapshot (r : Room) (now : Time) : List PlayerInfo :=
  r.slots.mapIdx fun i s => ⟨i, s.occupied, s.conn.isSome, lastSeenMsAgo now s⟩

def Room.updateEmpty (r : Room) (now : Time) : Room :=
  if r.slots.any (·.conn.isSome) then { r with emptySince := 0 }
  else if Time.isZero r.emptySince then { r with emptySince := now }
  else r

def Call.updateEmpty (s : Call) (now : Time) : Call :=
  { s with room := s.room.updateEmpty now }

def slowConsumerText : String := "outbound queue overflow"

def sendAllLoop (env : Env) (msg : Msg) (except : Option Nat) :
    List Nat → Call → Call × List Nat
  | [], s => (s, [])
  | i :: rest, s =>
    if some i = except then sendAllLoop env msg except rest s
    else match (s.room.slot i).conn with
      | none => sendAllLoop env msg except rest s
      | some c =>
        if s.accepts env then sendAllLoop env msg except rest (s.enqueue env c msg)
        else
          let s := ((s.enqueue env c msg).modifySlot i Slot.clearConn).kick c
            .slowConsumer slowConsumerText
          let (s, dead) := sendAllLoop env msg except rest s
          (s, i :: dead)

/-- Returns the slots whose transport refused the message. -/
def sendAllLocked (env : Env) (msg : Msg) (except : Option Nat) (s : Call) :
    Call × List Nat :=
  sendAllLoop env msg except (List.range s.room.slots.length) s

def leftMsg (id : Nat) : Msg := .playerLeft id .disconnected

/-- One pass over the dropped players; the drops it causes are the next pass. -/
def announceLoop (env : Env) : List Nat → Call → Call × List Nat
  | [], s => (s, [])
  | id :: rest, s =>
    let (s, more) := sendAllLocked env (leftMsg id) none s
    let (s, next) := announceLoop env rest s
    (s, more ++ next)

/-- `for len(dead) > 0`. Every pass that yields another drops a transport, so
one pass more than there are slots is always enough. -/
def announceAll (env : Env) : Nat → List Nat → Call → Call
  | 0, _, s => s
  | _ + 1, [], s => s
  | fuel + 1, dead, s =>
    let (s, next) := announceLoop env dead s
    announceAll env fuel next s

def broadcastLocked (env : Env) (msg : Msg) (except : Option Nat) (s : Call) : Call :=
  let (s, dead) := sendAllLocked env msg except s
  let s := announceAll env (s.room.slots.length + 1) dead s
  s.updateEmpty (env.clock s.out.length)

/-- The `JoinResult` of `deliverJoinedLocked`. -/
def joinResult (r : Room) (id : Nat) (token : String) (now : Time) : Joined where
  code := r.code
  selfID := id
  maxPlayers := r.opts.maxPlayers
  started := r.started
  resumeToken := token
  players := r.snapshot now

/-- The server's `build` callback, without the ICE servers it adds. -/
def buildJoined (r : Room) (id : Nat) (token : String) (now : Time) : Msg :=
  .joined (joinResult r id token now)

def deliverJoinedLocked (env : Env) (id : Nat) (token : String) (conn : Conn) (s : Call) :
    Call :=
  let s' := s.enqueue env conn (buildJoined s.room id token env.now)
  if s.accepts env then s'
  else ((s'.modifySlot id Slot.clearConn).kick conn .slowConsumer slowConsumerText).updateEmpty
    env.now

/-- `newToken`: the token and its hash, or nothing when the generator fails. -/
def newToken (sha256 : String → TokenHash) (env : Env) : Option (String × TokenHash) :=
  env.token.map fun token => (token, sha256 token)

def tokenFailed : ProtoError := ⟨.internal, "token generation failed"⟩

/-- Detaches and kicks the transport a slot still has, if any. -/
def Call.displace (s : Call) (id : Nat) (code : ErrCode) (message : String) : Call :=
  match (s.room.slot id).conn with
  | none => s
  | some old => (s.modifySlot id Slot.clearConn).kick old code message

def Slot.resumed (conn : Conn) (hash : TokenHash) (now : Time) (t : Slot) : Slot :=
  { t with conn := some conn, tokenHash := hash, hasToken := true, lastSeenAt := now }

def Slot.replaced (conn : Conn) (hash : TokenHash) (now : Time) (t : Slot) : Slot :=
  { t with conn := some conn, tokenHash := hash, hasToken := true, joinedAt := now,
           lastSeenAt := now }

def Slot.occupiedBy (conn : Conn) (hash : TokenHash) (now : Time) : Slot where
  occupied := true
  conn := some conn
  hasToken := true
  tokenHash := hash
  joinedAt := now
  lastSeenAt := now

def supersededText : String := "another connection resumed this player slot"
def replacedText : String := "your player slot was claimed after inactivity"

def resumeLocked (sha256 : String → TokenHash) (env : Env) (id : Nat) (conn : Conn)
    (s : Call) : Call × Except ProtoError Nat :=
  match newToken sha256 env with
  | none => (s, .error tokenFailed)
  | some (token, hash) =>
    let s := s.displace id .superseded supersededText
    let s := s.modifySlot id (Slot.resumed conn hash env.now)
    let s := s.updateEmpty env.now
    let s := deliverJoinedLocked env id token conn s
    let s := broadcastLocked env (.playerRejoined id false) (some id) s
    (s, .ok id)

/-- Whether taking one more slot fulfils the start condition. -/
def Room.startsNow (r : Room) : Bool :=
  !r.started && (!r.opts.waitUntilFull || r.occupiedCount == r.opts.maxPlayers)

def Room.start (r : Room) : Room := if r.startsNow then { r with started := true } else r

def occupyLocked (sha256 : String → TokenHash) (env : Env) (id : Nat) (conn : Conn)
    (s : Call) : Call × Except ProtoError Nat :=
  match newToken sha256 env with
  | none => (s, .error tokenFailed)
  | some (token, hash) =>
    let s := s.modifySlot id fun _ => Slot.occupiedBy conn hash env.now
    let startedNow := s.room.startsNow
    let s := { s with room := s.room.start }
    let s := s.updateEmpty env.now
    let s := deliverJoinedLocked env id token conn s
    let s := broadcastLocked env (.playerJoined id (s.room.snapshot env.now)) (some id) s
    let s := if startedNow then broadcastLocked env .roomStarted (some id) s else s
    (s, .ok id)

def replaceLocked (sha256 : String → TokenHash) (env : Env) (id : Nat) (conn : Conn)
    (s : Call) : Call × Except ProtoError Nat :=
  match newToken sha256 env with
  | none => (s, .error tokenFailed)
  | some (token, hash) =>
    let s := s.displace id .replaced replacedText
    let s := s.modifySlot id (Slot.replaced conn hash env.now)
    let s := s.updateEmpty env.now
    let s := deliverJoinedLocked env id token conn s
    let s := broadcastLocked env (.playerReplaced id) (some id) s
    (s, .ok id)

def Call.activity (s : Call) (now : Time) : Call :=
  { s with room := { s.room with lastActivity := now } }

def outOfRange (id : Int) (r : Room) : ProtoError :=
  ⟨.invalidTarget, "playerId " ++ toString id ++ " out of range 0.." ++
    toString ((r.slots.length : Int) - 1)⟩

/-- The part of `Signal` after the sender is known to hold its slot. -/
def relay (env : Env) (playerID : Nat) (target : Int) (payload : String) (s : Call) :
    Call × Except ProtoError Unit :=
  if target = playerID then (s, .error ⟨.invalidTarget, "cannot signal yourself"⟩)
  else if target < 0 ∨ target ≥ s.room.slots.length then (s, .error (outOfRange target s.room))
  else
    let dest := target.toNat
    if (s.room.slot dest).occupied = false then
      (s, .error ⟨.invalidTarget, "no player in slot " ++ toString target⟩)
    else match (s.room.slot dest).conn with
      | none => (s, .error ⟨.targetUnavailable,
          "player " ++ toString target ++ " has no active connection"⟩)
      | some c =>
        let s' := s.enqueue env c (.signal playerID payload)
        if s.accepts env then (s', .ok ())
        else
          let s' := (s'.modifySlot dest Slot.clearConn).kick c .slowConsumer slowConsumerText
          let s' := broadcastLocked env (leftMsg dest) none s'
          (s'.updateEmpty env.now, .error ⟨.targetUnavailable,
            "player " ++ toString target ++ " dropped (slow consumer)"⟩)

def signal (env : Env) (playerID : Int) (conn : Conn) (target : Int) (payload : String)
    (s : Call) : Call × Except ProtoError Unit :=
  if s.room.destroyed then (s, .error ⟨.roomExpired, "room no longer exists"⟩)
  else if !s.room.isCurrent playerID conn then
    (s, .error ⟨.notJoined, "this connection no longer holds player " ++ toString playerID⟩)
  else
    let s := (s.modifySlot playerID.toNat fun t =>
      { t with lastSeenAt := env.now }).activity env.now
    relay env playerID.toNat target payload s

def leave (env : Env) (playerID : Int) (conn : Conn) (s : Call) : Call :=
  if s.room.destroyed || !s.room.isCurrent playerID conn then s
  else
    let id := playerID.toNat
    let s := s.modifySlot id fun t =>
      { t with occupied := false, conn := none, hasToken := false, tokenHash := zeroHash }
    let s := s.activity env.now
    let s := broadcastLocked env (.playerLeft id .explicit) none s
    s.updateEmpty env.now

/-- `lastSeenAt` stays at the last message, so the silence clock keeps running. -/
def disconnect (env : Env) (playerID : Int) (conn : Conn) (s : Call) : Call :=
  if s.room.destroyed || !s.room.isCurrent playerID conn then s
  else
    let id := playerID.toNat
    let s := s.modifySlot id Slot.clearConn
    let s := broadcastLocked env (leftMsg id) none s
    s.updateEmpty env.now

def touch (env : Env) (playerID : Int) (conn : Conn) (s : Call) : Call :=
  if s.room.destroyed || !s.room.isCurrent playerID conn then s
  else (s.modifySlot playerID.toNat fun t => { t with lastSeenAt := env.now }).activity env.now

end Lobbylink.Server.Lobby
