import Lobbylink.Server.Lobby
import Lobbylink.Lib.Runs

/-! The manager: creating, joining, claiming and collecting rooms. The two locks
are always taken in the same order and a room's lock is acquired before the
manager's is released, so every operation below is one step of the lobby. -/
namespace Lobbylink.Server.Registry
open Protocol Lobby

structure Limits where
  emptyTTL : Duration
  maxTTL : Duration
  maxRooms : Int

/-- `Room` pointers are positions in `heap`, which keeps destroyed rooms too:
a session may still refer to one. `rooms` is the map of live rooms. -/
structure Manager where
  heap : List Room
  rooms : List (String × Nat)
  limits : Limits

structure Session where
  room : Nat
  playerID : Nat
  deriving DecidableEq, Repr

/-- What a reference outside the heap reads as; no session ever holds one. -/
def absent : Room where
  destroyed := true
  code := ""
  appID := ""
  opts := ⟨1, le_refl 1, false, false, false, false, .tokenOnly, 0⟩
  started := false
  slots := [{}]
  slots_length := rfl
  createdAt := 0
  emptySince := 0
  lastActivity := 0

def Manager.room (m : Manager) (ref : Nat) : Room := m.heap.getD ref absent

def Manager.setRoom (m : Manager) (ref : Nat) (r : Room) : Manager :=
  { m with heap := m.heap.set ref r }

def Manager.lookup (m : Manager) (code : String) : Option Nat := m.rooms.lookup code

/-- Runs `f` on the room under its lock, after the calls `out`. -/
def Manager.onRoom (m : Manager) (out : List Out) (ref : Nat) (f : Call → Call × α) :
    Manager × List Out × α :=
  let r := f ⟨m.room ref, out⟩
  (m.setRoom ref r.1.room, r.1.out, r.2)

def Limits.expired (limits : Limits) (now : Time) (r : Room) : Bool :=
  Time.sub now r.createdAt ≥ limits.maxTTL ||
    (!Time.isZero r.emptySince && Time.sub now r.emptySince ≥ limits.emptyTTL)

def expireLoop : List Nat → Call → Call
  | [], s => s
  | i :: rest, s => expireLoop rest (s.displace i .roomExpired "room expired")

def expireRoom (s : Call) : Call :=
  let s := { s with room := { s.room with destroyed := true } }
  expireLoop (List.range s.room.slots.length) s

structure Sweep where
  manager : Manager
  out : List Out
  destroyed : Nat

def gcRoom (now : Time) (sweep : Sweep) (entry : String × Nat) : Sweep :=
  let m := sweep.manager
  if m.limits.expired now (m.room entry.2) then
    let s := expireRoom ⟨m.room entry.2, sweep.out⟩
    { manager := { m.setRoom entry.2 s.room with
        rooms := m.rooms.filter (fun e => e.1 != entry.1) }
      out := s.out
      destroyed := sweep.destroyed + 1 }
  else sweep

/-- Go visits the map in any order; rooms are independent of each other here. -/
def gcLocked (now : Time) (m : Manager) : Sweep :=
  m.rooms.foldl (gcRoom now) ⟨m, [], 0⟩

def newRoom (appID code : String) (opts : RoomOptions) (now : Time) : Room where
  destroyed := false
  code := code
  appID := appID
  opts := opts
  started := false
  slots := List.replicate opts.maxPlayers {}
  slots_length := List.length_replicate
  createdAt := now
  emptySince := now
  lastActivity := now

def Manager.create (m : Manager) (r : Room) : Manager × Nat :=
  ({ m with heap := m.heap ++ [r], rooms := m.rooms ++ [(r.code, m.heap.length)] },
    m.heap.length)

def noLongerExists (code : String) : ProtoError :=
  ⟨.roomNotFound, "room " ++ quote code ++ " no longer exists"⟩

def differentApp (code : String) : ProtoError :=
  ⟨.appMismatch, "room " ++ quote code ++ " belongs to a different app"⟩

def freeSlot (r : Room) : Option Nat := r.slots.findIdx? (fun s => !s.occupied)

/-- The part of `Join` after the resume path. -/
def freshJoin (sha256 : String → TokenHash) (env : Env) (code : String) (conn : Conn)
    (s : Call) : Call × Except ProtoError Nat :=
  if s.room.started && !s.room.opts.allowLateJoin then
    (s, .error ⟨.roomStarted,
      "room " ++ quote code ++ " has started and does not allow late join"⟩)
  else match freeSlot s.room with
    | none => (s, .error ⟨.roomFull, "room " ++ quote code ++ " is full"⟩)
    | some id => occupyLocked sha256 env id conn s

/-- The part of `Join` under the room lock. -/
def joinRoom (sha256 : String → TokenHash) (env : Env) (appID code resumeToken : String)
    (conn : Conn) (s : Call) : Call × Except ProtoError Nat :=
  if s.room.destroyed then (s, .error (noLongerExists code))
  else if s.room.appID ≠ appID then (s, .error (differentApp code))
  else
    let s := s.activity env.now
    if resumeToken ≠ "" ∧ s.room.opts.allowReconnect = true then
      match s.room.findToken sha256 resumeToken with
      | some id => resumeLocked sha256 env id conn s
      | none => freshJoin sha256 env code conn s
    else freshJoin sha256 env code conn s

abbrev Entered := Manager × List Out × Except ProtoError Session

def entered (ref : Nat) (r : Manager × List Out × Except ProtoError Nat) : Entered :=
  (r.1, r.2.1, r.2.2.map (Session.mk ref))

def join (sha256 : String → TokenHash) (env : Env) (appID code resumeToken : String)
    (create : Option RoomOptions) (conn : Conn) (m : Manager) : Entered :=
  match m.lookup code with
  | some ref =>
    entered ref (m.onRoom [] ref (joinRoom sha256 env appID code resumeToken conn))
  | none =>
    match create with
    | none => (m, [], .error ⟨.roomNotFound,
        "room " ++ quote code ++ " does not exist and no create options supplied"⟩)
    | some opts =>
      let sweep := if m.rooms.length ≥ m.limits.maxRooms then gcLocked env.now m else ⟨m, [], 0⟩
      if sweep.manager.rooms.length ≥ sweep.manager.limits.maxRooms then
        (sweep.manager, sweep.out, .error ⟨.tooManyRooms, "server room limit reached"⟩)
      else
        let (m, ref) := sweep.manager.create (newRoom appID code opts env.now)
        entered ref (m.onRoom sweep.out ref (joinRoom sha256 env appID code resumeToken conn))

def notClaimable (playerID : Int) (silence remaining : Duration) : ProtoError :=
  ⟨.slotNotClaimable, "player " ++ toString playerID ++ " was seen " ++
    toString (Duration.milliseconds silence) ++ "ms ago; claimable in " ++
    toString (Duration.milliseconds remaining) ++ "ms"⟩

/-- The part of `Claim` under the room lock. -/
def claimRoom (sha256 : String → TokenHash) (env : Env) (appID code : String)
    (playerID : Int) (conn : Conn) (s : Call) : Call × Except ProtoError Nat :=
  if s.room.destroyed then (s, .error (noLongerExists code))
  else if s.room.appID ≠ appID then (s, .error (differentApp code))
  else
    let s := s.activity env.now
    if playerID < 0 ∨ playerID ≥ s.room.slots.length then
      (s, .error (outOfRange playerID s.room))
    else if !s.room.opts.allowReplacement || !s.room.opts.reconnectPolicy.allowsClaim then
      (s, .error ⟨.claimNotAllowed,
        "room " ++ quote code ++ " does not allow slot claiming"⟩)
    else
      let id := playerID.toNat
      let t := s.room.slot id
      if !t.occupied then occupyLocked sha256 env id conn s
      else
        let silence := Time.sub env.now t.lastSeenAt
        if silence < s.room.opts.claimAfter then
          (s, .error (notClaimable playerID silence (s.room.opts.claimAfter - silence)))
        else replaceLocked sha256 env id conn s

def claim (sha256 : String → TokenHash) (env : Env) (appID code : String) (playerID : Int)
    (conn : Conn) (m : Manager) : Entered :=
  match m.lookup code with
  | none => (m, [], .error ⟨.roomNotFound, "room " ++ quote code ++ " does not exist"⟩)
  | some ref =>
    entered ref (m.onRoom [] ref (claimRoom sha256 env appID code playerID conn))

inductive Op where
  | join (appID code resumeToken : String) (create : Option RoomOptions) (conn : Conn)
  | claim (appID code : String) (playerID : Int) (conn : Conn)
  | signal (sess : Session) (conn : Conn) (target : Int) (payload : String)
  | leave (sess : Session) (conn : Conn)
  | disconnect (sess : Session) (conn : Conn)
  | touch (sess : Session) (conn : Conn)
  | gc

/-- What an operation returns to its caller. -/
inductive Reply where
  | session (res : Except ProtoError Session)
  | relayed (res : Except ProtoError Unit)
  | none
  | collected (rooms : Nat)

structure Result where
  manager : Manager
  out : List Out
  reply : Reply

def Entered.result (r : Entered) : Result := ⟨r.1, r.2.1, .session r.2.2⟩

def Manager.onSession (m : Manager) (sess : Session) (f : Call → Call) : Result :=
  let r := m.onRoom [] sess.room fun s => (f s, ())
  ⟨r.1, r.2.1, .none⟩

def Manager.apply (sha256 : String → TokenHash) (env : Env) (m : Manager) : Op → Result
  | .join appID code resumeToken create conn =>
    Entered.result (Registry.join sha256 env appID code resumeToken create conn m)
  | .claim appID code playerID conn =>
    Entered.result (Registry.claim sha256 env appID code playerID conn m)
  | .signal sess conn target payload =>
    let r := m.onRoom [] sess.room (Lobby.signal env sess.playerID conn target payload)
    ⟨r.1, r.2.1, .relayed r.2.2⟩
  | .leave sess conn => m.onSession sess (Lobby.leave env sess.playerID conn)
  | .disconnect sess conn => m.onSession sess (Lobby.disconnect env sess.playerID conn)
  | .touch sess conn => m.onSession sess (Lobby.touch env sess.playerID conn)
  | .gc =>
    let sweep := gcLocked env.now m
    ⟨sweep.manager, sweep.out, .collected sweep.destroyed⟩

def newManager (limits : Limits) : Manager := ⟨[], [], limits⟩

end Lobbylink.Server.Registry
