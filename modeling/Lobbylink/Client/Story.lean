import Lobbylink.Client.Native

/-! What a client of a room goes through, in whatever language and however its tasks take
turns: who is there, which links it has, and what its user is told. What it says to the
server and to its peers is left to each client. -/
namespace Lobbylink.Client.Story
open Protocol Roster Framing
open Native (PeerState Event)

/-- How what arrives on a link is put together to messages. -/
structure Reader (R : Type) where
  empty : R
  take : R → Bytes → Int → R × Option Bytes

/-- The link to a player, by the number of the attempt that made it. -/
structure Tie (R : Type) where
  number : Nat
  initiator : Bool
  held : R

structure Session (R : Type) where
  selfId : PlayerId
  maxPlayers : Nat
  roster : List PlayerInfo
  started : Bool
  ties : PlayerId → Option (Tie R)
  attempts : Nat
  failures : PlayerId → Option Nat
  retries : List (PlayerId × Nat × Nat)
  ended : Bool
  closed : Bool
  keeps : Bool
  token : Option String
  told : List Event

/-- What can happen to a client. `makes` says to whom a link can be made at the time, and
`failed` that a link is in state failed. -/
inductive Happening (Sdp : Type) where
  | begun (makes : PlayerId → Bool)
  | message (msg : ServerMessage Sdp) (makes : PlayerId → Bool)
  | lost
  | state (player : PlayerId) (number : Nat) (state : PeerState)
  | frame (player : PlayerId) (number : Nat) (data : Bytes) (now : Int)
  | datagram (player : PlayerId) (number : Nat) (data : Bytes)
  | pair (player : PlayerId) (number : Nat) (localType remoteType : String)
  | retry (player : PlayerId) (number : Nat) (failed : Bool) (makes : PlayerId → Bool)
  | leave

variable {R Sdp : Type}

def Session.tell (s : Session R) (event : Event) : Session R := { s with told := s.told ++ [event] }

def Session.drop (s : Session R) (p : PlayerId) : Session R :=
  { s with ties := Function.update s.ties p none }

def Session.dropAll (s : Session R) : Session R := { s with ties := fun _ => none }

/-- A new link to the player, if one can be made; the old one goes in any case. -/
def Session.renew (reader : Reader R) (s : Session R) (p : PlayerId) (initiator made : Bool) :
    Session R :=
  let number := s.attempts + 1
  { s with
    attempts := number
    ties := Function.update s.ties p (if made then some ⟨number, initiator, reader.empty⟩ else none) }

/-- The player has a new session. The lower of the two ids makes the link. -/
def Session.meet (reader : Reader R) (s : Session R) (p : PlayerId) (made : Bool) : Session R :=
  if p = s.selfId then s
  else
    let s := { s.drop p with failures := Function.update s.failures p none }
    if s.selfId < p then s.renew reader p true made else s

/-- The link with this number, if it still is the one to the player. -/
def Session.tie (s : Session R) (p : PlayerId) (number : Nat) : Option (Tie R) :=
  (s.ties p).filter fun tie => tie.number = number

def Session.forget (s : Session R) : Session R := if s.keeps then { s with token := none } else s

def Session.refuse (s : Session R) (code message : String) : Session R :=
  if isFatalCode code then
    let s := { s with ended := true }
    let s :=
      if isGameOverCode code then
        if code = "session-superseded" then s.dropAll else s.dropAll.forget
      else s
    s.tell (.signalingClosed code message)
  else s.tell (.lobbyError code message)

def Session.hear (reader : Reader R) (s : Session R) (msg : ServerMessage Sdp)
    (makes : PlayerId → Bool) : Session R :=
  let s := { s with roster := updateRoster s.maxPlayers s.roster msg }
  match msg with
  | .playerJoined p _ => (s.tell (.playerJoined p)).meet reader p (makes p)
  | .playerLeft p reason =>
    let reason := PlayerLeftReason.fromWire reason
    (if reason = .explicitLeave then s.drop p else s).tell (.playerLeft p reason)
  | .playerRejoined p wasReplacement =>
    (s.tell (.playerRejoined p wasReplacement)).meet reader p (makes p)
  | .playerReplaced p => (s.tell (.playerReplaced p)).meet reader p (makes p)
  | .roomStarted => { s with started := true }.tell .started
  | .signal source (.offer _) =>
    if s.selfId ≤ source then s else s.renew reader source false (makes source)
  | .error code message => s.refuse code message
  | .signal _ _ | .joined _ | .unknown => s

/-- A link that the client made has failed: it is tried again, but not for ever. -/
def Session.fail (s : Session R) (p : PlayerId) (tie : Tie R) : Session R :=
  if tie.initiator then
    let count := (s.failures p).getD 0 + 1
    { s with
      failures := Function.update s.failures p (some count)
      retries := s.retries ++ if count ≤ Native.maxPeerRebuilds then [(p, tie.number, 1000 * count)]
        else [] }
  else s

def Session.report (s : Session R) (p : PlayerId) (number : Nat) (state : PeerState) : Session R :=
  match s.tie p number with
  | none => s
  | some tie =>
    let s := s.tell (.peerState p state)
    match state with
    | .connected => { s with failures := Function.update s.failures p none }
    | .failed => s.fail p tie
    | _ => s

def Session.receive (reader : Reader R) (s : Session R) (p : PlayerId) (number : Nat) (data : Bytes)
    (now : Int) : Session R :=
  match s.tie p number with
  | none => s
  | some tie =>
    let read := reader.take tie.held data now
    let s := { s with ties := Function.update s.ties p (some { tie with held := read.1 }) }
    match read.2 with
    | none => s
    | some message => s.tell (.message p .reliable message)

def Session.present (s : Session R) (p : PlayerId) : Bool :=
  match s.roster[p]? with
  | none => false
  | some slot => slot.occupied && slot.connected

/-- A link is replaced only if it still is the failed one and its player is there. -/
def Session.retry (reader : Reader R) (s : Session R) (p : PlayerId) (number : Nat)
    (failed made : Bool) : Session R :=
  if (s.tie p number).isSome && failed && s.present p then s.renew reader p true made else s

def Session.leave (s : Session R) : Session R := { s with closed := true }.dropAll.forget

/-- The players that a client makes links to when it has joined. -/
def Session.targets (s : Session R) : List PlayerId :=
  (s.roster.filter fun slot => slot.occupied && slot.connected && decide (s.selfId < slot.id)).map
    (·.id)

def Session.begin (reader : Reader R) (s : Session R) (makes : PlayerId → Bool) : Session R :=
  s.targets.foldl (fun s p => s.renew reader p true (makes p)) s

def Session.take (reader : Reader R) (s : Session R) (happening : Happening Sdp) : Session R :=
  if s.closed then s
  else match happening with
    | .begun makes => s.begin reader makes
    | .message msg makes => s.hear reader msg makes
    | .lost =>
      if s.ended then s
      else { s with ended := true }.tell (.signalingClosed "connection-lost"
        "signaling connection lost; existing peer channels stay up")
    | .state p number state => s.report p number state
    | .frame p number data now => s.receive reader p number data now
    | .datagram p number data =>
      if (s.tie p number).isSome then s.tell (.message p .bestEffort data) else s
    | .pair p number localType remoteType =>
      if (s.tie p number).isSome then s.tell (.candidatePair p localType remoteType) else s
    | .retry p number failed makes => s.retry reader p number failed (makes p)
    | .leave => s.leave

def Session.new (joined : JoinedMsg) (keeps : Bool) : Session R where
  selfId := joined.selfId
  maxPlayers := joined.maxPlayers
  roster := rosterFromSnapshot joined.maxPlayers joined.players
  started := joined.started
  ties := fun _ => none
  attempts := 0
  failures := fun _ => none
  retries := []
  ended := false
  closed := false
  keeps := keeps
  token := if keeps then some joined.resumeToken else none
  told := []

/-- The client goes through what happens to it, one after the other. -/
def Session.run (reader : Reader R) (s : Session R) (happenings : List (Happening Sdp)) :
    Session R := happenings.foldl (Session.take reader) s

theorem run_snoc {L : Type} (reader : Reader R) (s : Session R) (f : L → Option (Happening Sdp))
    (ls : List L) (l : L) : s.run reader ((ls ++ [l]).filterMap f) =
      (f l).elim (s.run reader (ls.filterMap f)) ((s.run reader (ls.filterMap f)).take reader) := by
  unfold Session.run
  rw [List.filterMap_append, List.foldl_append]
  cases hl : f l <;> simp [hl]

variable (reader : Reader R) (s : Session R)

theorem closed_forget : s.forget.closed = s.closed := by
  unfold Session.forget
  split_ifs <;> rfl

theorem closed_leave : s.leave.closed = true := closed_forget _

theorem closed_meet (p : PlayerId) (made : Bool) : (s.meet reader p made).closed = s.closed := by
  unfold Session.meet
  split_ifs
  · rfl
  · simp only
    split_ifs <;> rfl

theorem closed_refuse (code message : String) : (s.refuse code message).closed = s.closed := by
  unfold Session.refuse
  simp only
  split_ifs
  · rfl
  · exact closed_forget _
  · rfl
  · rfl

theorem closed_hear (msg : ServerMessage Sdp) (makes : PlayerId → Bool) :
    (s.hear reader msg makes).closed = s.closed := by
  unfold Session.hear
  cases msg with
  | playerJoined p | playerRejoined p | playerReplaced p => exact closed_meet reader _ p (makes p)
  | playerLeft p reason =>
    simp only
    split_ifs <;> rfl
  | signal source payload =>
    cases payload with
    | offer sdp =>
      simp only
      split_ifs <;> rfl
    | answer | ice | unknown => rfl
  | error code message => exact closed_refuse _ code message
  | roomStarted | joined | unknown => rfl

theorem closed_report (p : PlayerId) (number : Nat) (state : PeerState) :
    (s.report p number state).closed = s.closed := by
  unfold Session.report
  split
  · rfl
  · cases state with
    | failed =>
      simp only [Session.fail]
      split_ifs <;> rfl
    | new | connecting | connected | disconnected | closed => rfl

theorem closed_receive (p : PlayerId) (number : Nat) (data : Bytes) (now : Int) :
    (s.receive reader p number data now).closed = s.closed := by
  unfold Session.receive
  split
  · rfl
  · simp only
    split <;> rfl

theorem closed_begin (makes : PlayerId → Bool) : (s.begin reader makes).closed = s.closed := by
  unfold Session.begin
  generalize s.targets = targets
  induction targets generalizing s with
  | nil => rfl
  | cons p rest ih => exact ih _

theorem closed_take {happening : Happening Sdp} (h : happening ≠ .leave) :
    (s.take reader happening).closed = s.closed := by
  unfold Session.take
  by_cases hclosed : s.closed = true
  · rw [if_pos hclosed]
  rw [if_neg hclosed]
  cases happening with
  | begun makes => exact closed_begin reader s makes
  | message msg makes => exact closed_hear reader s msg makes
  | lost =>
    simp only
    split_ifs <;> rfl
  | state p number state => exact closed_report s p number state
  | frame p number data now => exact closed_receive reader s p number data now
  | datagram | pair =>
    simp only
    split_ifs <;> rfl
  | retry p number failed makes =>
    simp only [Session.retry]
    split_ifs <;> rfl
  | leave => exact absurd rfl h

end Lobbylink.Client.Story
