import Lobbylink.Client.Native
import Lobbylink.Lib.Runs
import Lobbylink.Ts.Reliable

/-! The game of the browser client. Its callbacks run one after the other. A promise of the
WebRTC stack is settled later, in any order, and what awaits it runs on at once. The
reliable sends are in `Sends`. -/
namespace Lobbylink.Ts.Game
open Client.Protocol Client.Roster Reliable Lib.Runs
open Client.Native (PeerState Signaling Event)

def maxPeerRebuilds : Nat := 3
def maxBestEffort : Nat := 16000

def fatalCodes : List String := ["replaced", "session-superseded", "room-expired", "slow-consumer"]
def gameOverCodes : List String := ["replaced", "session-superseded", "room-expired"]

variable {Sdp : Type}

structure LobbyError where
  code : String
  message : String

/-- With the state of its `pc`: `added` are the candidates that were given to it. -/
structure PeerLink where
  playerId : PlayerId
  initiator : Bool
  closed : Bool
  signalingState : Signaling
  remoteDescription : Bool
  reassembler : Reassembler Int
  pendingCandidates : Option (List (Option String))
  added : List (Option String)

/-- A promise of the WebRTC stack, for a link, that the client awaits. -/
inductive Op (Sdp : Type) where
  | createOffer (player : PlayerId) (link : Nat)
  | setLocalOffer (player : PlayerId) (link : Nat) (offer : Sdp)
  | setRemoteOffer (player : PlayerId) (link : Nat) (sdp : Sdp)
  | createAnswer (player : PlayerId) (link : Nat)
  | setLocalAnswer (player : PlayerId) (link : Nat) (answer : Sdp)
  | setRemoteAnswer (player : PlayerId) (link : Nat) (sdp : Sdp)
  | getStats (player : PlayerId) (link : Nat)
  deriving DecidableEq

/-- The player and the link that a promise is for. -/
def opLink : Op Sdp → PlayerId × Nat
  | .createOffer p n | .setLocalOffer p n _ | .setRemoteOffer p n _ | .createAnswer p n
  | .setLocalAnswer p n _ | .setRemoteAnswer p n _ | .getStats p n => (p, n)

/-- A signal of a link, or the leave. -/
inductive Sent (Sdp : Type) where
  | signal (target : PlayerId) (link : Nat) (payload : SignalPayload Sdp)
  | leave

/-- What a callback finds outside: whether a connection can be made, whether the one it
looks at is in state failed, and whether its best-effort channel takes a datagram. -/
structure Env where
  creates : PlayerId → Bool
  failed : Bool
  takes : PlayerId → Bool

/-- A link is named by its place among all the links that were made. `storage` is the item at
`storageKey`, where there is a key and a storage; `timers` are the rebuilds that were
scheduled, with their delay. -/
structure P2PGame (Sdp : Type) where
  selfId : PlayerId
  maxPlayers : Nat
  storage : Option (Option String)
  wsOpen : Bool
  roster : List PlayerInfo
  startedFlag : Bool
  closedFlag : Bool
  fatalSeen : Bool
  peers : PlayerId → Option Nat
  links : Nat → Option PeerLink
  made : Nat
  rebuildCounts : PlayerId → Option Nat
  timers : List (PlayerId × Nat × Nat)
  ops : List (Op Sdp)
  sent : List (Sent Sdp)
  datagrams : List (PlayerId × Bytes)
  emitted : List Event

def P2PGame.saveToken (g : P2PGame Sdp) (token : String) : P2PGame Sdp :=
  { g with storage := g.storage.map fun _ => some token }

def P2PGame.clearToken (g : P2PGame Sdp) : P2PGame Sdp :=
  { g with storage := g.storage.map fun _ => none }

def P2PGame.emit (g : P2PGame Sdp) (ev : Event) : P2PGame Sdp :=
  if g.closedFlag then g else { g with emitted := g.emitted ++ [ev] }

def PeerLink.close (link : PeerLink) : PeerLink :=
  if link.closed then link else { link with closed := true, pendingCandidates := none }

def P2PGame.modifyLink (g : P2PGame Sdp) (n : Nat) (f : PeerLink → PeerLink) : P2PGame Sdp :=
  { g with links := Function.update g.links n ((g.links n).map f) }

def P2PGame.closePeer (g : P2PGame Sdp) (playerId : PlayerId) : P2PGame Sdp :=
  match g.peers playerId with
  | none => g
  | some n =>
    { g.modifyLink n PeerLink.close with peers := Function.update g.peers playerId none }

/-- `closePeer` for every player. -/
def P2PGame.teardownPeers (g : P2PGame Sdp) : P2PGame Sdp :=
  { g with
    peers := fun _ => none
    links := fun n => (g.links n).map fun link =>
      if g.peers link.playerId = some n then link.close else link }

/-- `ws.close` leaves the socket open no longer. -/
def P2PGame.close (g : P2PGame Sdp) : P2PGame Sdp :=
  if g.closedFlag then g
  else
    let g := { g with
      closedFlag := true
      sent := if g.wsOpen then g.sent ++ [Sent.leave] else g.sent
      wsOpen := false }
    g.teardownPeers.clearToken

def P2PGame.linkTo (g : P2PGame Sdp) (playerId : PlayerId) : Option PeerLink :=
  (g.peers playerId).bind g.links

/-- The old link goes also where the new one cannot be made. -/
def P2PGame.createLink (env : Env) (g : P2PGame Sdp) (playerId : PlayerId) (initiator : Bool) :
    P2PGame Sdp :=
  let g := g.closePeer playerId
  let n := g.made + 1
  let g := { g with made := n }
  if env.creates playerId then
    { g with
      peers := Function.update g.peers playerId (some n)
      links := Function.update g.links n
        (some ⟨playerId, initiator, false, .stable, false, .empty, some [], []⟩) }
  else g

def P2PGame.await (g : P2PGame Sdp) (op : Op Sdp) : P2PGame Sdp := { g with ops := g.ops ++ [op] }

def P2PGame.initiatePeer (env : Env) (g : P2PGame Sdp) (playerId : PlayerId) : P2PGame Sdp :=
  if g.closedFlag then g
  else
    let g := g.createLink env playerId true
    if env.creates playerId then g.await (.createOffer playerId g.made) else g

def P2PGame.resetPeer (env : Env) (g : P2PGame Sdp) (playerId : PlayerId) : P2PGame Sdp :=
  if playerId = g.selfId then g
  else
    let g := g.closePeer playerId
    let g := { g with rebuildCounts := Function.update g.rebuildCounts playerId none }
    if g.selfId < playerId then g.initiatePeer env playerId else g

def P2PGame.sendSignal (g : P2PGame Sdp) (target : PlayerId) (link : Nat)
    (payload : SignalPayload Sdp) : P2PGame Sdp :=
  if g.wsOpen then { g with sent := g.sent ++ [.signal target link payload] } else g

def PeerLink.addCandidate (link : PeerLink) (cand : Option String) : PeerLink :=
  { link with added := link.added ++ [cand] }

def PeerLink.flushCandidates (link : PeerLink) : PeerLink :=
  match link.pendingCandidates with
  | none => link
  | some queued => queued.foldl PeerLink.addCandidate { link with pendingCandidates := none }

def PeerLink.takeCandidate (cand : Option String) (link : PeerLink) : PeerLink :=
  if link.remoteDescription then link.addCandidate cand
  else { link with pendingCandidates := link.pendingCandidates.map (· ++ [cand]) }

def P2PGame.handleOffer (env : Env) (g : P2PGame Sdp) (source : PlayerId) (sdp : Sdp) : P2PGame Sdp :=
  if g.selfId < source then g
  else
    let g := g.createLink env source false
    if env.creates source then g.await (.setRemoteOffer source g.made sdp) else g

def P2PGame.handleAnswer (g : P2PGame Sdp) (source : PlayerId) (sdp : Sdp) : P2PGame Sdp :=
  match g.peers source, g.linkTo source with
  | some n, some link =>
    if link.closed ∨ link.signalingState ≠ .haveLocalOffer then g
    else g.await (.setRemoteAnswer source n sdp)
  | _, _ => g

def P2PGame.handleCandidate (g : P2PGame Sdp) (source : PlayerId) (cand : Option String) :
    P2PGame Sdp :=
  match g.peers source, g.linkTo source with
  | some n, some link => if link.closed then g else g.modifyLink n (PeerLink.takeCandidate cand)
  | _, _ => g

def P2PGame.handleSignal (env : Env) (g : P2PGame Sdp) (source : PlayerId)
    (payload : SignalPayload Sdp) : P2PGame Sdp :=
  if g.closedFlag ∨ source = g.selfId then g
  else match payload with
    | .offer sdp => g.handleOffer env source sdp
    | .answer sdp => g.handleAnswer source sdp
    | .ice cand => g.handleCandidate source cand
    | .unknown => g

/-- A copy of the players of a message. -/
def copyPlayers (players : List WirePlayer) : List PlayerInfo :=
  players.map fun p => ⟨p.id, p.occupied, p.connected⟩

def P2PGame.setSlot (g : P2PGame Sdp) (playerId : PlayerId) (f : PlayerInfo → PlayerInfo) :
    P2PGame Sdp :=
  { g with roster := g.roster.modify playerId f }

def P2PGame.handleError (g : P2PGame Sdp) (code message : String) : P2PGame Sdp :=
  if code ∈ fatalCodes then
    let g := { g with fatalSeen := true }
    let g :=
      if code ∈ gameOverCodes then
        let g := g.teardownPeers
        if code ≠ "session-superseded" then g.clearToken else g
      else g
    g.emit (.signalingClosed code message)
  else g.emit (.lobbyError code message)

def P2PGame.handleServerMessage (env : Env) (g : P2PGame Sdp) : ServerMessage Sdp → P2PGame Sdp
  | .playerJoined playerId players =>
    (({ g with roster := copyPlayers players } : P2PGame Sdp).emit (.playerJoined playerId)).resetPeer
      env playerId
  | .playerLeft playerId reason =>
    let reason := if reason = "explicit-leave" then PlayerLeftReason.explicitLeave else .disconnected
    let g := g.setSlot playerId fun slot =>
      if reason = .explicitLeave then { slot with occupied := false, connected := false }
      else { slot with connected := false }
    let g := if reason = .explicitLeave then g.closePeer playerId else g
    g.emit (.playerLeft playerId reason)
  | .playerRejoined playerId wasReplacement =>
    let g := g.setSlot playerId fun slot => { slot with occupied := true, connected := true }
    (g.emit (.playerRejoined playerId wasReplacement)).resetPeer env playerId
  | .playerReplaced playerId =>
    let g := g.setSlot playerId fun slot => { slot with occupied := true, connected := true }
    (g.emit (.playerReplaced playerId)).resetPeer env playerId
  | .roomStarted => { g with startedFlag := true }.emit .started
  | .signal source payload => g.handleSignal env source payload
  | .error code message => g.handleError code message
  | .joined _ | .unknown => g

/-- `ws.onclose`. -/
def P2PGame.onClose (g : P2PGame Sdp) : P2PGame Sdp :=
  if g.closedFlag ∨ g.fatalSeen then g
  else
    { g with fatalSeen := true }.emit (.signalingClosed "connection-lost"
      "signaling connection lost; existing peer channels stay up")

/-- Whether the link is there, and not closed. -/
def P2PGame.live (g : P2PGame Sdp) (n : Nat) : Bool :=
  match g.links n with
  | none => false
  | some link => !link.closed

def P2PGame.handlePeerFailure (g : P2PGame Sdp) (playerId : PlayerId) (n : Nat) : P2PGame Sdp :=
  match g.links n with
  | none => g
  | some link =>
    if !link.initiator || g.closedFlag then g
    else
      let count := (g.rebuildCounts playerId).getD 0 + 1
      let g := { g with rebuildCounts := Function.update g.rebuildCounts playerId (some count) }
      if count > maxPeerRebuilds then g
      else { g with timers := g.timers ++ [(playerId, n, 1000 * count)] }

/-- `onconnectionstatechange`. -/
def P2PGame.onConnectionState (g : P2PGame Sdp) (playerId : PlayerId) (n : Nat) (state : PeerState) :
    P2PGame Sdp :=
  if !g.live n then g
  else
    let g := g.emit (.peerState playerId state)
    match state with
    | .connected =>
      { g with rebuildCounts := Function.update g.rebuildCounts playerId none }.await
        (.getStats playerId n)
    | .failed => g.handlePeerFailure playerId n
    | _ => g

def P2PGame.rebuild (env : Env) (g : P2PGame Sdp) (playerId : PlayerId) (n : Nat) : P2PGame Sdp :=
  if g.closedFlag ∨ g.peers playerId ≠ some n ∨ !env.failed then g
  else match g.roster[playerId]? with
    | none => g
    | some slot => if !slot.occupied || !slot.connected then g else g.initiatePeer env playerId

inductive ChannelData where
  | buffer (data : Bytes)
  | text (data : String)
  | other

def channelBytes : ChannelData → Option Bytes
  | .buffer data => some data
  | .text data => some data.toUTF8.toList
  | .other => none

def P2PGame.onReliableData (g : P2PGame Sdp) (playerId : PlayerId) (n : Nat) (data : ChannelData)
    (now : Int) : P2PGame Sdp :=
  match channelBytes data, g.links n with
  | some bytes, some link =>
    match parseFrame bytes with
    | .error _ => g
    | .ok frame =>
      let pushed := link.reassembler.push frame now
      let g := g.modifyLink n fun link => { link with reassembler := pushed.1 }
      match pushed.2 with
      | none => g
      | some message => g.emit (.message playerId .reliable message)
  | _, _ => g

def P2PGame.onBestEffortData (g : P2PGame Sdp) (playerId : PlayerId) (data : ChannelData) :
    P2PGame Sdp :=
  match channelBytes data with
  | none => g
  | some bytes => g.emit (.message playerId .bestEffort bytes)

/-- `onicecandidate`; the end of the candidates is not sent. -/
def P2PGame.onIceCandidate (g : P2PGame Sdp) (playerId : PlayerId) (n : Nat) (cand : Option String) :
    P2PGame Sdp :=
  match cand with
  | none => g
  | some cand => if g.live n then g.sendSignal playerId n (.ice (some cand)) else g

/-- How a promise is settled: `set` comes with the local description that the link has then,
and `failed` stands for statistics without a pair, too. -/
inductive Outcome (Sdp : Type) where
  | created (sdp : Sdp)
  | set (localDescription : Sdp)
  | pair (localType remoteType : String)
  | failed

def PeerLink.describe (state : Signaling) (remote : Bool) (link : PeerLink) : PeerLink :=
  { link with
    signalingState := state
    remoteDescription := link.remoteDescription || remote }

/-- The promise is fulfilled, and what awaited it runs on. -/
def P2PGame.settle (g : P2PGame Sdp) : Op Sdp → Outcome Sdp → P2PGame Sdp
  | .createOffer p n, .created offer => if g.live n then g.await (.setLocalOffer p n offer) else g
  | .setLocalOffer p n _, .set sdp =>
    let g := g.modifyLink n (PeerLink.describe .haveLocalOffer false)
    if g.live n then g.sendSignal p n (.offer sdp) else g
  | .setRemoteOffer p n _, .set _ =>
    let g := g.modifyLink n (PeerLink.describe .haveRemoteOffer true)
    if g.live n then (g.modifyLink n PeerLink.flushCandidates).await (.createAnswer p n) else g
  | .createAnswer p n, .created answer => if g.live n then g.await (.setLocalAnswer p n answer) else g
  | .setLocalAnswer p n _, .set sdp =>
    let g := g.modifyLink n (PeerLink.describe .stable false)
    if g.live n then g.sendSignal p n (.answer sdp) else g
  | .setRemoteAnswer _ n _, .set _ =>
    (g.modifyLink n (PeerLink.describe .stable true)).modifyLink n PeerLink.flushCandidates
  | .getStats p n, .pair localType remoteType =>
    if g.live n then g.emit (.candidatePair p localType remoteType) else g
  | _, _ => g

def P2PGame.checkTarget (g : P2PGame Sdp) (target : Int) : Except LobbyError Unit :=
  if target < 0 ∨ target ≥ g.maxPlayers then
    .error ⟨"invalid-target", s!"player id {target} out of range 0..{(g.maxPlayers : Int) - 1}"⟩
  else if target = g.selfId then .error ⟨"invalid-target", "cannot send to yourself"⟩
  else .ok ()

def P2PGame.bestEffortTo (env : Env) (g : P2PGame Sdp) (target : PlayerId) (bytes : Bytes) :
    P2PGame Sdp :=
  match g.peers target with
  | none => g
  | some _ => if env.takes target then { g with datagrams := g.datagrams ++ [(target, bytes)] } else g

def checkSize (bytes : Bytes) : Except LobbyError Unit :=
  if bytes.length > maxBestEffort then
    .error ⟨"message-too-large",
      s!"best-effort payload {bytes.length} exceeds {maxBestEffort} bytes"⟩
  else .ok ()

def P2PGame.sendBestEffort (env : Env) (g : P2PGame Sdp) (target : Int) (bytes : Bytes) :
    Except LobbyError (P2PGame Sdp) := do
  g.checkTarget target
  checkSize bytes
  return g.bestEffortTo env target.toNat bytes

def P2PGame.broadcastBestEffort (env : Env) (g : P2PGame Sdp) (bytes : Bytes) :
    Except LobbyError (P2PGame Sdp) := do
  checkSize bytes
  return (g.roster.filter fun p => decide (p.id ≠ g.selfId) && p.occupied).foldl
    (fun g p => g.bestEffortTo env p.id bytes) g

/-- The constructor, once the socket has delivered the joined message. -/
def P2PGame.new (storage : Option (Option String)) (joined : JoinedMsg) : P2PGame Sdp :=
  P2PGame.saveToken {
    selfId := joined.selfId
    maxPlayers := joined.maxPlayers
    storage := storage
    wsOpen := true
    roster := copyPlayers joined.players
    startedFlag := joined.started
    closedFlag := false
    fatalSeen := false
    peers := fun _ => none
    links := fun _ => none
    made := 0
    rebuildCounts := fun _ => none
    timers := []
    ops := []
    sent := []
    datagrams := []
    emitted := [] } joined.resumeToken

/-- The players that the constructor makes links to. -/
def P2PGame.initialTargets (g : P2PGame Sdp) : List PlayerId :=
  (g.roster.filter fun p =>
    decide (p.id ≠ g.selfId) && p.occupied && p.connected && decide (g.selfId < p.id)).map (·.id)

def P2PGame.start (env : Env) (storage : Option (Option String)) (joined : JoinedMsg) : P2PGame Sdp :=
  let g : P2PGame Sdp := .new storage joined
  g.initialTargets.foldl (fun g p => g.initiatePeer env p) g

inductive Label (Sdp : Type) where
  | message (env : Env) (msg : ServerMessage Sdp)
  | wsDown
  | wsClose
  | iceCandidate (player : PlayerId) (link : Nat) (cand : Option String)
  | connectionState (player : PlayerId) (link : Nat) (state : PeerState)
  | reliableData (player : PlayerId) (link : Nat) (data : ChannelData) (now : Int)
  | bestEffortData (player : PlayerId) (link : Nat) (data : ChannelData)
  | rebuild (env : Env) (player : PlayerId) (link : Nat)
  | settle (op : Op Sdp) (outcome : Outcome Sdp)
  | sendBestEffort (env : Env) (target : Int) (bytes : Bytes)
  | broadcastBestEffort (env : Env) (bytes : Bytes)
  | close

def P2PGame.orStay (g : P2PGame Sdp) : Except LobbyError (P2PGame Sdp) → P2PGame Sdp
  | .ok g' => g'
  | .error _ => g

variable [DecidableEq Sdp]

def P2PGame.take (g : P2PGame Sdp) : Label Sdp → P2PGame Sdp
  | .message env msg => g.handleServerMessage env msg
  | .wsDown => { g with wsOpen := false }
  | .wsClose => g.onClose
  | .iceCandidate p n cand => g.onIceCandidate p n cand
  | .connectionState p n state => g.onConnectionState p n state
  | .reliableData p n data now => g.onReliableData p n data now
  | .bestEffortData p _ data => g.onBestEffortData p data
  | .rebuild env p n => g.rebuild env p n
  | .settle op outcome => { g with ops := g.ops.erase op }.settle op outcome
  | .sendBestEffort env target bytes => g.orStay (g.sendBestEffort env target bytes)
  | .broadcastBestEffort env bytes => g.orStay (g.broadcastBestEffort env bytes)
  | .close => g.close

/-- The link was made to the player. -/
def P2PGame.Made (g : P2PGame Sdp) (p : PlayerId) (n : Nat) : Prop :=
  ∃ link, g.links n = some link ∧ link.playerId = p

/-- What can come next. A socket that is not open delivers no message, and a channel of a closed
link no data. -/
def P2PGame.Enabled (g : P2PGame Sdp) : Label Sdp → Prop
  | .message .. => g.wsOpen = true
  | .wsClose => g.wsOpen = false
  | .iceCandidate p n _ | .connectionState p n _ => g.Made p n
  | .reliableData p n .. | .bestEffortData p n _ => g.Made p n ∧ g.live n = true
  | .rebuild _ p n => ∃ delay, (p, n, delay) ∈ g.timers
  | .settle op _ => op ∈ g.ops
  | .wsDown | .sendBestEffort .. | .broadcastBestEffort .. | .close => True

def system (env : Env) (storage : Option (Option String)) (joined : JoinedMsg) :
    System (P2PGame Sdp) (Label Sdp) where
  init := fun g => g = .start env storage joined
  step := fun g l g' => g.Enabled l ∧ g' = g.take l

end Lobbylink.Ts.Game
