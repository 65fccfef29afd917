import Lobbylink.Client.Reassembly
import Lobbylink.Client.Roster
import Mathlib.Logic.Function.Basic

/-! The client's actor: the owner of its roster, its links and its stored token.
It takes one input at a time. What the WebRTC stack answers during an input is
given in advance; what the actor says to its socket and to its user is recorded. -/
namespace Lobbylink.Client.Native
open Protocol Roster Framing Reassembly

/-- `RTCSignalingState`, as far as one offer and one answer take it. -/
inductive Signaling where
  | stable | haveLocalOffer | haveRemoteOffer
  deriving DecidableEq, Repr

/-- `RTCPeerConnectionState`. -/
inductive PeerState where
  | new | connecting | connected | disconnected | failed | closed
  deriving DecidableEq, Repr

/-- Without the flag `closed`, which other tasks see too. -/
structure Link where
  initiator : Bool
  epoch : Nat
  signaling : Signaling

/-- What all holders of a link see of it. -/
structure LinkHandle where
  playerId : PlayerId
  closed : Bool

structure Peer where
  link : Link
  reassembler : Reassembler Int
  pendingCandidates : Option (List String)

/-- What the WebRTC stack does during one input. -/
structure Rtc (Sdp : Type) where
  /-- the peer connection and its channels can be made -/
  creates : PlayerId → Bool
  /-- an offer can be made and set -/
  offers : PlayerId → Bool
  /-- the local description can be read back -/
  describes : PlayerId → Bool
  /-- the remote description parses and can be set -/
  parses : Bool
  /-- an answer can be made and set -/
  answers : Bool
  /-- the connection is in state failed -/
  failed : Bool
  /-- the best-effort channel is open and its buffer not too full -/
  takes : PlayerId → Bool
  /-- the offer of the link with an epoch -/
  offerOf : Nat → Sdp
  /-- the answer of the link with an epoch to an offer -/
  answerOf : Nat → Sdp → Sdp

inductive ClientMessage (Sdp : Type) where
  | signal (target : PlayerId) (payload : SignalPayload Sdp)
  | leave

inductive MessageKind where
  | reliable | bestEffort

inductive Event where
  | message (sender : PlayerId) (kind : MessageKind) (data : Bytes)
  | playerJoined (playerId : PlayerId)
  | playerLeft (playerId : PlayerId) (reason : PlayerLeftReason)
  | playerRejoined (playerId : PlayerId) (wasReplacement : Bool)
  | playerReplaced (playerId : PlayerId)
  | started
  | peerState (playerId : PlayerId) (state : PeerState)
  | candidatePair (playerId : PlayerId) (localType remoteType : String)
  | lobbyError (code message : String)
  | signalingClosed (code message : String)

inductive Cmd where
  | sendReliable (target : PlayerId) (data : Bytes)
  | sendBestEffort (target : PlayerId) (data : Bytes)
  | broadcastBestEffort (data : Bytes)
  | close

/-- `now` is the clock when a reliable frame is taken. -/
inductive Internal (Sdp : Type) where
  | ws (msg : ServerMessage Sdp)
  | wsClosed
  | ice (playerId : PlayerId) (epoch : Nat) (candidate : String)
  | state (playerId : PlayerId) (epoch : Nat) (state : PeerState)
  | reliable (playerId : PlayerId) (epoch : Nat) (data : Bytes) (now : Int)
  | bestEffort (playerId : PlayerId) (epoch : Nat) (data : Bytes)
  | pair (playerId : PlayerId) (epoch : Nat) (localType remoteType : String)
  | rebuild (playerId : PlayerId) (epoch : Nat)

/-- The actor, with what it has said so far. `links` are all the links ever made, by
epoch; `store` is the content of the file at `storagePath`; `timers` are the rebuilds
it has asked for, with their delay. -/
structure Actor (Sdp : Type) where
  selfId : PlayerId
  maxPlayers : Nat
  roster : List PlayerInfo
  peers : PlayerId → Option Peer
  links : Nat → Option LinkHandle
  linkWatch : PlayerId → Option (Option Nat)
  sendQueues : PlayerId → Option (List Bytes)
  rebuildCounts : PlayerId → Option Nat
  epochCounter : Nat
  started : Bool
  storagePath : Option String
  fatalSeen : Bool
  closed : Bool
  store : Option String
  sent : List (ClientMessage Sdp)
  events : List Event
  datagrams : List (PlayerId × Bytes)
  timers : List (PlayerId × Nat × Nat)

variable {Sdp : Type}

/-- The actor that `connect` starts once the server has answered; the token of
the joined message has been saved by then. -/
def Actor.new (storagePath : Option String) (joined : JoinedMsg) : Actor Sdp where
  selfId := joined.selfId
  maxPlayers := joined.maxPlayers
  roster := rosterFromSnapshot joined.maxPlayers joined.players
  peers := fun _ => none
  links := fun _ => none
  linkWatch := fun _ => none
  sendQueues := fun _ => none
  rebuildCounts := fun _ => none
  epochCounter := 0
  started := joined.started
  storagePath := storagePath
  fatalSeen := false
  closed := false
  store := storagePath.map fun _ => joined.resumeToken
  sent := []
  events := []
  datagrams := []
  timers := []

/-- `storage::clear`. -/
def Actor.clearStore (a : Actor Sdp) : Actor Sdp :=
  match a.storagePath with
  | none => a
  | some _ => { a with store := none }

def LinkHandle.close (h : LinkHandle) : LinkHandle := { h with closed := true }

def Actor.isClosed (a : Actor Sdp) (epoch : Nat) : Bool :=
  match a.links epoch with
  | none => true
  | some h => h.closed

/-- The link with this epoch is the one to player `p`. -/
def Actor.holds (a : Actor Sdp) (p : PlayerId) (epoch : Nat) : Bool :=
  match a.peers p with
  | none => false
  | some peer => peer.link.epoch = epoch

def Actor.closePeer (a : Actor Sdp) (p : PlayerId) : Actor Sdp :=
  match a.peers p with
  | none => a
  | some peer => { a with
      peers := Function.update a.peers p none
      links := Function.update a.links peer.link.epoch
        ((a.links peer.link.epoch).map LinkHandle.close)
      linkWatch := Function.update a.linkWatch p ((a.linkWatch p).map fun _ => none) }

/-- Closes the link to every player; the queues and watches go with them. -/
def Actor.teardownPeers (a : Actor Sdp) : Actor Sdp :=
  { a with
    peers := fun _ => none
    links := fun e => (a.links e).map fun h => if a.holds h.playerId e then h.close else h
    linkWatch := fun _ => none
    sendQueues := fun _ => none }

def Actor.shutdown (a : Actor Sdp) : Actor Sdp :=
  let a := { a with closed := true, sent := a.sent ++ [ClientMessage.leave] }
  a.teardownPeers.clearStore

def Actor.emit (a : Actor Sdp) (event : Event) : Actor Sdp :=
  if a.closed then a else { a with events := a.events ++ [event] }

def Actor.sendSignal (a : Actor Sdp) (target : PlayerId) (payload : SignalPayload Sdp) :
    Actor Sdp :=
  if a.closed then a else { a with sent := a.sent ++ [.signal target payload] }

/-- `create_link`, which fails unless `rtc.creates p`. The old link goes in any case. -/
def Actor.createLink (rtc : Rtc Sdp) (a : Actor Sdp) (p : PlayerId) (initiator : Bool) :
    Actor Sdp :=
  let a := a.closePeer p
  let epoch := a.epochCounter + 1
  let a := { a with epochCounter := epoch }
  if rtc.creates p then
    { a with
      peers := Function.update a.peers p (some ⟨⟨initiator, epoch, .stable⟩, .empty, some []⟩)
      links := Function.update a.links epoch (some ⟨p, false⟩)
      linkWatch := Function.update a.linkWatch p (some (some epoch)) }
  else a

def Actor.modifyPeer (a : Actor Sdp) (p : PlayerId) (f : Peer → Peer) : Actor Sdp :=
  { a with peers := Function.update a.peers p ((a.peers p).map f) }

def Peer.setSignaling (state : Signaling) (peer : Peer) : Peer :=
  { peer with link := { peer.link with signaling := state } }

def Actor.initiatePeer (rtc : Rtc Sdp) (a : Actor Sdp) (p : PlayerId) : Actor Sdp :=
  if a.closed then a
  else
    let a := a.createLink rtc p true
    if !rtc.creates p || !rtc.offers p then a
    else
      let a := a.modifyPeer p (Peer.setSignaling .haveLocalOffer)
      if rtc.describes p then a.sendSignal p (.offer (rtc.offerOf a.epochCounter)) else a

/-- A peer got a new session: drop the old link, offer again if that is our part. -/
def Actor.resetPeer (rtc : Rtc Sdp) (a : Actor Sdp) (p : PlayerId) : Actor Sdp :=
  if p = a.selfId then a
  else
    let a := a.closePeer p
    let a := { a with rebuildCounts := Function.update a.rebuildCounts p none }
    if a.selfId < p then a.initiatePeer rtc p else a

def Peer.flushCandidates (peer : Peer) : Peer := { peer with pendingCandidates := none }

/-- A candidate waits for the remote description; after that the link takes it. -/
def Peer.addCandidate (candidate : String) (peer : Peer) : Peer :=
  { peer with pendingCandidates := peer.pendingCandidates.map (· ++ [candidate]) }

def Actor.answerOffer (rtc : Rtc Sdp) (a : Actor Sdp) (source : PlayerId) (sdp : Sdp) :
    Actor Sdp :=
  let a := a.createLink rtc source false
  if !rtc.creates source || !rtc.parses then a
  else
    let a := a.modifyPeer source (Peer.flushCandidates ∘ Peer.setSignaling .haveRemoteOffer)
    if !rtc.answers then a
    else
      let a := a.modifyPeer source (Peer.setSignaling .stable)
      if rtc.describes source then
        a.sendSignal source (.answer (rtc.answerOf a.epochCounter sdp))
      else a

/-- The answer is set on the link. -/
def Actor.takesAnswer (rtc : Rtc Sdp) (a : Actor Sdp) (source : PlayerId) : Bool :=
  match a.peers source with
  | none => false
  | some peer => !a.isClosed peer.link.epoch && peer.link.signaling = .haveLocalOffer && rtc.parses

/-- The link can be given a candidate. -/
def Actor.takesCandidate (a : Actor Sdp) (source : PlayerId) : Bool :=
  match a.peers source with
  | none => false
  | some peer => !a.isClosed peer.link.epoch

def Actor.handleSignal (rtc : Rtc Sdp) (a : Actor Sdp) (source : PlayerId)
    (payload : SignalPayload Sdp) : Actor Sdp :=
  if a.closed || source = a.selfId then a
  else match payload with
    | .offer sdp => if a.selfId < source then a else a.answerOffer rtc source sdp
    | .answer _ =>
      if a.takesAnswer rtc source then
        a.modifyPeer source (Peer.flushCandidates ∘ Peer.setSignaling .stable)
      else a
    | .ice candidate =>
      match candidate with
      | none => a
      | some candidate =>
        if a.takesCandidate source then a.modifyPeer source (Peer.addCandidate candidate) else a
    | .unknown => a

def Actor.handleError (a : Actor Sdp) (code message : String) : Actor Sdp :=
  if isFatalCode code then
    let a := { a with fatalSeen := true }
    let a :=
      if isGameOverCode code then
        let a := a.teardownPeers
        -- the new owner of our slot keeps its token in the same store
        if code ≠ "session-superseded" then a.clearStore else a
      else a
    a.emit (.signalingClosed code message)
  else a.emit (.lobbyError code message)

def Actor.handleServerMessage (rtc : Rtc Sdp) (a : Actor Sdp) (msg : ServerMessage Sdp) :
    Actor Sdp :=
  let a := { a with roster := updateRoster a.maxPlayers a.roster msg }
  match msg with
  | .playerJoined p _ => (a.emit (.playerJoined p)).resetPeer rtc p
  | .playerLeft p reason =>
    let reason := PlayerLeftReason.fromWire reason
    let a := if reason = .explicitLeave then a.closePeer p else a
    a.emit (.playerLeft p reason)
  | .playerRejoined p wasReplacement =>
    (a.emit (.playerRejoined p wasReplacement)).resetPeer rtc p
  | .playerReplaced p => (a.emit (.playerReplaced p)).resetPeer rtc p
  | .roomStarted => ({ a with started := true }).emit .started
  | .signal source payload => a.handleSignal rtc source payload
  | .error code message => a.handleError code message
  | .joined _ | .unknown => a

def Actor.linkEpochCurrent (a : Actor Sdp) (p : PlayerId) (epoch : Nat) : Bool :=
  a.holds p epoch && !a.isClosed epoch

def maxPeerRebuilds : Nat := 3

def Actor.handlePeerFailure (a : Actor Sdp) (p : PlayerId) (epoch : Nat) : Actor Sdp :=
  match a.peers p with
  | none => a
  | some peer =>
    if !peer.link.initiator || a.closed then a
    else
      let count := (a.rebuildCounts p).getD 0 + 1
      let a := { a with rebuildCounts := Function.update a.rebuildCounts p (some count) }
      if count > maxPeerRebuilds then a
      else { a with timers := a.timers ++ [(p, epoch, 1000 * count)] }

/-- The pair of candidates that a connected link reports arrives as an input of its own. -/
def Actor.handlePeerState (a : Actor Sdp) (p : PlayerId) (epoch : Nat) (state : PeerState) :
    Actor Sdp :=
  if !a.linkEpochCurrent p epoch then a
  else
    let a := a.emit (.peerState p state)
    match state with
    | .connected => { a with rebuildCounts := Function.update a.rebuildCounts p none }
    | .failed => a.handlePeerFailure p epoch
    | _ => a

def reassemblyTimeoutMs : Int := 30000

def Actor.handleReliable (a : Actor Sdp) (p : PlayerId) (epoch : Nat) (data : Bytes)
    (now : Int) : Actor Sdp :=
  match a.peers p with
  | none => a
  | some peer =>
    if peer.link.epoch ≠ epoch then a
    else match parseFrame data with
      | .error _ => a
      | .ok frame =>
        let pushed := peer.reassembler.push reassemblyTimeoutMs frame now
        let a := a.modifyPeer p fun peer => { peer with reassembler := pushed.1 }
        match pushed.2 with
        | none => a
        | some message => a.emit (.message p .reliable message)

/-- A rebuild replaces a link only if it still is the failed one and its player is there. -/
def Actor.rebuilds (rtc : Rtc Sdp) (a : Actor Sdp) (p : PlayerId) (epoch : Nat) : Bool :=
  !a.closed && a.linkEpochCurrent p epoch && rtc.failed &&
    match a.roster[p]? with
    | none => false
    | some slot => slot.occupied && slot.connected

def Actor.handleInternal (rtc : Rtc Sdp) (a : Actor Sdp) : Internal Sdp → Actor Sdp
  | .ws msg => a.handleServerMessage rtc msg
  | .wsClosed =>
    if !a.closed && !a.fatalSeen then
      ({ a with fatalSeen := true }).emit (.signalingClosed "connection-lost"
        "signaling connection lost; existing peer channels stay up")
    else a
  | .ice p epoch candidate =>
    if a.linkEpochCurrent p epoch then a.sendSignal p (.ice (some candidate)) else a
  | .state p epoch state => a.handlePeerState p epoch state
  | .reliable p epoch data now => a.handleReliable p epoch data now
  | .bestEffort p epoch data =>
    if a.linkEpochCurrent p epoch then a.emit (.message p .bestEffort data) else a
  | .pair p epoch localType remoteType =>
    if a.linkEpochCurrent p epoch then a.emit (.candidatePair p localType remoteType) else a
  | .rebuild p epoch => if a.rebuilds rtc p epoch then a.initiatePeer rtc p else a

def Actor.bestEffortTo (rtc : Rtc Sdp) (a : Actor Sdp) (target : PlayerId) (data : Bytes) :
    Actor Sdp :=
  match a.peers target with
  | none => a
  | some peer =>
    if a.isClosed peer.link.epoch || !rtc.takes target then a
    else { a with datagrams := a.datagrams ++ [(target, data)] }

def Actor.sendReliable (a : Actor Sdp) (target : PlayerId) (data : Bytes) : Actor Sdp :=
  if a.closed then a
  else { a with
    linkWatch := Function.update a.linkWatch target
      (some ((a.linkWatch target).getD ((a.peers target).map (·.link.epoch))))
    sendQueues := Function.update a.sendQueues target
      (some ((a.sendQueues target).getD [] ++ [data])) }

def broadcastTargets (a : Actor Sdp) : List PlayerId :=
  (a.roster.filter fun p => p.id ≠ a.selfId && p.occupied).map (·.id)

/-- `close` ends the loop of `run` and is not handled here. -/
def Actor.handleCmd (rtc : Rtc Sdp) (a : Actor Sdp) : Cmd → Actor Sdp
  | .sendReliable target data => a.sendReliable target data
  | .sendBestEffort target data => a.bestEffortTo rtc target data
  | .broadcastBestEffort data =>
    (broadcastTargets a).foldl (fun a p => a.bestEffortTo rtc p data) a
  | .close => a

/-- What `run` waits for. Dropping the handle without `close` sends a close too,
and ends the commands. -/
inductive Input (Sdp : Type) where
  | cmd (cmd : Cmd)
  | cmdsEnded
  | internal (input : Internal Sdp)

/-- The loop of `run`: after a shutdown it takes nothing more. -/
structure Game (Sdp : Type) where
  actor : Actor Sdp
  running : Bool

def initialTargets (a : Actor Sdp) : List PlayerId :=
  (a.roster.filter fun p =>
    p.id ≠ a.selfId && p.occupied && p.connected && decide (a.selfId < p.id)).map (·.id)

def Game.start (rtc : Rtc Sdp) (storagePath : Option String) (joined : JoinedMsg) :
    Game Sdp :=
  let a := Actor.new storagePath joined
  ⟨(initialTargets a).foldl (fun a p => a.initiatePeer rtc p) a, true⟩

def Game.take (rtc : Rtc Sdp) (g : Game Sdp) (input : Input Sdp) : Game Sdp :=
  if !g.running then g
  else match input with
    | .cmd .close | .cmdsEnded => ⟨g.actor.shutdown, false⟩
    | .cmd cmd => ⟨g.actor.handleCmd rtc cmd, true⟩
    | .internal input => ⟨g.actor.handleInternal rtc input, true⟩

end Lobbylink.Client.Native
