import Lobbylink.Client.Native
import Lobbylink.Java.Messages
import Lobbylink.Java.Reliable
import Lobbylink.Lib.Runs

/-! The actor of the Java client. Its tasks run one after the other on a thread of their own;
the calls to the WebRTC stack are over later, in any order, and post the next task. The
threads that send are in `Actor`. -/
namespace Lobbylink.Java.Tasks
open Json Messages Reliable Lib.Runs
open Client.Protocol (PlayerLeftReason)
open Client.Native (PeerState Signaling MessageKind)

structure PlayerInfo where
  id : Int
  occupied : Bool
  connected : Bool

/-- `PlayerLeftReason.fromWire`. -/
def leftReason (reason : JString) : PlayerLeftReason :=
  if reason = units "explicit-leave" then .explicitLeave else .disconnected

inductive Event where
  | message (sender : Int) (kind : MessageKind) (data : Bytes)
  | playerJoined (playerId : Int)
  | playerLeft (playerId : Int) (reason : PlayerLeftReason)
  | playerRejoined (playerId : Int) (wasReplacement : Bool)
  | playerReplaced (playerId : Int)
  | started
  | peerState (playerId : Int) (state : PeerState)
  | candidatePair (playerId : Int) (localType remoteType : String)
  | lobbyError (code message : JString)
  | signalingClosed (code message : JString)

/-- With the state of its `pc`: `added` are the candidates that were given to it. -/
structure PeerLink (D : Type) where
  playerId : Int
  initiator : Bool
  epoch : Nat
  closed : Bool
  signaling : Signaling
  remoteSet : Bool
  reassembler : Reassembler Int
  pendingCandidates : Option (List (Members D))
  added : List (Members D)

inductive Payload (D : Type) where
  | offer (sdp : JString)
  | answer (sdp : JString)
  | ice (candidate : Members D)

/-- A call to the WebRTC stack that is not over. -/
inductive Op where
  | createOffer (player : Int) (epoch : Nat)
  | setLocalOffer (player : Int) (epoch : Nat) (sdp : JString)
  | setRemoteOffer (player : Int) (epoch : Nat) (sdp : JString)
  | createAnswer (player : Int) (epoch : Nat)
  | setLocalAnswer (player : Int) (epoch : Nat) (sdp : JString)
  | setRemoteAnswer (player : Int) (epoch : Nat) (sdp : JString)
  | getStats (player : Int) (epoch : Nat)
  deriving DecidableEq

/-- What is posted. Of the tasks with an epoch the first five are posted when a call to the
stack is over, the others by its callbacks and by timers. -/
inductive Task (D : Type) where
  | start
  | serverText (text : JString)
  | wsClosed
  | localOfferSet (player : Int) (epoch : Nat) (sdp : JString)
  | remoteOfferSet (player : Int) (epoch : Nat)
  | answerSet (player : Int) (epoch : Nat)
  | localAnswerSet (player : Int) (epoch : Nat) (sdp : JString)
  | candidatePair (player : Int) (epoch : Nat) (localType remoteType : String)
  | iceCandidate (player : Int) (epoch : Nat) (candidate : Members D)
  | connectionChange (player : Int) (epoch : Nat) (state : PeerState)
  | reliableData (player : Int) (epoch : Nat) (data : Bytes) (now : Int)
  | bestEffortData (player : Int) (epoch : Nat) (data : Bytes)
  | rebuild (player : Int) (epoch : Nat)
  | submitReliable (target : Int)
  | submitBestEffort (target : Int) (data : Bytes)
  | submitBroadcast (data : Bytes)
  | shutdown

/-- A signal of the link with an epoch, or the leave. -/
inductive Sent (D : Type) where
  | signal (target : Int) (epoch : Nat) (payload : Payload D)
  | leave

/-- What a task finds outside: how many calls the stack takes, whether the WebRTC stack can
make a connection, whether the one it looks at is in state failed, and whether its
best-effort channel takes a datagram. -/
structure Env where
  calls : Nat
  creates : Int → Bool
  failed : Bool
  takes : Int → Bool

/-- The actor, with what it has said so far. A link is named by its epoch; of a send channel
the actor sets the link. `store` is the content of the file at `storagePath`, `timers` are
the rebuilds that were scheduled, with their delay. -/
structure Actor (D : Type) where
  selfId : Int
  maxPlayers : Int
  roster : List PlayerInfo
  rosterMirror : List PlayerInfo
  peers : Int → Option Nat
  links : Nat → Option (PeerLink D)
  sendChannels : Int → Option (Option Nat)
  rebuildCounts : Int → Option Nat
  epochCounter : Nat
  startedFlag : Bool
  fatalSeen : Bool
  closed : Bool
  storagePath : Option JString
  store : Option JString
  sent : List (Sent D)
  events : List Event
  datagrams : List (Int × Bytes)
  timers : List (Int × Nat × Nat)
  ops : List Op

variable {D : Type}

/-- `Roster.fromSnapshot`, for one player of the snapshot. -/
def applyPlayer (lib : JavaNumbers D) (roster : List PlayerInfo) (o : Value D) : List PlayerInfo :=
  match asObject o with
  | none => roster
  | some p =>
    let id := intVal lib p "id" (-1)
    if 0 ≤ id ∧ id < roster.length then
      roster.set id.toNat ⟨id, bool p "occupied" false, bool p "connected" false⟩
    else roster

def fromSnapshot (lib : JavaNumbers D) (maxPlayers : Int) (players : Option (List (Value D))) :
    List PlayerInfo :=
  (players.getD []).foldl (applyPlayer lib)
    ((List.range maxPlayers.toNat).map fun (i : Nat) => ⟨i, false, false⟩)

def Actor.setRoster (a : Actor D) (roster : List PlayerInfo) : Actor D :=
  { a with roster := roster, rosterMirror := roster }

def setSlot (roster : List PlayerInfo) (playerId : Int) (occupied connected : Bool) :
    List PlayerInfo :=
  if 0 ≤ playerId ∧ playerId < roster.length then
    roster.set playerId.toNat ⟨playerId, occupied, connected⟩
  else roster

/-- The slot of a player, if there is one. -/
def slotOf (roster : List PlayerInfo) (playerId : Int) : Option PlayerInfo :=
  if 0 ≤ playerId then roster[playerId.toNat]? else none

def Actor.emit (a : Actor D) (event : Event) : Actor D :=
  if a.closed then a else { a with events := a.events ++ [event] }

def PeerLink.close (link : PeerLink D) : PeerLink D := { link with closed := true }

def Actor.linkTo (a : Actor D) (playerId : Int) : Option (PeerLink D) :=
  (a.peers playerId).bind a.links

def Actor.modifyLink (a : Actor D) (epoch : Nat) (f : PeerLink D → PeerLink D) : Actor D :=
  { a with links := Function.update a.links epoch ((a.links epoch).map f) }

def Actor.closePeer (a : Actor D) (playerId : Int) : Actor D :=
  match a.peers playerId with
  | none => a
  | some epoch =>
    let a := a.modifyLink epoch PeerLink.close
    { a with
      peers := Function.update a.peers playerId none
      sendChannels := Function.update a.sendChannels playerId
        ((a.sendChannels playerId).map fun _ => none) }

/-- The channels go first, then the link to every player. -/
def Actor.teardownPeers (a : Actor D) : Actor D :=
  { a with
    peers := fun _ => none
    links := fun e => (a.links e).map fun link =>
      if a.peers link.playerId = some e then link.close else link
    sendChannels := fun _ => none }

/-- `Storage.clear`. -/
def Actor.clearStorage (a : Actor D) : Actor D :=
  match a.storagePath with
  | none => a
  | some _ => { a with store := none }

/-- `closed` and `shuttingDown` are set together. -/
def Actor.doShutdown (a : Actor D) : Actor D :=
  if a.closed then a
  else
    let a := { a with closed := true, sent := a.sent ++ [Sent.leave] }
    a.teardownPeers.clearStorage

/-- Nothing is put in the old link's place if the connection cannot be made. -/
def Actor.createLink (env : Env) (a : Actor D) (playerId : Int) (initiator : Bool) : Actor D :=
  let a := a.closePeer playerId
  let epoch := a.epochCounter + 1
  let a := { a with epochCounter := epoch }
  if env.creates playerId then
    { a with
      peers := Function.update a.peers playerId (some epoch)
      links := Function.update a.links epoch
        (some ⟨playerId, initiator, epoch, false, .stable, false, .empty, some [], []⟩)
      sendChannels := Function.update a.sendChannels playerId
        ((a.sendChannels playerId).map fun _ => some epoch) }
  else a

def Actor.linkEpochCurrent (a : Actor D) (playerId : Int) (epoch : Nat) : Bool :=
  match a.linkTo playerId with
  | none => false
  | some link => link.epoch = epoch && !link.closed

def Actor.call (a : Actor D) (op : Op) : Actor D := { a with ops := a.ops ++ [op] }

def Actor.initiatePeer (env : Env) (a : Actor D) (playerId : Int) : Actor D :=
  if a.closed then a
  else
    let a := a.createLink env playerId true
    if env.creates playerId then a.call (.createOffer playerId a.epochCounter) else a

def Actor.resetPeer (env : Env) (a : Actor D) (playerId : Int) : Actor D :=
  if playerId = a.selfId then a
  else
    let a := a.closePeer playerId
    let a := { a with rebuildCounts := Function.update a.rebuildCounts playerId none }
    if a.selfId < playerId then a.initiatePeer env playerId else a

def Actor.sendSignal (a : Actor D) (target : Int) (epoch : Nat) (payload : Payload D) : Actor D :=
  if a.closed then a else { a with sent := a.sent ++ [.signal target epoch payload] }

/-- A candidate without a text is not given to the stack. -/
def PeerLink.addCandidate (lib : JavaNumbers D) (link : PeerLink D) (candidate : Members D) :
    PeerLink D :=
  match str lib candidate "candidate" with
  | none | some [] => link
  | some _ => { link with added := link.added ++ [candidate] }

def PeerLink.flushCandidates (lib : JavaNumbers D) (link : PeerLink D) : PeerLink D :=
  match link.pendingCandidates with
  | none => link
  | some pending =>
    pending.foldl (PeerLink.addCandidate lib) { link with pendingCandidates := none }

def PeerLink.takeCandidate (lib : JavaNumbers D) (candidate : Members D) (link : PeerLink D) :
    PeerLink D :=
  match link.pendingCandidates with
  | some pending => { link with pendingCandidates := some (pending ++ [candidate]) }
  | none => link.addCandidate lib candidate

def Actor.flushCandidates (lib : JavaNumbers D) (a : Actor D) (playerId : Int) : Actor D :=
  match a.peers playerId with
  | none => a
  | some epoch => a.modifyLink epoch (PeerLink.flushCandidates lib)

def Actor.handleOffer (env : Env) (a : Actor D) (source : Int) (sdp : Option JString) : Actor D :=
  if a.selfId < source then a
  else match sdp with
    | none => a
    | some sdp =>
      let a := a.createLink env source false
      if env.creates source then a.call (.setRemoteOffer source a.epochCounter sdp) else a

def Actor.handleAnswer (a : Actor D) (source : Int) (sdp : Option JString) : Actor D :=
  match a.linkTo source with
  | none => a
  | some link =>
    if link.closed ∨ link.signaling ≠ .haveLocalOffer then a
    else match sdp with
      | none => a
      | some sdp => a.call (.setRemoteAnswer source link.epoch sdp)

def Actor.handleCandidate (lib : JavaNumbers D) (a : Actor D) (source : Int)
    (candidate : Option (Members D)) : Actor D :=
  match candidate, a.peers source, a.linkTo source with
  | some candidate, some epoch, some link =>
    if link.closed then a else a.modifyLink epoch (PeerLink.takeCandidate lib candidate)
  | _, _, _ => a

def Actor.handleSignal (lib : JavaNumbers D) (env : Env) (a : Actor D) (source : Int)
    (payload : Option (Members D)) : Actor D :=
  if a.closed ∨ source = a.selfId then a
  else match payload with
    | none => a
    | some payload =>
      let kind := str lib payload "kind"
      if kind = some (units "offer") then a.handleOffer env source (str lib payload "sdp")
      else if kind = some (units "answer") then a.handleAnswer source (str lib payload "sdp")
      else if kind = some (units "ice") then
        a.handleCandidate lib source ((get payload (units "candidate")).bind asObject)
      else a

def isFatalCode (code : JString) : Bool :=
  code = units "replaced" ∨ code = units "session-superseded" ∨ code = units "room-expired" ∨
    code = units "slow-consumer"

def isGameOverCode (code : JString) : Bool :=
  code = units "replaced" ∨ code = units "session-superseded" ∨ code = units "room-expired"

def Actor.handleError (a : Actor D) (code message : JString) : Actor D :=
  if isFatalCode code then
    let a := { a with fatalSeen := true }
    let a :=
      if isGameOverCode code then
        let a := a.teardownPeers
        if code ≠ units "session-superseded" then a.clearStorage else a
      else a
    a.emit (.signalingClosed code message)
  else a.emit (.lobbyError code message)

def Actor.handlePlayerLeft (a : Actor D) (pid : Int) (reason : PlayerLeftReason) : Actor D :=
  let occupied := fun (slot : PlayerInfo) => if reason = .explicitLeave then false else slot.occupied
  let a := a.setRoster (match slotOf a.roster pid with
    | none => a.roster
    | some slot => a.roster.set pid.toNat ⟨pid, occupied slot, false⟩)
  let a := if reason = .explicitLeave then a.closePeer pid else a
  a.emit (.playerLeft pid reason)

/-- The body of `handleServerText`, once the text is an object. -/
def Actor.handleMembers (lib : JavaNumbers D) (env : Env) (a : Actor D) (m : Members D) : Actor D :=
  let type := str lib m "type"
  let pid := intVal lib m "playerId" (-1)
  if type = some (units "player-joined") then
    let a := a.setRoster (fromSnapshot lib a.maxPlayers ((get m (units "players")).bind asArray))
    (a.emit (.playerJoined pid)).resetPeer env pid
  else if type = some (units "player-left") then
    a.handlePlayerLeft pid (leftReason (strOr lib m "reason" "disconnected"))
  else if type = some (units "player-rejoined") then
    let a := a.setRoster (setSlot a.roster pid true true)
    (a.emit (.playerRejoined pid (bool m "wasReplacement" false))).resetPeer env pid
  else if type = some (units "player-replaced") then
    let a := a.setRoster (setSlot a.roster pid true true)
    (a.emit (.playerReplaced pid)).resetPeer env pid
  else if type = some (units "room-started") then
    { a with startedFlag := true }.emit .started
  else if type = some (units "signal") then
    a.handleSignal lib env (intVal lib m "from" (-1)) ((get m (units "payload")).bind asObject)
  else if type = some (units "error") then
    a.handleError (strOr lib m "code" "error") (strOr lib m "message" "")
  else a

/-- A text that cannot be read is dropped; if the stack overflows the task is over. -/
def Actor.handleServerText (lib : JavaNumbers D) (env : Env) (a : Actor D) (text : JString) :
    Actor D :=
  if a.closed then a
  else match parse lib.toJavaLib env.calls text with
    | some (.ok (.map m)) => a.handleMembers lib env m
    | _ => a

def Actor.handleWsClosed (a : Actor D) : Actor D :=
  if !a.closed && !a.fatalSeen then
    { a with fatalSeen := true }.emit (.signalingClosed (units "connection-lost")
      (units "signaling connection lost; existing peer channels stay up"))
  else a

def Actor.onRemoteOfferSet (lib : JavaNumbers D) (a : Actor D) (source : Int) (epoch : Nat) :
    Actor D :=
  if !a.linkEpochCurrent source epoch then a
  else (a.flushCandidates lib source).call (.createAnswer source epoch)

def maxPeerRebuilds : Nat := 3

def Actor.handlePeerFailure (a : Actor D) (playerId : Int) (epoch : Nat) : Actor D :=
  match a.linkTo playerId with
  | none => a
  | some link =>
    if !link.initiator || a.closed then a
    else
      let count := (a.rebuildCounts playerId).getD 0 + 1
      let a := { a with rebuildCounts := Function.update a.rebuildCounts playerId (some count) }
      if count > maxPeerRebuilds then a
      else { a with timers := a.timers ++ [(playerId, epoch, 1000 * count)] }

def Actor.handlePeerState (a : Actor D) (playerId : Int) (epoch : Nat) (state : PeerState) :
    Actor D :=
  if !a.linkEpochCurrent playerId epoch then a
  else
    let a := a.emit (.peerState playerId state)
    match state with
    | .connected =>
      { a with rebuildCounts := Function.update a.rebuildCounts playerId none }.call
        (.getStats playerId epoch)
    | .failed => a.handlePeerFailure playerId epoch
    | _ => a

def Actor.onReliableData (a : Actor D) (playerId : Int) (epoch : Nat) (data : Bytes) (now : Int) :
    Actor D :=
  match a.linkTo playerId with
  | none => a
  | some link =>
    if link.epoch ≠ epoch then a
    else match Reliable.parse data with
      | .error _ => a
      | .ok frame =>
        let pushed := link.reassembler.push frame now
        let a := a.modifyLink epoch fun link => { link with reassembler := pushed.1 }
        match pushed.2 with
        | none => a
        | some message => a.emit (.message playerId .reliable message)

def Actor.rebuild (env : Env) (a : Actor D) (playerId : Int) (epoch : Nat) : Actor D :=
  if a.closed || !a.linkEpochCurrent playerId epoch || !env.failed then a
  else match slotOf a.roster playerId with
    | none => a
    | some slot => if slot.occupied && slot.connected then a.initiatePeer env playerId else a

/-- The channel of a player starts with the link the player has. -/
def Actor.sendChannelFor (a : Actor D) (playerId : Int) : Actor D :=
  match a.sendChannels playerId with
  | some _ => a
  | none =>
    { a with sendChannels := Function.update a.sendChannels playerId (some (a.peers playerId)) }

def Actor.bestEffortTo (env : Env) (a : Actor D) (target : Int) (data : Bytes) : Actor D :=
  match a.linkTo target with
  | none => a
  | some link =>
    if link.closed || !env.takes target then a
    else { a with datagrams := a.datagrams ++ [(target, data)] }

/-- The players that the first offers go to. -/
def Actor.initialTargets (a : Actor D) : List Int :=
  (a.roster.filter fun p =>
    decide (p.id ≠ a.selfId) && p.occupied && p.connected && decide (a.selfId < p.id)).map (·.id)

def Actor.broadcastTargets (a : Actor D) : List Int :=
  (a.roster.filter fun p => decide (p.id ≠ a.selfId) && p.occupied).map (·.id)

def Actor.runTask (lib : JavaNumbers D) (env : Env) (a : Actor D) : Task D → Actor D
  | .start => a.initialTargets.foldl (fun a p => a.initiatePeer env p) a
  | .serverText text => a.handleServerText lib env text
  | .wsClosed => a.handleWsClosed
  | .localOfferSet p epoch sdp =>
    if a.linkEpochCurrent p epoch then a.sendSignal p epoch (.offer sdp) else a
  | .remoteOfferSet p epoch => a.onRemoteOfferSet lib p epoch
  | .answerSet p epoch => if a.linkEpochCurrent p epoch then a.flushCandidates lib p else a
  | .localAnswerSet p epoch sdp =>
    if a.linkEpochCurrent p epoch then a.sendSignal p epoch (.answer sdp) else a
  | .candidatePair p epoch localType remoteType =>
    if a.linkEpochCurrent p epoch then a.emit (.candidatePair p localType remoteType) else a
  | .iceCandidate p epoch candidate =>
    if a.linkEpochCurrent p epoch then a.sendSignal p epoch (.ice candidate) else a
  | .connectionChange p epoch state => a.handlePeerState p epoch state
  | .reliableData p epoch data now => a.onReliableData p epoch data now
  | .bestEffortData p epoch data =>
    if a.linkEpochCurrent p epoch then a.emit (.message p .bestEffort data) else a
  | .rebuild p epoch => a.rebuild env p epoch
  | .submitReliable target => if a.closed then a else a.sendChannelFor target
  | .submitBestEffort target data => a.bestEffortTo env target data
  | .submitBroadcast data => a.broadcastTargets.foldl (fun a p => a.bestEffortTo env p data) a
  | .shutdown => a.doShutdown

/-- How a call to the stack ends. -/
inductive Outcome where
  | created (sdp : JString)
  | set
  | pair (localType remoteType : String)
  | failed

def PeerLink.describe (signaling : Signaling) (remote : Bool) (link : PeerLink D) : PeerLink D :=
  { link with signaling := signaling, remoteSet := link.remoteSet || remote }

/-- What the end of a call does: it changes the state of the connection, makes another call,
or posts a task. -/
def Actor.finish (a : Actor D) : Op → Outcome → Actor D × List (Task D)
  | .createOffer p epoch, .created sdp => (a.call (.setLocalOffer p epoch sdp), [])
  | .setLocalOffer p epoch sdp, .set =>
    (a.modifyLink epoch (PeerLink.describe .haveLocalOffer false), [.localOfferSet p epoch sdp])
  | .setRemoteOffer p epoch _, .set =>
    (a.modifyLink epoch (PeerLink.describe .haveRemoteOffer true), [.remoteOfferSet p epoch])
  | .createAnswer p epoch, .created sdp => (a.call (.setLocalAnswer p epoch sdp), [])
  | .setLocalAnswer p epoch sdp, .set =>
    (a.modifyLink epoch (PeerLink.describe .stable false), [.localAnswerSet p epoch sdp])
  | .setRemoteAnswer p epoch _, .set =>
    (a.modifyLink epoch (PeerLink.describe .stable true), [.answerSet p epoch])
  | .getStats p epoch, .pair localType remoteType =>
    (a, [.candidatePair p epoch localType remoteType])
  | _, _ => (a, [])

/-- The actor and the queue of its thread. -/
structure State (D : Type) where
  actor : Actor D
  exec : List (Task D)

/-- The tasks that are posted when a call to the stack is over. -/
def Task.continues : Task D → Bool
  | .localOfferSet .. | .remoteOfferSet .. | .answerSet .. | .localAnswerSet ..
  | .candidatePair .. => true
  | _ => false

/-- A rebuild is posted by a timer that was set for it. -/
def Task.Due (a : Actor D) : Task D → Prop
  | .rebuild p epoch => ∃ delay, (p, epoch, delay) ∈ a.timers
  | _ => True

inductive Label (D : Type) where
  | post (task : Task D)
  | finish (op : Op) (outcome : Outcome)
  | run (env : Env) (task : Task D)

/-- The other tasks are posted at any time, calls end in any order, and the thread takes the
tasks in the order in which they were posted. -/
def step (lib : JavaNumbers D) (s : State D) : Label D → State D → Prop
  | .post task, t => task.continues = false ∧ task.Due s.actor ∧
      t = { s with exec := s.exec ++ [task] }
  | .finish op outcome, t => op ∈ s.actor.ops ∧
      let ended := { s.actor with ops := s.actor.ops.erase op }.finish op outcome
      t = ⟨ended.1, s.exec ++ ended.2⟩
  | .run env task, t => ∃ rest, s.exec = task :: rest ∧ t = ⟨s.actor.runTask lib env task, rest⟩

/-- What the client has read of the joined message when its actor is made. -/
structure Joined where
  selfId : Int
  maxPlayers : Int
  started : Bool
  resumeToken : JString
  roster : List PlayerInfo

/-- What `P2PGame.connect` reads. -/
def Joined.read (lib : JavaNumbers D) (m : Members D) : Joined where
  selfId := intVal lib m "selfId" 0
  maxPlayers := intVal lib m "maxPlayers" 0
  started := bool m "started" false
  resumeToken := strOr lib m "resumeToken" ""
  roster := fromSnapshot lib (intVal lib m "maxPlayers" 0) ((get m (units "players")).bind asArray)

def Actor.new (storagePath : Option JString) (joined : Joined) : Actor D where
  selfId := joined.selfId
  maxPlayers := joined.maxPlayers
  roster := joined.roster
  rosterMirror := joined.roster
  peers := fun _ => none
  links := fun _ => none
  sendChannels := fun _ => none
  rebuildCounts := fun _ => none
  epochCounter := 0
  startedFlag := joined.started
  fatalSeen := false
  closed := false
  storagePath := storagePath
  store := storagePath.map fun _ => joined.resumeToken
  sent := []
  events := []
  datagrams := []
  timers := []
  ops := []

def system (lib : JavaNumbers D) (storagePath : Option JString) (joined : Joined) :
    System (State D) (Label D) where
  init := fun s => s = ⟨Actor.new storagePath joined, []⟩
  step := step lib

end Lobbylink.Java.Tasks
