import Lobbylink.Client.Roster
import Lobbylink.Client.Sender
import Lobbylink.Lib.Runs
import Mathlib.Logic.Function.Basic

/-! The reliable sends of the browser client. One thread takes turns between tasks:
a sending task runs from one `await` to the next, and nothing else happens meanwhile. -/
namespace Lobbylink.Wasm.Inner
open Lib.Bytes Lib.Runs Client.Framing Client.Protocol Client.Roster
open Client.Sender (chunkFrame)

def sendHighWater : Nat := 2 ^ 20

def sendLowWater : Nat := 256 * 1024

/-- The codes of `LobbyError` that a send can end with. -/
inductive Fault where
  | invalidTarget | closed | targetUnavailable | messageTooLarge
  | channelTimeout | peerClosed | sendFailed
  deriving DecidableEq, Repr

/-- `RtcDataChannelState`. -/
inductive ReadyState where
  | connecting | opened | closing | closed
  deriving DecidableEq, Repr

/-- Jobs are numbered in the order of the calls. -/
structure SendJob where
  id : Nat
  data : Bytes
  deriving DecidableEq, Repr

structure SendQueue where
  items : List SendJob
  running : Bool

structure Link where
  playerId : PlayerId
  closed : Bool
  nextMsgId : UInt32

/-- Where `send_worker` is. The phases `awaitLink`, `awaitOpen` and `awaitDrain` are its
awaits, with what their oneshot has received; a task not polled yet is at `top`. -/
inductive Phase where
  | top
  | findLink (job : SendJob)
  | awaitLink (job : SendJob) (received : Option (Option Nat))
  | findOpen (job : SendJob) (link : Nat)
  | awaitOpen (job : SendJob) (link : Nat) (received : Option Bool)
  | chunk (job : SendJob) (link : Nat) (msgId : UInt32) (seq : Nat)
  | awaitDrain (job : SendJob) (link : Nat) (msgId : UInt32) (seq : Nat)
  | returned

/-- The job that was taken and is not completed. -/
def Phase.job : Phase → Option SendJob
  | .top | .returned => none
  | .findLink job | .awaitLink job _ | .findOpen job _ | .awaitOpen job _ _
  | .chunk job _ _ _ | .awaitDrain job _ _ _ => some job

def Phase.live : Phase → Bool
  | .returned => false
  | _ => true

structure Worker where
  player : PlayerId
  phase : Phase

/-- `Inner`, the tasks and the history. A link is named by its index in `links`; `offers`
are the tasks `handle_signal` of an offer that were spawned and not polled; `turn` is the
worker that runs. Calls that were queued end with an answer of the worker, or with
`closed` when their job is dropped. -/
structure State where
  selfId : PlayerId
  maxPlayers : Nat
  roster : List PlayerInfo
  closed : Bool
  links : List Link
  peers : PlayerId → Option Nat
  sendQueues : PlayerId → Option SendQueue
  workers : List Worker
  turn : Option Nat
  offers : List PlayerId
  calls : Nat
  queued : PlayerId → List SendJob
  started : PlayerId → List SendJob
  dropped : PlayerId → List SendJob
  answers : List (Nat × Except Fault Unit)
  frames : PlayerId → List (Nat × Bytes)

def State.linkClosed (s : State) (l : Nat) : Bool :=
  match s.links[l]? with
  | none => true
  | some link => link.closed

/-- The link is the one of its player. -/
def State.holds (s : State) (l : Nat) : Bool :=
  match s.links[l]? with
  | none => false
  | some link => s.peers link.playerId = some l

def Worker.change (f : Phase → Phase) (c : Worker) : Worker := { c with phase := f c.phase }

/-- The open waiters of a link that goes receive `false`. -/
def Phase.loseLink (gone : Nat → Bool) : Phase → Phase
  | .awaitOpen job l none => .awaitOpen job l (if gone l then some false else none)
  | phase => phase

/-- The link waiters of the player receive the link. -/
def Phase.getLink (l : Nat) : Phase → Phase
  | .awaitLink job none => .awaitLink job (some (some l))
  | phase => phase

/-- The senders of the link waiters are dropped. -/
def Phase.loseWaiter : Phase → Phase
  | .awaitLink job none => .awaitLink job (some none)
  | phase => phase

/-- The open waiters of the link receive what its channel has come to. -/
def Phase.getOpen (l : Nat) (opened : Bool) : Phase → Phase
  | .awaitOpen job k none => .awaitOpen job k (if k = l then some opened else none)
  | phase => phase

/-- `Link::close` for the links that go. -/
def State.closeLinks (s : State) (gone : Nat → Bool) : State :=
  { s with
    links := s.links.mapIdx fun l link => if gone l then { link with closed := true } else link
    workers := s.workers.map (Worker.change (Phase.loseLink gone)) }

def State.closePeer (s : State) (p : PlayerId) : State :=
  match s.peers p with
  | none => s
  | some l =>
    { s with peers := Function.update s.peers p none }.closeLinks fun k => decide (k = l)

def queueItems : Option SendQueue → List SendJob
  | none => []
  | some queue => queue.items

def State.teardownPeers (s : State) : State :=
  let torn := { s with
    peers := fun _ => none
    sendQueues := fun _ => none
    dropped := fun p => s.dropped p ++ queueItems (s.sendQueues p) }.closeLinks s.holds
  { torn with workers := torn.workers.map (Worker.change Phase.loseWaiter) }

def State.shutdown (s : State) : State :=
  if s.closed then s else { s with closed := true }.teardownPeers

/-- `create_link`, which fails unless `creates`. The old link goes in any case. -/
def State.createLink (s : State) (p : PlayerId) (creates : Bool) : State :=
  let s := s.closePeer p
  if creates then
    let l := s.links.length
    { s with
      links := s.links ++ [⟨p, false, 0⟩]
      peers := Function.update s.peers p (some l)
      workers := s.workers.map fun c => if c.player = p then c.change (Phase.getLink l) else c }
  else s

def State.initiatePeer (s : State) (p : PlayerId) (creates : Bool) : State :=
  if s.closed then s else s.createLink p creates

def State.resetPeer (s : State) (p : PlayerId) (creates : Bool) : State :=
  if s.selfId = p then s
  else
    let s := s.closePeer p
    if s.selfId < p then s.initiatePeer p creates else s

variable {Sdp : Type}

def State.handleError (s : State) (code : String) : State :=
  if isFatalCode code && isGameOverCode code then s.teardownPeers else s

def State.handleServerMessage (s : State) (msg : ServerMessage Sdp) (creates : Bool) : State :=
  if s.closed then s
  else
    let s := { s with roster := updateRoster s.maxPlayers s.roster msg }
    match msg with
    | .playerJoined p _ | .playerRejoined p _ | .playerReplaced p => s.resetPeer p creates
    | .playerLeft p reason =>
      if PlayerLeftReason.fromWire reason = .explicitLeave then s.closePeer p else s
    | .signal source (.offer _) => { s with offers := s.offers ++ [source] }
    | .error code _ => s.handleError code
    | _ => s

/-- The task `handle_signal` of an offer, up to its first await. -/
def State.handleOffer (s : State) (source : PlayerId) (creates : Bool) : State :=
  if s.closed || source = s.selfId || decide (s.selfId < source) then s
  else s.createLink source creates

/-- The timer of `handle_peer_failure` fires and finds its link failed. -/
def State.rebuild (s : State) (p : PlayerId) (creates : Bool) : State :=
  let connected := match s.roster[p]? with
    | none => false
    | some slot => slot.occupied && slot.connected
  if !s.closed && (s.peers p).isSome && connected then s.initiatePeer p creates else s

def State.checkTarget (s : State) (target : PlayerId) : Bool :=
  decide (target < s.maxPlayers) && decide (target ≠ s.selfId)

/-- The checks of `send_reliable` before the message is queued. -/
def State.refuses (s : State) (target : PlayerId) (data : Bytes) : Option Fault :=
  let occupied := match s.roster[target]? with
    | none => false
    | some slot => slot.occupied
  if !s.checkTarget target then some .invalidTarget
  else if s.closed then some .closed
  else if !occupied then some .targetUnavailable
  else if data.length > maxReliableMessage then some .messageTooLarge
  else none

def State.queueReliable (s : State) (target : PlayerId) (data : Bytes) : State :=
  let job : SendJob := ⟨s.calls, data⟩
  let queue := (s.sendQueues target).getD ⟨[], false⟩
  { s with
    calls := s.calls + 1
    sendQueues := Function.update s.sendQueues target (some ⟨queue.items ++ [job], true⟩)
    workers := if queue.running then s.workers else s.workers ++ [⟨target, .top⟩]
    queued := Function.update s.queued target (s.queued target ++ [job]) }

def State.sendReliable (s : State) (target : PlayerId) (data : Bytes) : State :=
  match s.refuses target data with
  | some fault => { s with calls := s.calls + 1, answers := s.answers ++ [(s.calls, .error fault)] }
  | none => s.queueReliable target data

/-- What the browser says while a task runs: whether what it awaits is over by a timeout,
or by an event for `awaitDrain`; the state and the buffer of the reliable channel; and
whether the channel takes a frame. -/
structure Luck where
  elapsed : Bool
  readyState : ReadyState
  bufferedAmount : Nat
  accepts : Bool

/-- The task runs on in another phase. -/
def State.enter (s : State) (w : Nat) (phase : Phase) : State :=
  { s with workers := s.workers.modify w (Worker.change fun _ => phase) }

def State.suspend (s : State) (w : Nat) (phase : Phase) : State :=
  { s.enter w phase with turn := none }

/-- `send_one` returns, and `send_worker` goes round its loop. -/
def State.complete (s : State) (w : Nat) (job : SendJob) (result : Except Fault Unit) : State :=
  { s with answers := s.answers ++ [(job.id, result)] }.enter w .top

/-- The body of the loop of `send_worker` up to `send_one`. -/
def State.takeJob (s : State) (w : Nat) (p : PlayerId) : State :=
  match s.sendQueues p with
  | none => s.suspend w .returned
  | some ⟨[], _⟩ =>
    { s with sendQueues := Function.update s.sendQueues p (some ⟨[], false⟩) }.suspend w .returned
  | some ⟨job :: rest, running⟩ =>
    { s with
      sendQueues := Function.update s.sendQueues p (some ⟨rest, running⟩)
      started := Function.update s.started p (s.started p ++ [job]) }.enter w (.findLink job)

/-- `wait_link` up to its await. -/
def State.waitLink (s : State) (w : Nat) (p : PlayerId) (job : SendJob) : State :=
  if s.closed then s.complete w job (.error .closed)
  else match (s.peers p).filter fun l => !s.linkClosed l with
    | some l => s.enter w (.findOpen job l)
    | none => s.suspend w (.awaitLink job none)

/-- The channel is open: the message takes its number. -/
def State.numberMessage (s : State) (w : Nat) (job : SendJob) (l : Nat) : State :=
  let msgId := match s.links[l]? with
    | none => 0
    | some link => link.nextMsgId
  { s with
    links := s.links.modify l fun link => { link with nextMsgId := link.nextMsgId + 1 } }.enter w
      (.chunk job l msgId 0)

/-- `wait_reliable_open` up to its await. -/
def State.waitReliableOpen (s : State) (w : Nat) (job : SendJob) (l : Nat) (luck : Luck) : State :=
  if s.linkClosed l then s.complete w job (.error .peerClosed)
  else match luck.readyState with
    | .opened => s.numberMessage w job l
    | .connecting => s.suspend w (.awaitOpen job l none)
    | .closing | .closed => s.complete w job (.error .peerClosed)

def State.transmit (s : State) (w : Nat) (p : PlayerId) (job : SendJob) (l : Nat) (msgId : UInt32)
    (seq : Nat) (luck : Luck) : State :=
  if luck.accepts then
    let frame := chunkFrame msgId (chunkCount job.data.length) job.data seq
    { s with frames := Function.update s.frames p (s.frames p ++ [(job.id, frame)]) }.enter w
      (.chunk job l msgId (seq + 1))
  else s.complete w job (.error .sendFailed)

/-- One round of `for seq in 0..total`; the buffer stays as it is while the task runs. -/
def State.sendChunk (s : State) (w : Nat) (p : PlayerId) (job : SendJob) (l : Nat) (msgId : UInt32)
    (seq : Nat) (luck : Luck) : State :=
  if (chunkCount job.data.length).toNat ≤ seq then s.complete w job (.ok ())
  else if s.linkClosed l then s.complete w job (.error .sendFailed)
  else if luck.bufferedAmount ≤ sendHighWater then s.transmit w p job l msgId seq luck
  else s.suspend w (.awaitDrain job l msgId seq)

/-- The next round of the loop of `wait_drain`. -/
def State.drained (s : State) (w : Nat) (p : PlayerId) (job : SendJob) (l : Nat) (msgId : UInt32)
    (seq : Nat) (luck : Luck) : State :=
  if s.linkClosed l then s.complete w job (.error .peerClosed)
  else if luck.bufferedAmount ≤ sendLowWater then s.transmit w p job l msgId seq luck
  else s.suspend w (.awaitDrain job l msgId seq)

/-- What a task whose turn it is does next. -/
def State.advance (s : State) (w : Nat) (c : Worker) (luck : Luck) : State :=
  match c.phase with
  | .top => s.takeJob w c.player
  | .findLink job => s.waitLink w c.player job
  | .awaitLink job (some (some l)) => s.enter w (.findOpen job l)
  | .awaitLink job (some none) => s.complete w job (.error .closed)
  | .awaitLink job none =>
    if luck.elapsed then s.complete w job (.error .channelTimeout)
    else s.suspend w (.awaitLink job none)
  | .findOpen job l => s.waitReliableOpen w job l luck
  | .awaitOpen job l (some true) => s.numberMessage w job l
  | .awaitOpen job _ (some false) => s.complete w job (.error .peerClosed)
  | .awaitOpen job l none =>
    if luck.elapsed then s.complete w job (.error .channelTimeout)
    else s.suspend w (.awaitOpen job l none)
  | .chunk job l msgId seq => s.sendChunk w c.player job l msgId seq luck
  | .awaitDrain job l msgId seq =>
    if luck.elapsed then s.drained w c.player job l msgId seq luck
    else s.suspend w (.awaitDrain job l msgId seq)
  | .returned => { s with turn := none }

/-- `creates` says whether the browser can make a peer connection. -/
inductive Event (Sdp : Type) where
  | sendReliable (target : PlayerId) (data : Bytes)
  | message (msg : ServerMessage Sdp) (creates : Bool)
  | offer (i : Nat) (creates : Bool)
  | rebuild (player : PlayerId) (creates : Bool)
  | channel (link : Nat) (opened : Bool)
  | close
  | poll (worker : Nat)
  | run (luck : Luck)

/-- `onopen` and `onclose` of the reliable channel, which a closed link has no more. -/
def State.channelEvent (s : State) (l : Nat) (opened : Bool) : State :=
  if s.linkClosed l then s
  else { s with workers := s.workers.map (Worker.change (Phase.getOpen l opened)) }

/-- Only a task that runs can do something before it awaits. -/
def next (s : State) (event : Event Sdp) : Option State :=
  match s.turn, event with
  | some w, .run luck => s.workers[w]?.map fun c => s.advance w c luck
  | some _, _ => none
  | none, .sendReliable target data => some (s.sendReliable target data)
  | none, .message msg creates => some (s.handleServerMessage msg creates)
  | none, .offer i creates => s.offers[i]?.map fun source =>
      { s with offers := s.offers.eraseIdx i }.handleOffer source creates
  | none, .rebuild p creates => some (s.rebuild p creates)
  | none, .channel l opened => some (s.channelEvent l opened)
  | none, .close => some s.shutdown
  | none, .poll w => (s.workers[w]?.filter fun c => c.phase.live).map fun _ => { s with turn := some w }
  | none, .run _ => none

/-- The state that `connect` makes of the joined message, before it initiates. -/
def State.new (joined : JoinedMsg) : State where
  selfId := joined.selfId
  maxPlayers := joined.maxPlayers
  roster := rosterFromSnapshot joined.maxPlayers joined.players
  closed := false
  links := []
  peers := fun _ => none
  sendQueues := fun _ => none
  workers := []
  turn := none
  offers := []
  calls := 0
  queued := fun _ => []
  started := fun _ => []
  dropped := fun _ => []
  answers := []
  frames := fun _ => []

def State.connect (joined : JoinedMsg) (creates : PlayerId → Bool) : State :=
  let s := State.new joined
  let targets := s.roster.filter fun slot =>
    slot.id ≠ s.selfId && slot.occupied && slot.connected && decide (s.selfId < slot.id)
  targets.foldl (fun s slot => s.initiatePeer slot.id (creates slot.id)) s

/-- Every interleaving of the calls, the server's messages, the links and the tasks. -/
def interleaving (Sdp : Type) : System State (Event Sdp) where
  init := fun s => ∃ joined creates, s = State.connect joined creates
  step := fun s event t => next s event = some t

end Lobbylink.Wasm.Inner
