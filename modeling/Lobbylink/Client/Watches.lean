import Lobbylink.Client.Native
import Lobbylink.Lib.Runs
import Lobbylink.Lib.Watch

/-! The client's actor with the channels behind its link watches, the tasks behind its
send queues and the roster that its user reads. Everything else is the actor of
`Client.Native`, which each operation carries along. -/
namespace Lobbylink.Client.Watches
open Protocol Roster Framing Native Lib.Runs Lib.Watch

/-- What a sender task has of `wait_link`: nothing yet, no open link up to a version of its
channel, a link, or the error that its channel is gone. -/
inductive Wait where
  | idle
  | asleep (seen : Nat)
  | found (epoch : Nat)
  | closed
  deriving DecidableEq, Repr

/-- A send queue with its sender task and the channel the task has subscribed to. -/
structure SendQueue where
  jobs : List Bytes
  channel : Nat
  wait : Wait

/-- `channels` are all the channels ever made for a player, oldest first. Of those
`linkWatch` has the one whose sender is in the map, if any; the others' are dropped.
A channel holds the epoch of a link. -/
structure Actor (Sdp : Type) where
  native : Native.Actor Sdp
  channels : PlayerId → List (Channel (Option Nat))
  linkWatch : PlayerId → Option Nat
  sendQueues : PlayerId → Option SendQueue
  sharedRoster : List PlayerInfo

variable {Sdp : Type}

/-- The link of the player's entry in `peers`. -/
def linkOf (a : Native.Actor Sdp) (p : PlayerId) : Option Nat :=
  (a.peers p).map (·.link.epoch)

/-- What `connect` starts: the mirror is a copy of the roster. -/
def Actor.new (storagePath : Option String) (joined : JoinedMsg) : Actor Sdp where
  native := .new storagePath joined
  channels := fun _ => []
  linkWatch := fun _ => none
  sendQueues := fun _ => none
  sharedRoster := rosterFromSnapshot joined.maxPlayers joined.players

/-- `send_replace` on the player's watch, if there is one. -/
def Actor.sendReplace (a : Actor Sdp) (p : PlayerId) (link : Option Nat) : Actor Sdp :=
  match a.linkWatch p with
  | none => a
  | some c => { a with
      channels := Function.update a.channels p ((a.channels p).modify c (.sendReplace link)) }

/-- `insert(watch::channel(link).0)`. -/
def Actor.insertWatch (a : Actor Sdp) (p : PlayerId) (link : Option Nat) : Actor Sdp :=
  { a with
    channels := Function.update a.channels p (a.channels p ++ [.new link])
    linkWatch := Function.update a.linkWatch p (some (a.channels p).length) }

def Actor.closePeer (a : Actor Sdp) (p : PlayerId) : Actor Sdp :=
  match a.native.peers p with
  | none => a
  | some _ => { a.sendReplace p none with native := a.native.closePeer p }

/-- Closes the link to every player, then drops the watches and the queues. -/
def Actor.teardownPeers (a : Actor Sdp) : Actor Sdp where
  native := a.native.teardownPeers
  channels := fun p => (a.closePeer p).channels p
  linkWatch := fun _ => none
  sendQueues := fun _ => none
  sharedRoster := a.sharedRoster

def Actor.shutdown (a : Actor Sdp) : Actor Sdp :=
  { a.teardownPeers with native := a.native.shutdown }

def Actor.emit (a : Actor Sdp) (event : Event) : Actor Sdp :=
  { a with native := a.native.emit event }

def Actor.syncRoster (a : Actor Sdp) : Actor Sdp :=
  { a with sharedRoster := a.native.roster }

/-- A failure leaves the watch as `close_peer` has set it. -/
def Actor.createLink (rtc : Rtc Sdp) (a : Actor Sdp) (p : PlayerId) (initiator : Bool) :
    Actor Sdp :=
  let native := a.native.createLink rtc p initiator
  let a := { a.closePeer p with native := native }
  if rtc.creates p then
    match a.linkWatch p with
    | some _ => a.sendReplace p (some native.epochCounter)
    | none => a.insertWatch p (some native.epochCounter)
  else a

def Actor.initiatePeer (rtc : Rtc Sdp) (a : Actor Sdp) (p : PlayerId) : Actor Sdp :=
  if a.native.closed then a
  else { a.createLink rtc p true with native := a.native.initiatePeer rtc p }

def Actor.resetPeer (rtc : Rtc Sdp) (a : Actor Sdp) (p : PlayerId) : Actor Sdp :=
  if p = a.native.selfId then a
  else
    let a := a.closePeer p
    let rebuildCounts := Function.update a.native.rebuildCounts p none
    let a := { a with native := { a.native with rebuildCounts := rebuildCounts } }
    if a.native.selfId < p then a.initiatePeer rtc p else a

def Actor.answerOffer (rtc : Rtc Sdp) (a : Actor Sdp) (source : PlayerId) (sdp : Sdp) :
    Actor Sdp :=
  { a.createLink rtc source false with native := a.native.answerOffer rtc source sdp }

def Actor.handleSignal (rtc : Rtc Sdp) (a : Actor Sdp) (source : PlayerId)
    (payload : SignalPayload Sdp) : Actor Sdp :=
  if a.native.closed || source = a.native.selfId then a
  else match payload with
    | .offer sdp => if a.native.selfId < source then a else a.answerOffer rtc source sdp
    | .answer _ | .ice _ | .unknown =>
      { a with native := a.native.handleSignal rtc source payload }

def Actor.handleError (a : Actor Sdp) (code message : String) : Actor Sdp :=
  let native := a.native.handleError code message
  if isFatalCode code && isGameOverCode code then { a.teardownPeers with native := native }
  else { a with native := native }

def Actor.handleServerMessage (rtc : Rtc Sdp) (a : Actor Sdp) (msg : ServerMessage Sdp) :
    Actor Sdp :=
  let roster := updateRoster a.native.maxPlayers a.native.roster msg
  let a := { a with native := { a.native with roster := roster } }
  match msg with
  | .playerJoined p _ => (a.syncRoster.emit (.playerJoined p)).resetPeer rtc p
  | .playerLeft p reason =>
    let reason := PlayerLeftReason.fromWire reason
    let a := a.syncRoster
    let a := if reason = .explicitLeave then a.closePeer p else a
    a.emit (.playerLeft p reason)
  | .playerRejoined p wasReplacement =>
    (a.syncRoster.emit (.playerRejoined p wasReplacement)).resetPeer rtc p
  | .playerReplaced p => (a.syncRoster.emit (.playerReplaced p)).resetPeer rtc p
  | .roomStarted =>
    { a with native := { a.native with started := true }.emit .started }
  | .signal source payload => a.handleSignal rtc source payload
  | .error code message => a.handleError code message
  | .joined _ | .unknown => a

def Actor.handleInternal (rtc : Rtc Sdp) (a : Actor Sdp) (input : Internal Sdp) : Actor Sdp :=
  match input with
  | .ws msg => a.handleServerMessage rtc msg
  | .rebuild p epoch => if a.native.rebuilds rtc p epoch then a.initiatePeer rtc p else a
  | .wsClosed | .ice .. | .state .. | .reliable .. | .bestEffort .. | .pair .. =>
    { a with native := a.native.handleInternal rtc input }

/-- `link_rx`: the player's watch, which is made here if there is none. -/
def Actor.subscribe (a : Actor Sdp) (p : PlayerId) : Actor Sdp × Nat :=
  match a.linkWatch p with
  | some c => (a, c)
  | none => (a.insertWatch p (linkOf a.native p), (a.channels p).length)

/-- A new queue has its sender task wait on the subscription; the task of an old one
keeps its own. -/
def Actor.sendReliable (a : Actor Sdp) (target : PlayerId) (data : Bytes) : Actor Sdp :=
  if a.native.closed then a
  else
    let native := a.native.sendReliable target data
    let (a, linkRx) := a.subscribe target
    let queue := (a.sendQueues target).getD ⟨[], linkRx, .idle⟩
    let queue := { queue with jobs := queue.jobs ++ [data] }
    { a with native := native, sendQueues := Function.update a.sendQueues target (some queue) }

def Actor.handleCmd (rtc : Rtc Sdp) (a : Actor Sdp) (cmd : Cmd) : Actor Sdp :=
  match cmd with
  | .sendReliable target data => a.sendReliable target data
  | .sendBestEffort .. | .broadcastBestEffort _ | .close =>
    { a with native := a.native.handleCmd rtc cmd }

structure Game (Sdp : Type) where
  actor : Actor Sdp
  running : Bool

def Game.native (g : Game Sdp) : Native.Game Sdp := ⟨g.actor.native, g.running⟩

def Game.start (rtc : Rtc Sdp) (storagePath : Option String) (joined : JoinedMsg) :
    Game Sdp :=
  let a := Actor.new storagePath joined
  ⟨(initialTargets a.native).foldl (fun a p => a.initiatePeer rtc p) a, true⟩

def Game.take (rtc : Rtc Sdp) (g : Game Sdp) (input : Input Sdp) : Game Sdp :=
  if !g.running then g
  else match input with
  | .cmd .close | .cmdsEnded => ⟨g.actor.shutdown, false⟩
  | .cmd cmd => ⟨g.actor.handleCmd rtc cmd, true⟩
  | .internal input => ⟨g.actor.handleInternal rtc input, true⟩

/-- One turn of the loop in `wait_link`: the value at a version, and whether its link was
found open. -/
def Wait.turn (version : Nat) (link : Option Nat) (isOpen : Bool) : Wait :=
  match link with
  | none => .asleep version
  | some epoch => if isOpen then .found epoch else .asleep version

/-- A task looks when it has a job, and in `changed` at a version that is new to it. -/
def Wait.looksAt (version : Nat) : Wait → Prop
  | .asleep seen => seen < version
  | .idle | .found _ | .closed => True

def Actor.setWait (a : Actor Sdp) (p : PlayerId) (queue : SendQueue) (wait : Wait) :
    Actor Sdp :=
  { a with sendQueues := Function.update a.sendQueues p (some { queue with wait := wait }) }

/-- The actor takes an input, or the sender task of a player takes a turn. -/
inductive Label (Sdp : Type) where
  | takes (rtc : Rtc Sdp) (input : Input Sdp)
  | looks (p : PlayerId) (version : Nat) (isOpen : Bool)
  | disconnected (p : PlayerId)
  | timedOut (p : PlayerId)

/-- A task runs beside the actor: in a turn that began during an input it may have read a
version that has been replaced since, of a link that has been closed since. -/
inductive Stepped (g : Game Sdp) : Label Sdp → Game Sdp → Prop where
  | takes (rtc : Rtc Sdp) (input : Input Sdp) : Stepped g (.takes rtc input) (g.take rtc input)
  | looks {p : PlayerId} {version : Nat} {isOpen : Bool} {queue : SendQueue}
      {channel : Channel (Option Nat)} {link : Option Nat} :
      g.actor.sendQueues p = some queue →
      (g.actor.channels p)[queue.channel]? = some channel →
      channel.history[version]? = some link →
      queue.wait.looksAt version →
      (∀ epoch, link = some epoch → isOpen = false → g.actor.native.isClosed epoch = true) →
      Stepped g (.looks p version isOpen)
        { g with actor := g.actor.setWait p queue (.turn version link isOpen) }
  | disconnected {p : PlayerId} {queue : SendQueue} {seen : Nat} :
      g.actor.sendQueues p = some queue →
      queue.wait = .asleep seen →
      g.actor.linkWatch p ≠ some queue.channel →
      Stepped g (.disconnected p) { g with actor := g.actor.setWait p queue .closed }
  | timedOut {p : PlayerId} {queue : SendQueue} {seen : Nat} :
      g.actor.sendQueues p = some queue →
      queue.wait = .asleep seen →
      Stepped g (.timedOut p) { g with actor := g.actor.setWait p queue .idle }

def system (Sdp : Type) (joined : JoinedMsg) : System (Game Sdp) (Label Sdp) where
  init := fun g => ∃ rtc storagePath, g = Game.start rtc storagePath joined
  step := Stepped

@[simp] theorem native_sendReplace (a : Actor Sdp) (p : PlayerId) (link : Option Nat) :
    (a.sendReplace p link).native = a.native := by
  unfold Actor.sendReplace
  cases a.linkWatch p <;> rfl

@[simp] theorem native_insertWatch (a : Actor Sdp) (p : PlayerId) (link : Option Nat) :
    (a.insertWatch p link).native = a.native := rfl

@[simp] theorem native_closePeer (a : Actor Sdp) (p : PlayerId) :
    (a.closePeer p).native = a.native.closePeer p := by
  unfold Actor.closePeer Native.Actor.closePeer
  cases a.native.peers p <;> rfl

@[simp] theorem native_createLink (rtc : Rtc Sdp) (a : Actor Sdp) (p : PlayerId)
    (initiator : Bool) :
    (a.createLink rtc p initiator).native = a.native.createLink rtc p initiator := by
  unfold Actor.createLink
  simp only
  split_ifs
  · split
    · rw [native_sendReplace]
    · rfl
  · rfl

@[simp] theorem native_initiatePeer (rtc : Rtc Sdp) (a : Actor Sdp) (p : PlayerId) :
    (a.initiatePeer rtc p).native = a.native.initiatePeer rtc p := by
  unfold Actor.initiatePeer
  split_ifs with h
  · unfold Native.Actor.initiatePeer
    rw [if_pos h]
  · rfl

@[simp] theorem native_resetPeer (rtc : Rtc Sdp) (a : Actor Sdp) (p : PlayerId) :
    (a.resetPeer rtc p).native = a.native.resetPeer rtc p := by
  unfold Actor.resetPeer Native.Actor.resetPeer
  simp only [native_closePeer]
  split_ifs
  · rfl
  · rw [native_initiatePeer]
  · rfl

@[simp] theorem native_handleSignal (rtc : Rtc Sdp) (a : Actor Sdp) (source : PlayerId)
    (payload : SignalPayload Sdp) :
    (a.handleSignal rtc source payload).native = a.native.handleSignal rtc source payload := by
  unfold Actor.handleSignal
  by_cases h : (a.native.closed || decide (source = a.native.selfId)) = true
  · unfold Native.Actor.handleSignal
    rw [if_pos h, if_pos h]
  rw [if_neg h]
  cases payload with
  | offer sdp =>
    unfold Native.Actor.handleSignal
    rw [if_neg h]
    simp only
    split_ifs <;> rfl
  | answer | ice | unknown => rfl

@[simp] theorem native_handleError (a : Actor Sdp) (code message : String) :
    (a.handleError code message).native = a.native.handleError code message := by
  unfold Actor.handleError
  simp only
  split_ifs <;> rfl

@[simp] theorem native_handleServerMessage (rtc : Rtc Sdp) (a : Actor Sdp)
    (msg : ServerMessage Sdp) :
    (a.handleServerMessage rtc msg).native = a.native.handleServerMessage rtc msg := by
  unfold Actor.handleServerMessage Native.Actor.handleServerMessage
  cases msg with
  | playerJoined | playerRejoined | playerReplaced => exact native_resetPeer _ _ _
  | playerLeft p reason =>
    simp only
    split_ifs
    · simp only [Actor.emit, native_closePeer]
      rfl
    · rfl
  | roomStarted => rfl
  | signal => exact native_handleSignal _ _ _ _
  | error => exact native_handleError _ _ _
  | joined | unknown => rfl

@[simp] theorem native_handleInternal (rtc : Rtc Sdp) (a : Actor Sdp) (input : Internal Sdp) :
    (a.handleInternal rtc input).native = a.native.handleInternal rtc input := by
  cases input with
  | ws msg => exact native_handleServerMessage rtc a msg
  | rebuild p epoch =>
    simp only [Actor.handleInternal, Native.Actor.handleInternal]
    split_ifs
    · exact native_initiatePeer rtc a p
    · rfl
  | _ => rfl

@[simp] theorem native_handleCmd (rtc : Rtc Sdp) (a : Actor Sdp) (cmd : Cmd) :
    (a.handleCmd rtc cmd).native = a.native.handleCmd rtc cmd := by
  cases cmd with
  | sendReliable target data =>
    simp only [Actor.handleCmd, Native.Actor.handleCmd, Actor.sendReliable]
    split_ifs with h
    · unfold Native.Actor.sendReliable
      rw [if_pos h]
    · rfl
  | _ => rfl

theorem native_take (rtc : Rtc Sdp) (g : Game Sdp) (input : Input Sdp) :
    (g.take rtc input).native = g.native.take rtc input := by
  unfold Game.take Native.Game.take
  change (if !g.running then _ else _ : Game Sdp).native = if !g.running then _ else _
  split_ifs
  · rfl
  cases input with
  | cmdsEnded => rfl
  | internal input => simp [Game.native]
  | cmd cmd =>
    cases cmd with
    | close => rfl
    | _ => simp [Game.native]

theorem native_start (rtc : Rtc Sdp) (storagePath : Option String) (joined : JoinedMsg) :
    (Game.start rtc storagePath joined).native = Native.Game.start rtc storagePath joined := by
  have hnew : (Actor.new storagePath joined : Actor Sdp).native = .new storagePath joined := rfl
  simp only [Game.native, Game.start, Native.Game.start, ← hnew, Native.Game.mk.injEq, and_true]
  exact (List.foldl_hom Actor.native fun a p => (native_initiatePeer rtc a p).symm).symm

/-- What the actor is given; the tasks' turns are their own. -/
def Label.input : Label Sdp → Option (Rtc Sdp × Input Sdp)
  | .takes rtc input => some (rtc, input)
  | .looks .. | .disconnected _ | .timedOut _ => none

theorem native_run {joined : JoinedMsg} {ls : List (Label Sdp)} {g : Game Sdp}
    (run : Run (system Sdp joined) ls g) :
    ∃ rtc storagePath, g.native = (ls.filterMap Label.input).foldl
      (fun g l => g.take l.1 l.2) (Native.Game.start rtc storagePath joined) := by
  induction run with
  | init h =>
    obtain ⟨rtc, storagePath, rfl⟩ := h
    exact ⟨rtc, storagePath, native_start rtc storagePath joined⟩
  | @step ls s t l _ hstep ih =>
    obtain ⟨rtc, storagePath, ih⟩ := ih
    refine ⟨rtc, storagePath, ?_⟩
    rw [List.filterMap_append, List.foldl_append, ← ih]
    cases hstep with
    | takes rtc input => exact native_take rtc s input
    | looks | disconnected | timedOut => rfl

end Lobbylink.Client.Watches
