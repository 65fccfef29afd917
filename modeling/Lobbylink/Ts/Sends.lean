import Lobbylink.Ts.Game

/-! The reliable sends of the browser client, over its game. A send runs from one `await` to
the next, and whatever else happens comes in between: the page may also write to the buffer it
has passed. -/
namespace Lobbylink.Ts.Sends
open Client.Protocol Client.Roster Reliable Game Lib.Runs

def sendHighWater : Nat := 2 ^ 20
def sendLowWater : Nat := 256 * 1024
def channelTimeoutMs : Nat := 30000

/-- What the buffers of the page hold. -/
def Memory := Nat → Nat → UInt8

structure Uint8Array where
  buffer : Nat
  byteOffset : Nat
  byteLength : Nat

inductive Data where
  | uint8Array (view : Uint8Array)
  | arrayBuffer (buffer byteLength : Nat)

def toBytes : Data → Uint8Array
  | .uint8Array view => view
  | .arrayBuffer buffer byteLength => ⟨buffer, 0, byteLength⟩

def Uint8Array.read (memory : Memory) (view : Uint8Array) : Bytes :=
  (List.range view.byteLength).map fun k => memory view.buffer (view.byteOffset + k)

/-- `RTCDataChannelState`. -/
inductive ReadyState where
  | connecting | opened | closing | closed
  deriving DecidableEq

/-- The promise `openWait`; while it is pending, `openSettle` is there. -/
inductive Wait where
  | pending
  | resolved
  | rejected (err : LobbyError)

/-- The reliable channel of a link, with what the link keeps for its sends. `frames` are those
that the channel took. -/
structure Channel where
  readyState : ReadyState
  bufferedAmount : Nat
  nextMsgId : Nat
  openWait : Option Wait
  frames : List Bytes

def Channel.new : Channel := ⟨.connecting, 0, 0, none, []⟩

/-- The variables of `sendReliableNow`: the link, the message id, and the next chunk. -/
structure Locals where
  link : Nat
  msgId : Nat
  seq : Nat

/-- Where a send is. `queued` waits for the sends before it, `awaitLink` is in `linkWaiters`;
`linked`, `opened` and `drained` are to go on. -/
inductive Phase where
  | queued
  | awaitLink
  | linked (link : Nat)
  | awaitOpen (link : Nat)
  | opened (link : Nat)
  | awaitDrain
  | drained
  | settled (result : Except LobbyError Unit)

/-- A call of `sendReliable` that got into the chain of its target, with the call whose promise it
is chained to. `called` and `handed` are the history: what the view held at the call, and the frames
that were handed over. -/
structure Send where
  target : PlayerId
  bytes : Uint8Array
  prev : Option Nat
  locals : Option Locals
  phase : Phase
  called : Bytes
  handed : List Bytes

/-- What a send meets: whether the channel takes its next frame, as the one with this number,
and the error that it throws if not. -/
structure Luck where
  takes : Nat → Bool
  error : String

/-- The game, the channel of each of its links, the sends in the order of their calls, and the
buffers. An entry of `sendChains` is the `send.catch` of the call with this number. -/
structure Page (Sdp : Type) where
  game : P2PGame Sdp
  channels : Nat → Channel
  sends : List Send
  sendChains : PlayerId → Option Nat
  memory : Memory

variable {Sdp : Type}

def Page.modifyChannel (s : Page Sdp) (n : Nat) (f : Channel → Channel) : Page Sdp :=
  { s with channels := Function.update s.channels n (f (s.channels n)) }

/-- Sends that wait for something come to another phase. -/
def Page.rephase (s : Page Sdp) (f : Send → Phase) : Page Sdp :=
  { s with sends := s.sends.map fun send => { send with phase := f send } }

/-- One send goes on to another phase. -/
def Page.enter (s : Page Sdp) (i : Nat) (phase : Phase) : Page Sdp :=
  { s with sends := s.sends.modify i fun send => { send with phase := phase } }

def peerClosed (what : String) (p : PlayerId) (how : String) : LobbyError :=
  ⟨"peer-closed", s!"{what} to player {p} {how}"⟩

def sendFailed (p : PlayerId) (how : String) : LobbyError :=
  ⟨"send-failed", s!"connection to player {p} {how}"⟩

def gameClosed : LobbyError := ⟨"closed", "game is closed"⟩

/-- `openSettle`, where it is there. -/
def Channel.settleOpen (c : Channel) (outcome : Wait) : Channel :=
  match c.openWait with
  | some .pending => { c with openWait := some outcome }
  | _ => c

/-- `PeerLink.close`; a second time it does nothing. -/
def Channel.close (p : PlayerId) (c : Channel) : Channel :=
  { c.settleOpen (.rejected (peerClosed "connection" p "closed")) with readyState := .closed }

def gone (g : P2PGame Sdp) (n : Nat) : Bool := (g.links n).isSome && !g.live n

/-- The callback calls `teardownPeers`. -/
def tearsDown (g : P2PGame Sdp) : Game.Label Sdp → Bool
  | .message _ (.error code _) => decide (code ∈ fatalCodes) && decide (code ∈ gameOverCodes)
  | .close => !g.closedFlag
  | _ => false

/-- What a callback of the game is for a send: `createLink` resolves the waiters of the player
with the new link, `PeerLink.close` rejects `openWait`, and `teardownPeers` all the waiters. -/
def Send.notice (g : P2PGame Sdp) (torn : Bool) (send : Send) : Phase :=
  match send.phase with
  | .awaitLink =>
    if torn then .settled (.error gameClosed)
    else match g.peers send.target with
      | none => .awaitLink
      | some n => .linked n
  | .awaitOpen n =>
    if gone g n then .settled (.error (peerClosed "connection" send.target "closed"))
    else .awaitOpen n
  | phase => phase

/-- The player a link was made to. -/
def ownerOf (g : P2PGame Sdp) (n : Nat) : PlayerId := (g.links n).elim 0 (·.playerId)

def Page.takeGame [DecidableEq Sdp] (s : Page Sdp) (l : Game.Label Sdp) : Page Sdp :=
  let g := s.game.take l
  let torn := tearsDown s.game l
  Page.rephase
    { s with
      game := g
      channels := fun n =>
        if gone g n then (s.channels n).close (ownerOf g n) else s.channels n }
    (Send.notice g torn)

def awaitLink (g : P2PGame Sdp) (p : PlayerId) : Phase :=
  match g.peers p with
  | none => if g.closedFlag then .settled (.error gameClosed) else .awaitLink
  | some n =>
    if g.live n then .linked n
    else if g.closedFlag then .settled (.error gameClosed)
    else .awaitLink

/-- With the promise that was made before, where there is one. -/
def waitReliableOpen (closed : Bool) (p : PlayerId) (n : Nat) (c : Channel) : Channel × Phase :=
  if c.readyState = .opened then (c, .opened n)
  else if closed ∨ c.readyState ≠ .connecting then
    (c, .settled (.error (peerClosed "channel" p "is closed")))
  else
    match c.openWait with
    | none => ({ c with openWait := some .pending }, .awaitOpen n)
    | some .pending => (c, .awaitOpen n)
    | some .resolved => (c, .opened n)
    | some (.rejected err) => (c, .settled (.error err))

/-- A channel that is not open throws. -/
def dcSend (luck : Luck) (c : Channel) (frame : Bytes) : Option Channel :=
  if c.readyState = .opened ∧ luck.takes c.frames.length = true then
    some { c with
      bufferedAmount := c.bufferedAmount + frame.length
      frames := c.frames ++ [frame] }
  else none

/-- The loop of `sendReliableNow` over the frames that are left, up to its next `await`, with
the number of those it handed over. After an `await` it goes on with `dcSend`. -/
def sendChunks (luck : Luck) (p : PlayerId) (closed : Bool) :
    (drained : Bool) → Channel → List Bytes → Channel × Nat × Phase
  | _, c, [] => (c, 0, .settled (.ok ()))
  | drained, c, frame :: rest =>
    if !drained && closed then (c, 0, .settled (.error (sendFailed p "closed mid-send")))
    else if !drained && decide (c.bufferedAmount > sendHighWater) then (c, 0, .awaitDrain)
    else
      match dcSend luck c frame with
      | none => (c, 0, .settled (.error ⟨"send-failed", s!"send to player {p} failed: {luck.error}"⟩))
      | some c =>
        let (c, k, phase) := sendChunks luck p closed false c rest
        (c, k + 1, phase)

/-- The send goes on from chunk `seq`, with what the view holds by now. -/
def Page.transmit (luck : Luck) (s : Page Sdp) (i : Nat) (send : Send) (vars : Locals)
    (drained : Bool) : Page Sdp :=
  let left := (sendReliableNow vars.msgId (send.bytes.read s.memory)).drop vars.seq
  let (c, k, phase) := sendChunks luck send.target (!s.game.live vars.link) drained
    (s.channels vars.link) left
  { s with
    channels := Function.update s.channels vars.link c
    sends := s.sends.set i { send with
      locals := some { vars with seq := vars.seq + k }
      phase := phase
      handed := send.handed ++ left.take k } }

/-- The message id is taken when the channel is open. -/
def Page.startSend (luck : Luck) (s : Page Sdp) (i : Nat) (send : Send) (n : Nat) : Page Sdp :=
  let msgId := (s.channels n).nextMsgId
  (s.modifyChannel n fun c => { c with nextMsgId := toUint32 (c.nextMsgId + 1) }).transmit luck i send
    ⟨n, msgId, 0⟩ false

/-- A send runs on from where it is to its next `await`. -/
def Page.resume (luck : Luck) (s : Page Sdp) (i : Nat) : Page Sdp :=
  match s.sends[i]? with
  | none => s
  | some send =>
    match send.phase, send.locals with
    | .queued, _ => s.enter i (awaitLink s.game send.target)
    | .linked n, _ =>
      let (c, phase) := waitReliableOpen (!s.game.live n) send.target n (s.channels n)
      (s.modifyChannel n fun _ => c).enter i phase
    | .opened n, _ => s.startSend luck i send n
    | .drained, some vars => s.transmit luck i send vars true
    | _, _ => s

/-- The new send is chained to the last one to its target. -/
def Page.chain (s : Page Sdp) (target : PlayerId) (bytes : Uint8Array) : Page Sdp :=
  { s with
    sends := s.sends ++
      [⟨target, bytes, s.sendChains target, none, .queued, bytes.read s.memory, []⟩]
    sendChains := Function.update s.sendChains target (some s.sends.length) }

def Page.sendReliable (s : Page Sdp) (target : Int) (data : Data) :
    Except LobbyError (Page Sdp) := do
  let bytes := toBytes data
  s.game.checkTarget target
  if !(s.game.roster[target.toNat]?).any (·.occupied) then
    throw ⟨"target-unavailable", s!"no player in slot {target}"⟩
  if bytes.byteLength > maxReliableMessage then
    throw ⟨"message-too-large",
      s!"reliable payload {bytes.byteLength} exceeds {maxReliableMessage} bytes"⟩
  return s.chain target.toNat bytes

/-- The sends in `awaitOpen` of a link come to another phase. -/
def Page.opens (s : Page Sdp) (n : Nat) (phase : Send → Phase) : Page Sdp :=
  s.rephase fun send =>
    match send.phase with
    | .awaitOpen m => if m = n then phase send else .awaitOpen m
    | other => other

/-- The sends in `awaitDrain` on a link come to another phase. -/
def Page.drains (s : Page Sdp) (n : Nat) (phase : Send → Phase) : Page Sdp :=
  s.rephase fun send =>
    match send.phase with
    | .awaitDrain => if (send.locals.map (·.link)) = some n then phase send else .awaitDrain
    | other => other

def Page.onOpen (s : Page Sdp) (n : Nat) : Page Sdp :=
  (s.modifyChannel n fun c => { c.settleOpen .resolved with readyState := .opened }).opens n
    fun _ => .opened n

def Page.onClose (s : Page Sdp) (n : Nat) : Page Sdp :=
  let err := peerClosed "channel" (ownerOf s.game n) "closed"
  ((s.modifyChannel n fun c => { c.settleOpen (.rejected err) with readyState := .closed }).opens n
    fun _ => .settled (.error err)).drains n fun _ => .settled (.error err)

def Page.openTimeout (s : Page Sdp) (n : Nat) : Page Sdp :=
  let err : LobbyError :=
    ⟨"channel-timeout", s!"timed out opening channel to player {ownerOf s.game n}"⟩
  (s.modifyChannel n fun c => c.settleOpen (.rejected err)).opens n fun _ => .settled (.error err)

def Page.linkTimeout (s : Page Sdp) (i : Nat) : Page Sdp :=
  match s.sends[i]? with
  | none => s
  | some send => s.enter i (.settled (.error ⟨"channel-timeout",
      s!"no WebRTC session with player {send.target} within {channelTimeoutMs}ms"⟩))

/-- The poll of `awaitDrain`. -/
def Page.poll (s : Page Sdp) (i : Nat) : Page Sdp :=
  match s.sends[i]? with
  | none => s
  | some send =>
    match send.locals with
    | none => s
    | some vars =>
      if !s.game.live vars.link then
        s.enter i (.settled (.error (peerClosed "channel" send.target "closed")))
      else if (s.channels vars.link).bufferedAmount ≤ sendLowWater then s.enter i .drained
      else s

inductive Label (Sdp : Type) where
  | game (label : Game.Label Sdp)
  | sendReliable (target : Int) (data : Data)
  | resume (luck : Luck) (send : Nat)
  | onOpen (link : Nat)
  | onClose (link : Nat)
  | openTimeout (link : Nat)
  | linkTimeout (send : Nat)
  | transport (link : Nat) (bufferedAmount : Nat)
  | bufferedAmountLow (link : Nat)
  | poll (send : Nat)
  | write (memory : Memory)

def Page.orStay (s : Page Sdp) : Except LobbyError (Page Sdp) → Page Sdp
  | .ok s' => s'
  | .error _ => s

def Page.take [DecidableEq Sdp] (s : Page Sdp) : Label Sdp → Page Sdp
  | .game l => s.takeGame l
  | .sendReliable target data => s.orStay (s.sendReliable target data)
  | .resume luck i => s.resume luck i
  | .onOpen n => s.onOpen n
  | .onClose n => s.onClose n
  | .openTimeout n => s.openTimeout n
  | .linkTimeout i => s.linkTimeout i
  | .transport n amount => s.modifyChannel n fun c => { c with bufferedAmount := amount }
  | .bufferedAmountLow n => s.drains n fun _ => .drained
  | .poll i => s.poll i
  | .write memory => { s with memory := memory }

def Phase.isSettled : Phase → Bool
  | .settled _ => true
  | _ => false

/-- The send can run on, whatever the others do. -/
def Phase.goesOn : Phase → Bool
  | .linked _ | .opened _ | .drained => true
  | _ => false

def Page.At (s : Page Sdp) (i : Nat) (phase : Phase) : Prop :=
  ∃ send, s.sends[i]? = some send ∧ send.phase = phase

/-- `prev` is settled: it is `Promise.resolve()`, or the `catch` of another send. -/
def Page.Chained (s : Page Sdp) (send : Send) : Prop :=
  ∀ j, send.prev = some j → ∃ before, s.sends[j]? = some before ∧ before.phase.isSettled = true

/-- The send can run: the `then` of its chain, or the `await` that it is at. -/
def Page.Ready (s : Page Sdp) (i : Nat) : Prop :=
  ∃ send, s.sends[i]? = some send ∧
    (send.phase = .queued ∧ s.Chained send ∨ send.phase.goesOn = true)

def Page.Enabled (s : Page Sdp) : Label Sdp → Prop
  | .game l => s.game.Enabled l
  | .sendReliable .. => True
  | .resume _ i => s.Ready i
  | .onOpen n => s.game.live n = true ∧ (s.channels n).readyState = .connecting
  | .onClose n => (s.game.links n).isSome
  | .openTimeout n => (s.channels n).openWait = some .pending
  | .linkTimeout i => s.At i .awaitLink
  | .transport n amount => amount ≤ (s.channels n).bufferedAmount
  | .bufferedAmountLow n => (s.channels n).bufferedAmount ≤ sendLowWater
  | .poll i => s.At i .awaitDrain
  | .write _ => True

def Page.start (env : Env) (storage : Option (Option String)) (joined : JoinedMsg) : Page Sdp :=
  let g : P2PGame Sdp := .start env storage joined
  ⟨g, fun n => if gone g n then Channel.new.close (ownerOf g n) else .new, [], fun _ => none,
    fun _ _ => 0⟩

def system [DecidableEq Sdp] (env : Env) (storage : Option (Option String)) (joined : JoinedMsg) :
    System (Page Sdp) (Label Sdp) where
  init := fun s => s = .start env storage joined
  step := fun s l s' => s.Enabled l ∧ s' = s.take l

/-- The page leaves alone what the views of its unsettled sends show. -/
def Page.Keeps (s : Page Sdp) : Label Sdp → Prop
  | .write memory => ∀ send ∈ s.sends, send.phase.isSettled = false →
    send.bytes.read memory = send.bytes.read s.memory
  | _ => True

/-- The runs of a page that does not write to a buffer before the send of it is settled. -/
def keeping [DecidableEq Sdp] (env : Env) (storage : Option (Option String)) (joined : JoinedMsg) :
    System (Page Sdp) (Label Sdp) := (system env storage joined).restrict Page.Keeps

end Lobbylink.Ts.Sends
