import Lobbylink.Client.Native
import Lobbylink.Server.Slots

/-! The clients around a lobby. Each reaches it through one transport, a queue in
either direction, and a slot may change hands at any time. A session description
is the link that made it, an answer also the offer it was made for. -/
namespace Lobbylink.System.Signaling
open Client.Protocol Client.Native Server.Lobby Server.Registry Server.Slots Lib.Runs

/-- A link, named by the client that made it and its epoch there. -/
structure LinkId where
  conn : Conn
  epoch : Nat
  deriving DecidableEq

inductive Desc where
  | offer (link : LinkId)
  | answer (link offer : LinkId)
  deriving DecidableEq

def Desc.link : Desc → LinkId
  | .offer link => link
  | .answer link _ => link

/-- The link whose offer this is, or whose offer it answers. -/
def Desc.offered : Desc → LinkId
  | .offer link => link
  | .answer _ link => link

/-- The WebRTC stack of the client behind `c`, apart from what it answers. -/
def named (rtc : Rtc Desc) (c : Conn) : Rtc Desc :=
  { rtc with
    offerOf := fun epoch => .offer ⟨c, epoch⟩
    answerOf := fun epoch offer => .answer ⟨c, epoch⟩ offer.link }

/-- How payloads are written as text; the lobby relays the text. -/
structure Codec where
  encode : SignalPayload Desc → String
  decode : String → Option (SignalPayload Desc)
  decode_encode : ∀ payload, decode (encode payload) = some payload

/-- A client and its transport: the session the server keeps for it, its actor
once it has heard that it joined, and the two queues, oldest first. -/
structure Player where
  session : Session
  game : Option (Game Desc)
  up : List (ClientMessage Desc)
  down : List (ServerMessage Desc)

structure State where
  manager : Manager
  players : Conn → Option Player

/-- `lose` is the server noticing that a transport is gone. An undelivered message
stays in its queue, as it does when a connection dies. -/
inductive Action where
  | enter (conn : Conn) (op : Op) (env : Env)
  | serve (conn : Conn) (env : Env) (answers : Bool)
  | lose (conn : Conn) (env : Env)
  | touch (conn : Conn) (env : Env)
  | collect (env : Env)
  | deliver (conn : Conn) (rtc : Rtc Desc)
  | input (conn : Conn) (rtc : Rtc Desc) (input : Input Desc)

/-- What a call made on transports puts in the queue of `c`. A kick sends its error
and takes nothing more. -/
def hears (codec : Codec) (c : Conn) : Out → Option (ServerMessage Desc)
  | .enqueue d msg true => if d = c then decode codec.decode msg else none
  | .enqueue _ _ false => none
  | .kick d code message => if d = c then some (.error code.text message) else none

def Player.hear (k : Player) (msgs : List (ServerMessage Desc)) : Player :=
  { k with down := k.down ++ msgs }

def State.set (s : State) (c : Conn) (k : Player) : State :=
  { s with players := Function.update s.players c (some k) }

/-- The lobby after an operation, which everyone hears of who has to. -/
def State.call (codec : Codec) (sha256 : String → TokenHash) (s : State) (op : Op)
    (env : Env) : State :=
  let r := s.manager.apply sha256 env op
  ⟨r.manager, fun c => (s.players c).map fun k => k.hear (r.out.filterMap (hears codec c))⟩

/-- The call that the handler of a transport makes for a message. -/
def clientOp (codec : Codec) (c : Conn) (sess : Session) : ClientMessage Desc → Op
  | .signal target payload => .signal sess c target (codec.encode payload)
  | .leave => .leave sess c

/-- The error a handler answers with, if it does. -/
def replied : Reply → List (ServerMessage Desc)
  | .relayed (.error err) => [.error err.code.text err.message]
  | _ => []

/-- What the actor has said goes into the queue. -/
def Player.runs (k : Player) (g : Game Desc) : Player :=
  { k with
    game := some { g with actor := { g.actor with sent := [] } }
    up := k.up ++ g.actor.sent }

def Player.take (rtc : Rtc Desc) (k : Player) (input : Input Desc) : Option Player :=
  match k.game with
  | none => none
  | some g => if g.running then some (k.runs (g.take rtc input)) else none

/-- `connect` waits for the joined message, then the actor takes every message. -/
def Player.receive (rtc : Rtc Desc) (k : Player) : Option Player :=
  match k.down with
  | [] => none
  | msg :: rest =>
    let k := { k with down := rest }
    match k.game with
    | some _ => k.take rtc (.internal (.ws msg))
    | none => match msg with
      | .joined joined => some (k.runs (Game.start rtc none joined))
      | _ => some k

def State.next (codec : Codec) (sha256 : String → TokenHash) (s : State) :
    Action → Option State
  | .enter c op env =>
    if (s.players c).isNone && opJoining op == some c then
      match (s.manager.apply sha256 env op).reply with
      | .session (.ok sess) => some ((s.set c ⟨sess, none, [], []⟩).call codec sha256 op env)
      | _ => some (s.call codec sha256 op env)
    else none
  | .serve c env answers => do
    let k ← s.players c
    match k.up with
    | [] => none
    | msg :: rest =>
      let op := clientOp codec c k.session msg
      let reply := (s.manager.apply sha256 env op).reply
      let t := (s.set c { k with up := rest }).call codec sha256 op env
      let k ← t.players c
      return t.set c (k.hear (if answers then replied reply else []))
  | .lose c env => do
    let k ← s.players c
    return s.call codec sha256 (.disconnect k.session c) env
  | .touch c env => do
    let k ← s.players c
    return s.call codec sha256 (.touch k.session c) env
  | .collect env => some (s.call codec sha256 .gc env)
  | .deliver c rtc => do
    let k ← s.players c
    let k ← k.receive (named rtc c)
    return s.set c k
  | .input c rtc input =>
    match input with
    | .internal (.ws _) => none
    | _ => do
      let k ← s.players c
      let k ← k.take (named rtc c) input
      return s.set c k

def signaling (codec : Codec) (sha256 : String → TokenHash) (limits : Limits) :
    System State Action where
  init s := s = ⟨newManager limits, fun _ => none⟩
  step s action t := s.next codec sha256 action = some t

/-- The player that an offer or answer is for. -/
def negotiates : ClientMessage Desc → Option PlayerId
  | .signal p (.offer _) | .signal p (.answer _) => some p
  | _ => none

/-- The player that got a new transport. -/
def noticeOf : ServerMessage Desc → Option PlayerId
  | .playerJoined p _ | .playerRejoined p _ | .playerReplaced p => some p
  | _ => none

/-- An offer or answer for a player and the notice that this player is another one
now, under way in opposite directions. -/
def crosses (msg : ClientMessage Desc) (notice : ServerMessage Desc) : Bool :=
  (negotiates msg).isSome && negotiates msg == noticeOf notice

/-- The transport is still the one of its slot. -/
def State.holds (s : State) (c : Conn) (k : Player) : Bool :=
  ((s.manager.room k.session.room).slot k.session.playerID).conn == some c

/-- The link to `p` has made an offer and waits for the answer. -/
def waits (g : Game Desc) (p : PlayerId) : Bool :=
  match g.actor.peers p with
  | none => false
  | some peer => peer.link.signaling == .haveLocalOffer

/-- No offer or answer meets the notice that it is for somebody else by now, and no
link is rebuilt while it waits for an answer. -/
def State.orderly (s : State) : Action → Bool
  | .serve c _ _ =>
    match s.players c with
    | none => true
    | some k => match k.up with
      | [] => true
      | msg :: _ => !s.holds c k || k.down.all fun notice => !crosses msg notice
  | .deliver c _ =>
    match s.players c with
    | none => true
    | some k => match k.down with
      | [] => true
      | notice :: _ => !s.holds c k || k.up.all fun msg => !crosses msg notice
  | .input c rtc (.internal (.rebuild p epoch)) =>
    match s.players c with
    | none => true
    | some k => match k.game with
      | none => true
      | some g => !(g.actor.rebuilds rtc p epoch && waits g p)
  | _ => true

/-- The client behind `c` sets the answer of `p` on its current link to `p`. -/
structure Applies (s : State) (c : Conn) (rtc : Rtc Desc) (k : Player) (g : Game Desc)
    (p : PlayerId) (link : Link) (sdp : Desc) : Prop where
  player : s.players c = some k
  game : k.game = some g
  running : g.running = true
  head : k.down.head? = some (.signal p (.answer sdp))
  heeds : g.actor.closed = false
  other : p ≠ g.actor.selfId
  link : (g.actor.peers p).map (·.link) = some link
  taken : g.actor.takesAnswer (named rtc c) p = true

end Lobbylink.System.Signaling
