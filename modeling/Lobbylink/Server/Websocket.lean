import Lobbylink.Server.Policy
import Lobbylink.Lib.Runs

/-! The server as a whole: one handler for each websocket, all of them and the
collector interleaved in any order. A handler touches the lobby with one call at
a time and keeps its session in a local variable. -/
namespace Lobbylink.Server.Websocket
open Protocol Lobby Registry Policy Lib.Runs

/-- Where a handler stands between two steps of its own. -/
inductive Phase where
  | reading
  | handling (data : Except String ClientMessage)
  | replying (err : ProtoError)
  | closing
  | returned

structure Handler where
  origin : String
  sess : Option Session
  phase : Phase

/-- `handleWS` is still running. -/
def Handler.running (h : Handler) : Prop := h.phase ≠ .returned

/-- Transports are numbered in the order their sockets were accepted. -/
structure State where
  manager : Manager
  handlers : List Handler

/-- What a socket may do, or the collector. `proceed` lets a handler take its
next step; the three others are what its `Read` may return. -/
inductive Event where
  | accept (origin : String)
  | readError (conn : Conn)
  | binary (conn : Conn)
  | text (conn : Conn) (data : Except String ClientMessage)
  | proceed (conn : Conn)
  | gc

/-- A handler's next step: the lobby call it makes, the calls on its own
transport, and itself once the lobby has answered. -/
structure Move where
  op : Option Op := none
  own : List Out := []
  next : Reply → Handler

def alreadyJoined : ProtoError := ⟨.alreadyJoined, "already in a room; send leave first"⟩
def notJoinedYet : ProtoError := ⟨.notJoined, "join a room before signaling"⟩

/-- The handler after its lobby call, when only an error needs an answer. -/
def Handler.afterCall (h : Handler) : Reply → Handler
  | .session (.ok sess) => { h with sess := some sess, phase := .reading }
  | .session (.error err) => { h with phase := .replying err }
  | .relayed (.error err) => { h with phase := .replying err }
  | _ => { h with phase := .reading }

def Handler.reply (h : Handler) (err : ProtoError) : Move :=
  { next := fun _ => { h with phase := .replying err } }

/-- The switch of `readLoop` on the parsed message. -/
def Handler.dispatch (cfg : Config) (conn : Conn) (h : Handler) (msg : ClientMessage) : Move :=
  match msg.type with
  | .join | .claimSlot =>
    if h.sess.isSome then h.reply alreadyJoined
    else match cfg.joinOrClaim msg conn h.origin with
      | .error err => h.reply err
      | .ok op => { op := some op, next := h.afterCall }
  | .signal =>
    match h.sess with
    | none => h.reply notJoinedYet
    | some sess =>
      -- `ParseClientMessage` has refused a signal without a target
      { op := some (.signal sess conn (msg.toPlayer.getD 0) msg.payload.raw)
        next := h.afterCall }
  | .leave =>
    { op := h.sess.map fun sess => .leave sess conn
      next := fun _ => { h with sess := none, phase := .reading } }
  | .missing | .unknown _ => { next := fun _ => { h with phase := .reading } }

def Handler.move (cfg : Config) (env : Env) (conn : Conn) (h : Handler) : Event → Option Move
  | .readError _ =>
    match h.phase with
    | .reading => some { next := fun _ => { h with phase := .closing } }
    | _ => none
  | .binary _ =>
    match h.phase with
    | .reading => some {
        own := [.kick conn .invalidMessage "signaling messages must be text frames"]
        next := fun _ => { h with phase := .closing } }
    | _ => none
  | .text _ data =>
    match h.phase with
    | .reading => some {
        op := h.sess.map fun sess => .touch sess conn
        next := fun _ => { h with phase := .handling data } }
    | _ => none
  | .proceed _ =>
    match h.phase with
    | .handling data => match parseClientMessage data with
      | .error err => some (h.reply err)
      | .ok msg => some (h.dispatch cfg conn msg)
    | .replying err => some {
        own := [.enqueue conn (errorMessage err) (env.accepts 0)]
        next := fun _ => { h with phase := .reading } }
    | .closing => some {
        op := h.sess.map fun sess => .disconnect sess conn
        next := fun _ => { h with phase := .returned } }
    | .reading | .returned => none
  | _ => none

def Event.conn : Event → Option Conn
  | .accept _ | .gc => none
  | .readError c | .binary c | .text c _ | .proceed c => some c

structure Label where
  event : Event
  env : Env
  op : Option Op
  out : List Out
  reply : Reply

/-- The lobby call of a step, if it makes one. -/
def State.call (sha256 : String → TokenHash) (env : Env) (m : Manager) : Option Op → Result
  | none => ⟨m, [], .none⟩
  | some op => m.apply sha256 env op

/-- One step of the server, with what an observer sees of it. -/
def State.next (cfg : Config) (sha256 : String → TokenHash) (s : State) (event : Event)
    (env : Env) : Option (State × Label) :=
  match event with
  | .accept origin =>
    if cfg.wsOriginAllowed origin then
      some ({ s with handlers := s.handlers ++ [⟨origin, none, .reading⟩] },
        ⟨event, env, none, [], .none⟩)
    else none
  | .gc =>
    let r := State.call sha256 env s.manager (some .gc)
    some ({ s with manager := r.manager }, ⟨event, env, some .gc, r.out, r.reply⟩)
  | .readError c | .binary c | .text c _ | .proceed c => do
    let h ← s.handlers[c]?
    let mv ← h.move cfg env c event
    let r := State.call sha256 env s.manager mv.op
    some (⟨r.manager, s.handlers.set c (mv.next r.reply)⟩,
      ⟨event, env, mv.op, mv.own ++ r.out, r.reply⟩)

def server (cfg : Config) (sha256 : String → TokenHash) (limits : Limits) :
    System State Label where
  init s := s = ⟨newManager limits, []⟩
  step s l t := s.next cfg sha256 l.event l.env = some (t, l)

/-- A step is an accepted socket, a collection, or a move of one handler. -/
inductive Stepped (cfg : Config) (sha256 : String → TokenHash) (s t : State) (l : Label) :
    Prop where
  | accepted (origin : String) :
      t = { s with handlers := s.handlers ++ [⟨origin, none, .reading⟩] } → l.event.conn = none →
      l.op = none → l.out = [] → l.reply = .none → Stepped cfg sha256 s t l
  | collected : t = { s with manager := (State.call sha256 l.env s.manager (some .gc)).manager } →
      l.event.conn = none → l.op = some .gc →
      l.out = (State.call sha256 l.env s.manager (some .gc)).out →
      l.reply = (State.call sha256 l.env s.manager (some .gc)).reply → Stepped cfg sha256 s t l
  | moved (c : Conn) (h : Handler) (mv : Move) :
      s.handlers[c]? = some h → l.event.conn = some c →
      h.move cfg l.env c l.event = some mv →
      t = ⟨(State.call sha256 l.env s.manager mv.op).manager,
        s.handlers.set c (mv.next (State.call sha256 l.env s.manager mv.op).reply)⟩ →
      l.op = mv.op → l.out = mv.own ++ (State.call sha256 l.env s.manager mv.op).out →
      l.reply = (State.call sha256 l.env s.manager mv.op).reply → Stepped cfg sha256 s t l

theorem step_cases {cfg : Config} {sha256 : String → TokenHash} {limits : Limits} {s t : State}
    {l : Label} (h : (server cfg sha256 limits).step s l t) : Stepped cfg sha256 s t l := by
  obtain ⟨event, env, op, out, reply⟩ := l
  change s.next cfg sha256 event env = some (t, _) at h
  unfold State.next at h
  cases event with
  | accept origin =>
    simp only at h
    split at h
    · cases h
      exact .accepted origin rfl rfl rfl rfl rfl
    · cases h
  | gc =>
    cases h
    exact .collected rfl rfl rfl rfl rfl
  | readError c | binary c | text c data | proceed c =>
    simp only [Option.bind_eq_bind, Option.bind_eq_some_iff, Option.some.injEq] at h
    obtain ⟨hd, hh, mv, hmv, heq⟩ := h
    cases heq
    exact .moved c hd mv hh rfl hmv rfl rfl rfl rfl

theorem next_label {cfg : Config} {sha256 : String → TokenHash} {s t : State} {event : Event}
    {env : Env} {l : Label} (h : s.next cfg sha256 event env = some (t, l)) :
    l.event = event ∧ l.env = env := by
  unfold State.next at h
  cases event with
  | accept origin =>
    simp only at h
    split at h
    · cases h
      exact ⟨rfl, rfl⟩
    · cases h
  | gc =>
    cases h
    exact ⟨rfl, rfl⟩
  | readError c | binary c | text c data | proceed c =>
    simp only [Option.bind_eq_bind, Option.bind_eq_some_iff, Option.some.injEq] at h
    obtain ⟨_, _, _, _, heq⟩ := h
    cases heq
    exact ⟨rfl, rfl⟩

/-- Lets the events happen in the given order. -/
def exec (cfg : Config) (sha256 : String → TokenHash) :
    List (Event × Env) → State → Option (State × List Label)
  | [], s => some (s, [])
  | (event, env) :: rest, s => do
    let (t, l) ← s.next cfg sha256 event env
    let (u, ls) ← exec cfg sha256 rest t
    return (u, l :: ls)

theorem exec_run {cfg : Config} {sha256 : String → TokenHash} {limits : Limits}
    {events : List (Event × Env)} {ls : List Label} {t : State}
    (h : exec cfg sha256 events ⟨newManager limits, []⟩ = some (t, ls)) :
    Run (server cfg sha256 limits) ls t := by
  have hfrom : ∀ (events : List (Event × Env)) (before ls : List Label) (s t : State),
      Run (server cfg sha256 limits) before s → exec cfg sha256 events s = some (t, ls) →
      Run (server cfg sha256 limits) (before ++ ls) t := by
    intro events
    induction events with
    | nil =>
      intro before ls s t run h
      cases h
      simpa using run
    | cons e rest ih =>
      intro before ls s t run h
      obtain ⟨event, env⟩ := e
      simp only [exec, Option.bind_eq_bind, Option.bind_eq_some_iff, Option.pure_def,
        Option.some.injEq, Prod.mk.injEq] at h
      obtain ⟨⟨u, l⟩, hnext, ⟨v, ls'⟩, hrest, rfl, rfl⟩ := h
      obtain ⟨rfl, rfl⟩ := next_label hnext
      simpa using ih (before ++ [l]) ls' u v (run.step hnext) hrest
  simpa using hfrom events [] ls _ t (.init rfl) h

/-- Every call made on transports over a run. -/
def calls (ls : List Label) : List Out := ls.flatMap (·.out)

@[simp] theorem calls_nil : calls [] = [] := rfl

@[simp] theorem calls_append (a b : List Label) : calls (a ++ b) = calls a ++ calls b :=
  List.flatMap_append

@[simp] theorem calls_singleton (l : Label) : calls [l] = l.out := List.flatMap_singleton ..

def nativeOnly : Config where
  equalFold := fun a b => a == b
  security := { allowNoOrigin := true }
  rooms := {}
  apps := []

def smallLimits : Limits := ⟨300 * second, 24 * hour, 10⟩

/-- A stand-in for the hash: the code points of the token. -/
def codePoints (token : String) : TokenHash := token.toList.map fun c => c.toNat.toUInt8

/-- Every queue has room, the clock stands still during the step. -/
def calm (now : Time) (token : String) : Env := ⟨now, some token, fun _ => true, fun _ => now⟩

/-- A socket that takes a place in the room, which it creates if need be. -/
def enterEvents (conn : Conn) (now : Time) (token : String) (msg : ClientMessage) :
    List (Event × Env) :=
  [(.accept "", calm now ""), (.text conn (.ok msg), calm now ""), (.proceed conn, calm now token)]

def joinMsg (resumeToken : String) : ClientMessage where
  type := .join
  code := "ROOM"
  resumeToken := resumeToken
  create := some { maxPlayers := 2 }

end Lobbylink.Server.Websocket
