import Lobbylink.Lib.Runs

/-! The threads of the Java client that a reliable send passes through: the callers
of `sendReliable`, the actor with its executor, one sender per player, and `close`. -/
namespace Lobbylink.Java.Actor
open Lib.Runs

/-- A `CompletableFuture` of `submitReliable`, by the order of their creation. -/
abbrev Done := Nat

inductive Answer
  | sent
  | closed
  | failed
  deriving DecidableEq

/-- A runnable for the actor. Of the server's messages it matters whether they end the game. -/
inductive Task
  | submit (player : Nat) (done : Done)
  | shutdown
  | message (gameOver : Bool)
  deriving DecidableEq

def Task.isSend : Task → Bool
  | .submit _ _ => true
  | _ => false

/-- Where a sender is in `runSender`. -/
inductive Phase
  | test
  | take
  | taken (job : Done)
  | sending (job : Done)
  | drain
  | failing (remaining : List Done)
  | ended
  deriving DecidableEq

/-- A `SendChannel` with its thread; of a job the future alone matters. -/
structure Sender where
  shutdown : Bool
  queue : List Done
  phase : Phase

/-- What happens to a sender: nothing it can tell, an interrupt, an exception that
`sendOne` declares, or one that it does not. -/
inductive Luck
  | normal
  | interrupt
  | failure
  | unchecked
  deriving DecidableEq

inductive Running
  | idle
  | task (task : Task)
  | stopping (left : List Nat) (closing : Bool)
  deriving DecidableEq

/-- Where a caller is in `sendReliable`. -/
inductive Caller
  | idle
  | allowed (player : Nat)
  | waiting (done : Done)
  deriving DecidableEq

/-- Where the closing thread is in `close`. -/
inductive Closer
  | idle
  | waiting
  | returned
  deriving DecidableEq

/-- `senders` are all that were ever started; `sendChannels` maps players to those in use. -/
structure State where
  closedFlag : Bool
  closed : Bool
  shuttingDown : Bool
  shutdownFuture : Bool
  exec : List Task
  stopped : Bool
  running : Running
  senders : List Sender
  sendChannels : List (Nat × Nat)
  callers : Nat → Caller
  closer : Closer
  created : Nat
  answers : Done → Option Answer

def start : State where
  closedFlag := false
  closed := false
  shuttingDown := false
  shutdownFuture := false
  exec := []
  stopped := false
  running := .idle
  senders := []
  sendChannels := []
  callers := fun _ => .idle
  closer := .idle
  created := 0
  answers := fun _ => none

def State.complete (s : State) (done : Done) (answer : Answer) : State :=
  { s with answers := fun d => if d = done then (s.answers d).or (some answer) else s.answers d }

/-- `exec.execute`; a task that is rejected is dropped. -/
def State.post (s : State) (task : Task) : State :=
  if s.stopped then s else { s with exec := s.exec ++ [task] }

def State.caller (s : State) (thread : Nat) (c : Caller) : State :=
  { s with callers := fun t => if t = thread then c else s.callers t }

def State.submitReliable (s : State) (thread player : Nat) : State :=
  ({ s with created := s.created + 1 }.caller thread (.waiting s.created)).post
    (.submit player s.created)

def State.requestClose (s : State) : State := { s with closer := .waiting }.post .shutdown

/-- `exec.shutdownNow` takes the queued tasks off the executor. -/
def State.stopExecutors (s : State) : State :=
  { s with closer := .returned, stopped := true, exec := [] }

def Sender.add (c : Sender) (job : Done) : Sender := { c with queue := c.queue ++ [job] }

def Sender.stop (c : Sender) : Sender := { c with shutdown := true }

def State.modifySender (s : State) (i : Nat) (f : Sender → Sender) : State :=
  { s with senders := s.senders.modify i f }

/-- `sendChannelFor(playerId).queue.add`. -/
def State.enqueue (s : State) (player : Nat) (job : Done) : State :=
  match s.sendChannels.find? fun c => c.1 == player with
  | some (_, i) => s.modifySender i (·.add job)
  | none => { s with
      senders := s.senders ++ [⟨false, [job], .test⟩]
      sendChannels := s.sendChannels ++ [(player, s.senders.length)] }

/-- The first half of `teardownPeers`, up to its loop over the senders. -/
def State.teardownPeers (s : State) (closing : Bool) : State :=
  { s with running := .stopping (s.sendChannels.map Prod.snd) closing }

/-- The actor's thread goes on with its task. -/
def State.run (s : State) : Option State :=
  match s.running with
  | .idle => none
  | .task (.submit player done) =>
    let s := { s with running := .idle }
    some (if s.closed then s.complete done .closed else s.enqueue player done)
  | .task .shutdown =>
    some (if s.shuttingDown then { s with running := .idle }
      else { s with shuttingDown := true, closed := true, closedFlag := true }.teardownPeers true)
  | .task (.message gameOver) =>
    some (if !s.closed && gameOver then s.teardownPeers false else { s with running := .idle })
  | .stopping (i :: left) closing =>
    some ({ s with running := .stopping left closing }.modifySender i Sender.stop)
  | .stopping [] closing =>
    some { s with
      running := .idle, sendChannels := []
      shutdownFuture := s.shutdownFuture || closing }

/-- One move of a sender in `runSender`, with the future that it completes. A thread
is interrupted by `stopSender` only. -/
def Sender.move (c : Sender) (luck : Luck) : Option (Sender × Option (Done × Answer)) :=
  match c.phase, luck with
  | .test, .normal => some ({ c with phase := if c.shutdown then .drain else .take }, none)
  | .take, .normal =>
    match c.queue with
    | [] => none
    | job :: rest => some ({ c with phase := .taken job, queue := rest }, none)
  | .take, .interrupt => if c.shutdown then some ({ c with phase := .drain }, none) else none
  | .taken job, .normal =>
    some (if c.shutdown then ({ c with phase := .drain }, some (job, .closed))
      else ({ c with phase := .sending job }, none))
  | .sending job, .normal => some ({ c with phase := .test }, some (job, .sent))
  | .sending job, .failure => some ({ c with phase := .test }, some (job, .failed))
  | .sending _, .unchecked => some ({ c with phase := .ended }, none)
  | .drain, .normal => some ({ c with phase := .failing c.queue, queue := [] }, none)
  | .failing (job :: rest), .normal =>
    some ({ c with phase := .failing rest }, some (job, .closed))
  | .failing [], .normal => some ({ c with phase := .ended }, none)
  | _, _ => none

/-- What a thread does next. The tests of `sendReliable` other than the one of
`closedFlag` pass or fail; `stop` is `close` after its wait, however long. -/
inductive Act
  | test (thread player : Nat) (passes : Bool)
  | submit (thread : Nat)
  | answered (thread : Nat)
  | close
  | stop
  | receive (gameOver : Bool)
  | take
  | run
  | sender (i : Nat) (luck : Luck)
  deriving DecidableEq

def next (s : State) : Act → Option State
  | .test thread player passes =>
    match s.callers thread with
    | .idle => some (if !s.closedFlag && passes then s.caller thread (.allowed player) else s)
    | _ => none
  | .submit thread =>
    match s.callers thread with
    | .allowed player => some (s.submitReliable thread player)
    | _ => none
  | .answered thread =>
    match s.callers thread with
    | .waiting done => (s.answers done).map fun _ => s.caller thread .idle
    | _ => none
  | .close => if s.closer = .idle then some s.requestClose else none
  | .stop => if s.closer = .waiting then some s.stopExecutors else none
  | .receive gameOver => some (s.post (.message gameOver))
  | .take =>
    match s.running, s.exec with
    | .idle, task :: rest => some { s with running := .task task, exec := rest }
    | _, _ => none
  | .run => s.run
  | .sender i luck =>
    (s.senders[i]?.bind fun c => c.move luck).map fun moved =>
      let s := s.modifySender i fun _ => moved.1
      match moved.2 with
      | some (done, answer) => s.complete done answer
      | none => s

def system : System State Act where
  init := (· = start)
  step := fun s a t => next s a = some t

/-- The job that a sender has in hand. -/
def Phase.hand : Phase → List Done
  | .taken job | .sending job => [job]
  | .failing remaining => remaining
  | _ => []

/-- `close` has returned and no thread has a task left. -/
structure State.Quiet (s : State) : Prop where
  closer_eq : s.closer = .returned
  exec_eq : s.exec = []
  running_eq : s.running = .idle
  senders_eq : ∀ c ∈ s.senders, c.phase = .ended ∨ (c.phase.hand = [] ∧ c.queue = [])

/-- Every future that `submitReliable` returned has been completed. -/
def State.Answered (s : State) : Prop := ∀ done < s.created, s.answers done ≠ none

end Lobbylink.Java.Actor
