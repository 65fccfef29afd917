import Lobbylink.Client.Silence
import Lobbylink.Lib.Runs

/-! The stored resume token. A superseded client must leave it alone, since the
store is shared with its successor. The handler of the error itself does; a later
close, drop or game-over error does not. -/
namespace Lobbylink.Client.TokenStore
open Protocol Roster Framing Reassembly Native Silence Lib.Runs

variable {Sdp : Type}

@[simp] theorem store_closePeer (a : Actor Sdp) (p : PlayerId) :
    (a.closePeer p).store = a.store := by
  unfold Actor.closePeer
  split <;> rfl

@[simp] theorem storagePath_closePeer (a : Actor Sdp) (p : PlayerId) :
    (a.closePeer p).storagePath = a.storagePath := by
  unfold Actor.closePeer
  split <;> rfl

def Actor.token (a : Actor Sdp) : Option String × Option String := (a.storagePath, a.store)

theorem token_clearStore {a b : Actor Sdp} (h : Actor.token a = Actor.token b) :
    Actor.token a.clearStore = Actor.token b.clearStore := by
  have hpath : a.storagePath = b.storagePath := (Prod.mk.inj h).1
  unfold Actor.clearStore
  rw [← hpath]
  cases hp : a.storagePath with
  | none => exact h
  | some path => rfl

@[simp] theorem token_closePeer (a : Actor Sdp) (p : PlayerId) :
    Actor.token (a.closePeer p) = Actor.token a := by
  unfold Actor.token
  rw [storagePath_closePeer, store_closePeer]

@[simp] theorem token_emit (a : Actor Sdp) (event : Event) :
    Actor.token (a.emit event) = Actor.token a := by
  unfold Actor.emit
  split <;> rfl

@[simp] theorem token_sendSignal (a : Actor Sdp) (target : PlayerId)
    (payload : SignalPayload Sdp) : Actor.token (a.sendSignal target payload) = Actor.token a := by
  unfold Actor.sendSignal
  split <;> rfl

@[simp] theorem token_modifyPeer (a : Actor Sdp) (p : PlayerId) (f : Peer → Peer) :
    Actor.token (a.modifyPeer p f) = Actor.token a := rfl

@[simp] theorem token_createLink (rtc : Rtc Sdp) (a : Actor Sdp) (p : PlayerId)
    (initiator : Bool) : Actor.token (a.createLink rtc p initiator) = Actor.token a := by
  unfold Actor.createLink
  simp only
  split
  · exact token_closePeer a p
  · exact token_closePeer a p

@[simp] theorem token_initiatePeer (rtc : Rtc Sdp) (a : Actor Sdp) (p : PlayerId) :
    Actor.token (a.initiatePeer rtc p) = Actor.token a := by
  unfold Actor.initiatePeer
  simp only
  split_ifs <;> simp

@[simp] theorem token_resetPeer (rtc : Rtc Sdp) (a : Actor Sdp) (p : PlayerId) :
    Actor.token (a.resetPeer rtc p) = Actor.token a := by
  unfold Actor.resetPeer
  simp only
  split_ifs
  · rfl
  · rw [token_initiatePeer]
    exact token_closePeer a p
  · exact token_closePeer a p

@[simp] theorem token_answerOffer (rtc : Rtc Sdp) (a : Actor Sdp) (source : PlayerId)
    (sdp : Sdp) : Actor.token (a.answerOffer rtc source sdp) = Actor.token a := by
  unfold Actor.answerOffer
  simp only
  split_ifs <;> simp

@[simp] theorem token_handleSignal (rtc : Rtc Sdp) (a : Actor Sdp) (source : PlayerId)
    (payload : SignalPayload Sdp) :
    Actor.token (a.handleSignal rtc source payload) = Actor.token a := by
  unfold Actor.handleSignal
  split
  · rfl
  cases payload with
  | offer sdp =>
    simp only
    split_ifs <;> simp
  | answer sdp =>
    simp only
    split_ifs <;> simp
  | ice candidate =>
    cases candidate with
    | none => rfl
    | some candidate =>
      simp only
      split_ifs <;> simp
  | unknown => rfl

def forgets (code : String) : Bool := isGameOverCode code && code != "session-superseded"

theorem token_handleError (a : Actor Sdp) (code message : String) :
    Actor.token (a.handleError code message) =
      if forgets code then Actor.token a.clearStore else Actor.token a := by
  unfold Actor.handleError forgets
  simp only
  by_cases hover : isGameOverCode code = true
  · rw [if_pos (isFatalCode_of_gameOver hover), token_emit]
    by_cases hcode : code = "session-superseded"
    · simp only [hcode, ne_eq, not_true_eq_false, if_false, bne_self_eq_false,
        Bool.and_false, Bool.false_eq_true]
      rw [if_pos (by decide)]
      rfl
    · have hne : (code != "session-superseded") = true := by simpa using hcode
      simp only [hover, hne, hcode, if_true, ne_eq, not_false_eq_true, Bool.and_self]
      exact token_clearStore rfl
  · simp only [hover, Bool.false_and, Bool.false_eq_true, if_false]
    split_ifs
    · rw [token_emit]
      rfl
    · rw [token_emit]

/-- The server messages that make the client forget its token. -/
def ServerMessage.forgets : ServerMessage Sdp → Bool
  | .error code _ => TokenStore.forgets code
  | _ => false

theorem token_handleServerMessage (rtc : Rtc Sdp) (a : Actor Sdp) (msg : ServerMessage Sdp) :
    Actor.token (a.handleServerMessage rtc msg) =
      if ServerMessage.forgets msg then Actor.token a.clearStore else Actor.token a := by
  unfold Actor.handleServerMessage
  cases msg with
  | error code message =>
    refine (token_handleError _ code message).trans ?_
    change _ = if forgets code then _ else _
    rw [token_clearStore (b := a) rfl]
    rfl
  | playerLeft p reason =>
    simp only [ServerMessage.forgets, token_emit, Bool.false_eq_true, if_false]
    split_ifs
    · exact token_closePeer _ p
    · rfl
  | signal source payload => exact token_handleSignal rtc _ source payload
  | playerJoined | playerRejoined | playerReplaced =>
    simp only [ServerMessage.forgets, token_resetPeer, token_emit, Bool.false_eq_true, if_false]
    rfl
  | roomStarted =>
    simp only [ServerMessage.forgets, token_emit, Bool.false_eq_true, if_false]
    rfl
  | joined | unknown => rfl

theorem token_silent {a b : Actor Sdp} (h : Silent a b) : Actor.token b = Actor.token a :=
  h.same Actor.token token_emit (fun _ _ _ => rfl) fun _ _ _ => rfl

theorem token_handlePeerState (a : Actor Sdp) (p : PlayerId) (epoch : Nat) (state : PeerState) :
    Actor.token (a.handlePeerState p epoch state) = Actor.token a := by
  obtain ⟨b, counts, timers, hsilent, heq⟩ := silent_handlePeerState a p epoch state
  have htoken : Actor.token b = Actor.token a := token_silent hsilent
  rw [heq]
  exact htoken

theorem token_handleCmd (rtc : Rtc Sdp) (a : Actor Sdp) (cmd : Cmd) :
    Actor.token (a.handleCmd rtc cmd) = Actor.token a := by
  cases cmd with
  | sendReliable target data =>
    simp only [Actor.handleCmd, Actor.sendReliable]
    split_ifs <;> rfl
  | sendBestEffort | broadcastBestEffort | close =>
    exact token_silent (silent_handleCmd rtc a rfl)

def Input.forgets : Input Sdp → Bool
  | .cmd .close | .cmdsEnded => true
  | .internal (.ws msg) => ServerMessage.forgets msg
  | _ => false

theorem token_handleInternal (rtc : Rtc Sdp) (a : Actor Sdp) (input : Internal Sdp) :
    Actor.token (a.handleInternal rtc input) =
      if Input.forgets (.internal input) then Actor.token a.clearStore else Actor.token a := by
  cases input with
  | ws msg => exact token_handleServerMessage rtc a msg
  | state p epoch state => exact token_handlePeerState a p epoch state
  | ice | rebuild =>
    simp only [Actor.handleInternal, Input.forgets, Bool.false_eq_true, if_false]
    split_ifs <;> simp
  | wsClosed | reliable | bestEffort | pair =>
    exact token_silent (silent_handleInternal rtc a rfl)

theorem token_shutdown (a : Actor Sdp) :
    Actor.token a.shutdown = Actor.token a.clearStore := token_clearStore rfl

/-- A running client forgets its token exactly on the inputs that make it. -/
theorem token_take (rtc : Rtc Sdp) {g : Game Sdp} (hrun : g.running = true)
    (input : Input Sdp) : Actor.token (g.take rtc input).actor =
      if Input.forgets input then Actor.token g.actor.clearStore else Actor.token g.actor := by
  unfold Game.take
  rw [hrun]
  cases input with
  | cmd cmd =>
    cases cmd with
    | close => exact token_shutdown g.actor
    | _ => exact token_handleCmd rtc g.actor _
  | cmdsEnded => exact token_shutdown g.actor
  | internal input => exact token_handleInternal rtc g.actor input

structure Label (Sdp : Type) where
  rtc : Rtc Sdp
  input : Input Sdp

/-- A client that keeps its token at `path`. -/
def client (path : String) : System (Game Sdp) (Label Sdp) where
  init g := ∃ rtc joined, g = Game.start rtc (some path) joined
  step g l g' := g' = g.take l.rtc l.input

def takeAll (g : Game Sdp) (ls : List (Label Sdp)) : Game Sdp :=
  ls.foldl (fun g l => g.take l.rtc l.input) g

/-- The client when the store holds `token`, which another client may have put there. -/
def withToken (g : Game Sdp) (token : String) : Game Sdp :=
  { g with actor := { g.actor with store := some token } }

/-- Whatever token is stored when the step is taken is stored after it. -/
def Keeps (g : Game Sdp) (l : Label Sdp) : Prop :=
  ∀ token, ((withToken g token).take l.rtc l.input).actor.store = some token

theorem path_take {path : String} {g : Game Sdp} (h : g.actor.storagePath = some path)
    (l : Label Sdp) : (g.take l.rtc l.input).actor.storagePath = some path := by
  by_cases hrun : g.running = true
  · have htoken := congrArg Prod.fst (token_take l.rtc hrun l.input)
    have hclear : g.actor.clearStore.storagePath = some path := by
      unfold Actor.clearStore
      rw [h]
    split_ifs at htoken
    · exact htoken.trans hclear
    · exact htoken.trans h
  · unfold Game.take
    simpa [hrun] using h

theorem path_start (rtc : Rtc Sdp) (path : String) (joined : JoinedMsg) :
    (Game.start rtc (some path) joined).actor.storagePath = some path := by
  let a₀ : Actor Sdp := Actor.new (some path) joined
  have htoken : Actor.token (Game.start rtc (some path) joined).actor = Actor.token a₀ :=
    List.foldlRecOn (motive := fun a => Actor.token a = Actor.token a₀) _ _ rfl
      fun a ha p _ => (token_initiatePeer rtc a p).trans ha
  exact congrArg Prod.fst htoken

theorem path_run {path : String} {ls : List (Label Sdp)} {g : Game Sdp}
    (run : Run (client path) ls g) : g.actor.storagePath = some path := by
  refine run.invariant (fun g => g.actor.storagePath = some path) ?_ ?_
  · rintro g ⟨rtc, joined, rfl⟩
    exact path_start rtc path joined
  · rintro g l g' h rfl
    exact path_take h l

theorem keeps_iff {path : String} {g : Game Sdp} (hpath : g.actor.storagePath = some path)
    (hrun : g.running = true) (l : Label Sdp) : Keeps g l ↔ Input.forgets l.input = false := by
  have hstore : ∀ token, ((withToken g token).take l.rtc l.input).actor.store =
      if Input.forgets l.input then none else some token := by
    intro token
    have htoken := congrArg Prod.snd (token_take l.rtc (g := withToken g token) hrun l.input)
    have hclear : (withToken g token).actor.clearStore.store = none := by
      have hpath' : (withToken g token).actor.storagePath = some path := hpath
      simp only [Actor.clearStore, hpath']
    split_ifs at htoken ⊢
    · exact htoken.trans hclear
    · exact htoken
  unfold Keeps
  simp only [hstore]
  cases Input.forgets l.input <;> simp

theorem running_take (g : Game Sdp) {l : Label Sdp} (hrun : g.running = true)
    (h : Input.forgets l.input = false) : (g.take l.rtc l.input).running = true := by
  unfold Game.take
  rw [hrun]
  cases hinput : l.input with
  | cmd cmd =>
    cases cmd with
    | close => rw [hinput] at h; cases h
    | _ => rfl
  | cmdsEnded => rw [hinput] at h; cases h
  | internal => rfl

theorem running_takeAll {g : Game Sdp} (hrun : g.running = true) {ls : List (Label Sdp)}
    (h : ∀ l ∈ ls, Input.forgets l.input = false) : (takeAll g ls).running = true := by
  induction ls generalizing g with
  | nil => exact hrun
  | cons l rest ih =>
    exact ih (running_take g hrun (h l List.mem_cons_self))
      fun l' hl' => h l' (List.mem_cons_of_mem _ hl')

theorem path_takeAll {path : String} {g : Game Sdp} (h : g.actor.storagePath = some path)
    (ls : List (Label Sdp)) : (takeAll g ls).actor.storagePath = some path := by
  induction ls generalizing g with
  | nil => exact h
  | cons l rest ih => exact ih (path_take h l)

theorem exists_first {ls : List (Label Sdp)} (h : ∃ l ∈ ls, Input.forgets l.input = true) :
    ∃ mid l rest, ls = mid ++ l :: rest ∧ Input.forgets l.input = true ∧
      ∀ l' ∈ mid, Input.forgets l'.input = false := by
  obtain ⟨l, hfind⟩ : ∃ l, ls.find? (fun l => Input.forgets l.input) = some l :=
    Option.isSome_iff_exists.1 (List.find?_isSome.2 h)
  obtain ⟨hforgets, mid, rest, heq, hmid⟩ := List.find?_eq_some_iff_append.1 hfind
  exact ⟨mid, l, rest, heq, hforgets, fun l' hl' => by simpa using hmid l' hl'⟩

def superseded (rtc : Rtc Sdp) (message : String) : Label Sdp :=
  ⟨rtc, .internal (.ws (.error "session-superseded" message))⟩

/-- After a client has processed the error that it is superseded, its later steps
keep the stored token exactly if none of their inputs makes it forget. -/
theorem token_kept_iff {path : String} {before : List (Label Sdp)} {g : Game Sdp}
    (run : Run (client path) before g) (hrun : g.running = true) (rtc : Rtc Sdp)
    (message : String) (after : List (Label Sdp)) :
    (∀ mid l rest, after = mid ++ l :: rest →
      Keeps (takeAll g (superseded rtc message :: mid)) l) ↔
    ∀ l ∈ after, Input.forgets l.input = false := by
  have hsup : Input.forgets (superseded rtc message).input = false := rfl
  have hkeeps : ∀ mid l, (∀ l' ∈ mid, Input.forgets l'.input = false) →
      (Keeps (takeAll g (superseded rtc message :: mid)) l ↔ Input.forgets l.input = false) := by
    intro mid l hmid
    refine keeps_iff (path_takeAll (path_run run) _) (running_takeAll hrun ?_) l
    intro l' hl'
    rcases List.mem_cons.1 hl' with rfl | hl'
    · exact hsup
    · exact hmid l' hl'
  constructor
  · intro h
    by_contra hnot
    push Not at hnot
    obtain ⟨l, hl, hf⟩ := hnot
    obtain ⟨mid, l', rest, rfl, hf', hmid⟩ := exists_first ⟨l, hl, by simpa using hf⟩
    have := (hkeeps mid l' hmid).1 (h mid l' rest rfl)
    exact absurd (hf'.symm.trans this) (by simp)
  · rintro h mid l rest rfl
    refine (hkeeps mid l fun l' hl' => h l' (List.mem_append_left _ hl')).2 ?_
    exact h l (List.mem_append_right _ List.mem_cons_self)

def smoothRtc : Rtc String where
  creates := fun _ => true
  offers := fun _ => true
  describes := fun _ => true
  parses := true
  answers := true
  failed := false
  takes := fun _ => true
  offerOf := fun epoch => toString epoch
  answerOf := fun epoch offer => offer ++ toString epoch

def joinedSecond : JoinedMsg := ⟨"code", 1, 2, false, "first", [⟨0, true, true⟩, ⟨1, true, true⟩]⟩

def secondGame : Game String := Game.start smoothRtc (some "token") joinedSecond

theorem run_secondGame : Run (client "token") [] secondGame :=
  .init ⟨smoothRtc, joinedSecond, rfl⟩

/-- The lost socket and a datagram leave the successor's token alone, a close does not. -/
theorem token_kept_iff_lost :
    (∀ mid l rest, [⟨smoothRtc, .internal .wsClosed⟩, ⟨smoothRtc, .cmd (.sendBestEffort 0 [])⟩] =
      mid ++ l :: rest → Keeps (takeAll secondGame (superseded smoothRtc "" :: mid)) l) ∧
    ¬∀ mid l rest, [⟨smoothRtc, .internal .wsClosed⟩, ⟨smoothRtc, .cmd .close⟩] =
      mid ++ l :: rest → Keeps (takeAll secondGame (superseded smoothRtc "" :: mid)) l := by
  constructor
  · exact (token_kept_iff run_secondGame rfl smoothRtc "" _).2 (by decide)
  · exact fun h => absurd ((token_kept_iff run_secondGame rfl smoothRtc "" _).1 h) (by decide)

/-- A superseded client that is closed deletes the token its successor has stored. -/
theorem token_deleted : ¬ ∀ (g : Game String) (l : Label String),
    Run (client "token") [] g → Keeps (takeAll g [superseded smoothRtc ""]) l := by
  intro h
  have := h secondGame ⟨smoothRtc, .cmd .close⟩ run_secondGame "second"
  exact absurd this (by decide)

end Lobbylink.Client.TokenStore
