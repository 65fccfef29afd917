import Lobbylink.Ts.Telling

/-! The item that a browser client keeps its resume token in. Other pages of the origin, the
successor of a superseded client among them, write to the same item at any time. -/
namespace Lobbylink.Ts.Storage
open Client.Protocol Client.Roster Reliable Game Lib.Runs
open Client.Native (PeerState Event)
open Telling (pairMsg pairEnv)

variable {Sdp : Type}

def held (g : P2PGame Sdp) : Option (Option String) × Bool × Bool :=
  (g.storage, g.closedFlag, g.wsOpen)

variable (g : P2PGame Sdp)

@[simp] theorem held_emit (ev : Event) : held (g.emit ev) = held g := by
  unfold P2PGame.emit
  split_ifs <;> rfl

@[simp] theorem held_modifyLink (n : Nat) (f : PeerLink → PeerLink) :
    held (g.modifyLink n f) = held g := rfl

@[simp] theorem held_closePeer (p : PlayerId) : held (g.closePeer p) = held g := by
  unfold P2PGame.closePeer
  split <;> rfl

@[simp] theorem held_await (op : Op Sdp) : held (g.await op) = held g := rfl

@[simp] theorem held_createLink (env : Env) (p : PlayerId) (initiator : Bool) :
    held (g.createLink env p initiator) = held g := by
  have hdropped := held_closePeer g p
  unfold P2PGame.createLink
  simp only
  split_ifs
  · exact hdropped
  · exact hdropped

@[simp] theorem held_initiatePeer (env : Env) (p : PlayerId) :
    held (g.initiatePeer env p) = held g := by
  unfold P2PGame.initiatePeer
  simp only
  split_ifs <;> simp

@[simp] theorem held_resetPeer (env : Env) (p : PlayerId) : held (g.resetPeer env p) = held g := by
  have hdropped : held { g.closePeer p with
      rebuildCounts := Function.update (g.closePeer p).rebuildCounts p none } = held g :=
    held_closePeer g p
  unfold P2PGame.resetPeer
  simp only
  split_ifs
  · rfl
  · rw [held_initiatePeer, hdropped]
  · exact hdropped

@[simp] theorem held_sendSignal (target : PlayerId) (n : Nat) (payload : SignalPayload Sdp) :
    held (g.sendSignal target n payload) = held g := by
  unfold P2PGame.sendSignal
  split_ifs <;> rfl

theorem held_handleSignal (env : Env) (source : PlayerId) (payload : SignalPayload Sdp) :
    held (g.handleSignal env source payload) = held g := by
  unfold P2PGame.handleSignal
  split_ifs
  · rfl
  cases payload with
  | offer sdp =>
    simp only [P2PGame.handleOffer]
    split_ifs <;> simp
  | answer sdp =>
    simp only [P2PGame.handleAnswer]
    split
    · split_ifs <;> simp
    · rfl
  | ice cand =>
    simp only [P2PGame.handleCandidate]
    split
    · split_ifs <;> simp
    · rfl
  | unknown => rfl

/-- The codes of errors that make the client forget its token. -/
def forgetsCode (code : String) : Bool :=
  decide (code ∈ gameOverCodes) && decide (code ≠ "session-superseded")

theorem held_handleError (code message : String) : held (g.handleError code message) =
    if forgetsCode code then held g.clearToken else held g := by
  have hfatal : code ∈ gameOverCodes → code ∈ fatalCodes := by
    simp only [gameOverCodes, fatalCodes, List.mem_cons, List.not_mem_nil, or_false]
    rintro (h | h | h) <;> simp [h]
  unfold P2PGame.handleError forgetsCode
  simp only
  by_cases hover : code ∈ gameOverCodes
  · rw [if_pos (hfatal hover), held_emit, if_pos hover]
    by_cases hcode : code = "session-superseded"
    · simp only [hcode, ne_eq, not_true_eq_false, if_false, decide_false, Bool.and_false,
        Bool.false_eq_true]
      rfl
    · simp only [hover, hcode, ne_eq, not_false_eq_true, decide_true, Bool.and_self, if_true]
      rfl
  · simp only [hover, decide_false, Bool.false_and, Bool.false_eq_true, if_false]
    split_ifs
    · exact held_emit ..
    · exact held_emit ..

theorem held_handleServerMessage (env : Env) (msg : ServerMessage Sdp) :
    held (g.handleServerMessage env msg) =
      match msg with
      | .error code _ => if forgetsCode code then held g.clearToken else held g
      | _ => held g := by
  cases msg with
  | error code message => exact held_handleError g code message
  | playerLeft p reason =>
    by_cases hreason : reason = "explicit-leave"
    · simp only [P2PGame.handleServerMessage, held_emit, hreason, if_true]
      exact held_closePeer _ p
    · simp only [P2PGame.handleServerMessage, held_emit, hreason, if_false]
      rfl
  | signal source payload => exact held_handleSignal g env source payload
  | playerJoined | playerRejoined | playerReplaced =>
    simp only [P2PGame.handleServerMessage, held_resetPeer, held_emit]
    rfl
  | roomStarted =>
    simp only [P2PGame.handleServerMessage, held_emit]
    rfl
  | joined | unknown => rfl

theorem held_onConnectionState (p : PlayerId) (n : Nat) (state : PeerState) :
    held (g.onConnectionState p n state) = held g := by
  have hemit := held_emit g (.peerState p state)
  unfold P2PGame.onConnectionState
  split_ifs
  · rfl
  cases state with
  | connected => exact hemit
  | failed =>
    simp only [P2PGame.handlePeerFailure]
    split
    · exact hemit
    · split_ifs <;> exact hemit
  | new | connecting | disconnected | closed => exact hemit

theorem held_rebuild (env : Env) (p : PlayerId) (n : Nat) :
    held (g.rebuild env p n) = held g := by
  unfold P2PGame.rebuild
  split_ifs
  · rfl
  split
  · rfl
  · split_ifs <;> simp

theorem held_onReliableData (p : PlayerId) (n : Nat) (data : ChannelData) (now : Int) :
    held (g.onReliableData p n data now) = held g := by
  unfold P2PGame.onReliableData
  split
  · split
    · rfl
    · simp only
      split <;> simp
  · rfl

theorem held_settle (op : Op Sdp) (outcome : Outcome Sdp) : held (g.settle op outcome) = held g := by
  unfold P2PGame.settle
  split
  all_goals try simp only
  all_goals try split_ifs
  all_goals simp

@[simp] theorem held_bestEffortTo (env : Env) (target : PlayerId) (bytes : Bytes) :
    held (g.bestEffortTo env target bytes) = held g := by
  unfold P2PGame.bestEffortTo
  split
  · rfl
  · split_ifs <;> rfl

theorem held_orStay {called : Except LobbyError (P2PGame Sdp)}
    (h : ∀ g', called = .ok g' → held g' = held g) : held (g.orStay called) = held g := by
  cases called with
  | ok g' => exact h g' rfl
  | error e => rfl

theorem held_sendBestEffort (env : Env) (target : Int) (bytes : Bytes) :
    held (g.orStay (g.sendBestEffort env target bytes)) = held g := by
  refine held_orStay g fun g' h => ?_
  unfold P2PGame.sendBestEffort at h
  cases htarget : g.checkTarget target with
  | error e => simp [htarget, bind, Except.bind] at h
  | ok =>
    cases hsize : checkSize bytes with
    | error e => simp [htarget, hsize, bind, Except.bind] at h
    | ok =>
      simp only [htarget, hsize, bind, Except.bind, pure, Except.pure, Except.ok.injEq] at h
      rw [← h, held_bestEffortTo]

theorem held_broadcastBestEffort (env : Env) (bytes : Bytes) :
    held (g.orStay (g.broadcastBestEffort env bytes)) = held g := by
  refine held_orStay g fun g' h => ?_
  unfold P2PGame.broadcastBestEffort at h
  cases hsize : checkSize bytes with
  | error e => simp [hsize, bind, Except.bind] at h
  | ok =>
    simp only [hsize, bind, Except.bind, pure, Except.pure, Except.ok.injEq] at h
    rw [← h]
    exact List.foldlRecOn (motive := fun b => held b = held g) _ _ rfl
      fun b hb p _ => (held_bestEffortTo b env p.id bytes).trans hb

def forgets : Label Sdp → Bool
  | .close => true
  | .message _ (.error code _) => forgetsCode code
  | _ => false

/-- A step of the client, or a write of another page to the item. -/
inductive Touch (Sdp : Type) where
  | own (l : Label Sdp)
  | other (item : Option String)

/-- The item as its writers see it, and whether the client has been closed. -/
structure Item where
  item : Option String
  closed : Bool
  deriving DecidableEq, Repr

def Item.next (i : Item) : Touch Sdp → Item
  | .other item => { i with item := item }
  | .own .close => if i.closed then i else ⟨none, true⟩
  | .own l => if forgets l then { i with item := none } else i

def written (joined : JoinedMsg) (touches : List (Touch Sdp)) : Item :=
  touches.foldl Item.next ⟨some joined.resumeToken, false⟩

def superseded (env : Env) (message : String) : Label Sdp :=
  .message env (.error "session-superseded" message)

/-- The client and its item agree, and a closed client hears nothing. -/
structure Holds (g : P2PGame Sdp) (i : Item) : Prop where
  storage : g.storage = some i.item
  closed : g.closedFlag = i.closed
  silent : g.closedFlag = true → g.wsOpen = false

theorem held_start (env : Env) (old : Option String) (joined : JoinedMsg) :
    held (P2PGame.start env (some old) joined : P2PGame Sdp) =
      (some (some joined.resumeToken), false, true) :=
  List.foldlRecOn (motive := fun g : P2PGame Sdp =>
    held g = (some (some joined.resumeToken), false, true)) _ _ rfl
    fun g hg p _ => (held_initiatePeer g env p).trans hg

theorem next_own {i : Item} {l : Label Sdp} (hclose : l ≠ .close) :
    i.next (.own l) = if forgets l then { i with item := none } else i := by
  cases l with
  | close => exact absurd rfl hclose
  | _ => rfl

/-- A message comes only while the client is not closed. -/
theorem open_of_heard {i : Item} {g : P2PGame Sdp} (h : Holds g i) (hopen : g.wsOpen = true) : i.closed = false := by
  rw [← h.closed]
  by_contra hclosed
  exact absurd (hopen.symm.trans (h.silent (by simpa using hclosed))) (by decide)

theorem closed_written {i : Item} (h : i.closed = false) {touches : List (Touch Sdp)}
    (hkeeps : ∀ l, .own l ∈ touches → forgets l = false) :
    (touches.foldl Item.next i).closed = false := by
  induction touches generalizing i with
  | nil => exact h
  | cons touch rest ih =>
    refine ih ?_ fun l hl => hkeeps l (List.mem_cons_of_mem _ hl)
    cases touch with
    | other item => exact h
    | own l =>
      have hforgets := hkeeps l List.mem_cons_self
      rw [next_own (by rintro rfl; cases hforgets), if_neg (by simp [hforgets])]
      exact h

def Touch.forgets : Touch Sdp → Bool
  | .own l => Storage.forgets l
  | .other _ => false

theorem exists_first {touches : List (Touch Sdp)} (h : ∃ l, .own l ∈ touches ∧ forgets l = true) :
    ∃ mid l rest, touches = mid ++ .own l :: rest ∧ forgets l = true ∧
      ∀ l', .own l' ∈ mid → forgets l' = false := by
  obtain ⟨l, hl, hforgets⟩ := h
  obtain ⟨touch, hfind⟩ : ∃ touch, touches.find? Touch.forgets = some touch :=
    Option.isSome_iff_exists.1 (List.find?_isSome.2 ⟨.own l, hl, hforgets⟩)
  obtain ⟨hlast, mid, rest, heq, hmid⟩ := List.find?_eq_some_iff_append.1 hfind
  cases touch with
  | own first => exact ⟨mid, first, rest, heq, hlast, fun m hm => by simpa [Touch.forgets] using hmid _ hm⟩
  | other item => cases hlast

variable [DecidableEq Sdp] {g}

theorem held_take {l : Label Sdp} (h : forgets l = false) :
    held (g.take l) = held g ∨ held (g.take l) = (g.storage, g.closedFlag, false) := by
  cases l with
  | close => cases h
  | wsDown => exact .inr rfl
  | message env msg =>
    refine .inl ((held_handleServerMessage g env msg).trans ?_)
    cases msg with
    | error code message =>
      have hcode : forgetsCode code = false := h
      simp only [hcode, Bool.false_eq_true, if_false]
    | _ => rfl
  | wsClose =>
    left
    change held g.onClose = held g
    unfold P2PGame.onClose
    split_ifs
    · rfl
    · exact held_emit ..
  | iceCandidate p n cand =>
    left
    change held (g.onIceCandidate p n cand) = held g
    unfold P2PGame.onIceCandidate
    split
    · rfl
    · split_ifs <;> simp
  | connectionState p n state => exact .inl (held_onConnectionState g p n state)
  | reliableData p n data now => exact .inl (held_onReliableData g p n data now)
  | bestEffortData p n data =>
    left
    change held (g.onBestEffortData p data) = held g
    unfold P2PGame.onBestEffortData
    split
    · rfl
    · exact held_emit ..
  | rebuild env p n => exact .inl (held_rebuild g env p n)
  | settle op outcome => exact .inl (held_settle _ op outcome)
  | sendBestEffort env target bytes => exact .inl (held_sendBestEffort g env target bytes)
  | broadcastBestEffort env bytes => exact .inl (held_broadcastBestEffort g env bytes)

theorem held_forgets {l : Label Sdp} (h : forgets l = true) (hopen : g.closedFlag = false) :
    (g.take l).storage = g.storage.map fun _ => none := by
  cases l with
  | close =>
    change g.close.storage = _
    unfold P2PGame.close
    rw [if_neg (by simp [hopen])]
    rfl
  | message env msg =>
    cases msg with
    | error code message =>
      have hcode : forgetsCode code = true := h
      have hheld := held_handleServerMessage g env (.error code message)
      simp only [hcode, if_true] at hheld
      exact congrArg Prod.fst hheld
    | _ => cases h
  | _ => cases h

def tab (env : Env) (old : Option String) (joined : JoinedMsg) :
    System (P2PGame Sdp) (Touch Sdp) where
  init := fun g => g = .start env (some old) joined
  step := fun g touch g' =>
    match touch with
    | .own l => g.Enabled l ∧ g' = g.take l
    | .other item => g' = { g with storage := g.storage.map fun _ => item }

/-- Whatever stands in the item when the step is taken stands there after it. -/
def Keeps (g : P2PGame Sdp) (l : Label Sdp) : Prop :=
  ∀ item, (({ g with storage := some item } : P2PGame Sdp).take l).storage = some item

theorem closed_take {l : Label Sdp} (hclose : l ≠ .close) (hforgets : forgets l = true) :
    (g.take l).closedFlag = g.closedFlag ∧ (g.take l).wsOpen = g.wsOpen := by
  cases l with
  | close => exact absurd rfl hclose
  | message env msg =>
    cases msg with
    | error code message =>
      have hcode : forgetsCode code = true := hforgets
      have hheld := held_handleServerMessage g env (.error code message)
      simp only [hcode, if_true] at hheld
      exact ⟨congrArg (·.2.1) hheld, congrArg (·.2.2) hheld⟩
    | _ => cases hforgets
  | _ => cases hforgets

theorem Holds.close {i : Item} (h : Holds g i) :
    Holds (g.take .close) (i.next (.own (.close : Label Sdp))) := by
  change Holds g.close (if i.closed then i else ⟨none, true⟩)
  unfold P2PGame.close
  rw [h.closed]
  by_cases hclosed : i.closed = true
  · rw [if_pos hclosed, if_pos hclosed]
    exact h
  · have hcleared : (some none : Option (Option String)) = g.storage.map fun _ => none := by
      rw [h.storage]
      rfl
    rw [if_neg hclosed, if_neg hclosed]
    exact ⟨hcleared.symm, rfl, fun _ => rfl⟩

theorem Holds.step {i : Item} (h : Holds g i) {l : Label Sdp} (henabled : g.Enabled l) :
    Holds (g.take l) (i.next (.own l)) := by
  by_cases hclose : l = .close
  · subst hclose
    exact h.close
  rw [next_own hclose]
  cases hforgets : forgets l with
  | true =>
    obtain ⟨hclosed, hopen⟩ := closed_take (g := g) hclose hforgets
    have hheard : g.wsOpen = true := by
      cases l with
      | close => exact absurd rfl hclose
      | message env msg => exact henabled
      | _ => cases hforgets
    have hstorage := held_forgets hforgets (h.closed.trans (open_of_heard h hheard))
    refine ⟨?_, hclosed.trans h.closed, fun hc => hopen.trans (h.silent (hclosed.symm.trans hc))⟩
    rw [hstorage, h.storage]
    rfl
  | false =>
    rcases held_take (g := g) hforgets with hheld | hheld
    · have hclosed : (g.take l).closedFlag = g.closedFlag := congrArg (·.2.1) hheld
      have hopen : (g.take l).wsOpen = g.wsOpen := congrArg (·.2.2) hheld
      exact ⟨(congrArg (·.1) hheld).trans h.storage, hclosed.trans h.closed,
        fun hc => hopen.trans (h.silent (hclosed.symm.trans hc))⟩
    · have hclosed : (g.take l).closedFlag = g.closedFlag := congrArg (·.2.1) hheld
      exact ⟨(congrArg (·.1) hheld).trans h.storage, hclosed.trans h.closed,
        fun _ => congrArg (·.2.2) hheld⟩

variable {env : Env} {old : Option String} {joined : JoinedMsg} {touches : List (Touch Sdp)}

theorem run_own (run : Run (tab env old joined) touches g) {l : Label Sdp} (h : g.Enabled l) :
    Run (tab env old joined) (touches ++ [.own l]) (g.take l) := by
  have hstep : (tab env old joined).step g (.own l) (g.take l) := ⟨h, rfl⟩
  exact run.step hstep

theorem run_other (run : Run (tab env old joined) touches g) (item : Option String) :
    Run (tab env old joined) (touches ++ [.other item])
      { g with storage := g.storage.map fun _ => item } := by
  have hstep : (tab env old joined).step g (.other item)
      { g with storage := g.storage.map fun _ => item } := rfl
  exact run.step hstep

theorem holds_run (run : Run (tab env old joined) touches g) : Holds g (written joined touches) := by
  refine run.history (fun touches g => Holds g (written joined touches)) ?_ ?_
  · rintro g rfl
    have hheld : held (P2PGame.start env (some old) joined : P2PGame Sdp) = _ :=
      held_start env old joined
    have hopen : (P2PGame.start env (some old) joined : P2PGame Sdp).closedFlag = false :=
      congrArg (·.2.1) hheld
    exact ⟨congrArg (·.1) hheld, hopen, fun hc => absurd (hopen.symm.trans hc) (by decide)⟩
  · intro touches g touch g' _ h hstep
    unfold written at h ⊢
    rw [List.foldl_append]
    cases touch with
    | own l =>
      obtain ⟨henabled, rfl⟩ := hstep
      exact h.step henabled
    | other item =>
      obtain rfl := hstep
      refine ⟨?_, h.closed, h.silent⟩
      change g.storage.map (fun _ => item) = some item
      rw [h.storage]
      rfl

theorem keeps_of (g : P2PGame Sdp) {l : Label Sdp} (h : forgets l = false) : Keeps g l := by
  intro item
  rcases held_take (g := { g with storage := some item }) h with hheld | hheld
  · exact congrArg (·.1) hheld
  · exact congrArg (·.1) hheld

theorem not_keeps (hopen : g.closedFlag = false) {l : Label Sdp} (h : forgets l = true) :
    ¬Keeps g l := by
  intro hkeeps
  have hcleared := held_forgets (g := { g with storage := some (some "") }) h hopen
  rw [hkeeps (some "")] at hcleared
  cases hcleared

/-- The item holds what was written to it last, and a superseded client leaves what others write
alone exactly if none of its later steps is a close or ends the game. -/
theorem item_shared (run : Run (tab env old joined) touches g) :
    g.storage = some (written joined touches).item ∧
    ∀ before after env' message, touches = before ++ .own (superseded env' message) :: after →
      ((∀ mid l rest g', after = mid ++ .own l :: rest →
        Run (tab env old joined) (before ++ .own (superseded env' message) :: mid) g' → Keeps g' l) ↔
      ∀ l, .own l ∈ after → forgets l = false) := by
  refine ⟨(holds_run run).storage, ?_⟩
  rintro before after env' message rfl
  constructor
  · intro hkept
    by_contra hnot
    push Not at hnot
    obtain ⟨l, hl, hl'⟩ := hnot
    obtain ⟨mid, first, rest, rfl, hforgets, hmid⟩ := exists_first ⟨l, hl, by simpa using hl'⟩
    obtain ⟨g₁, g₂, hbefore, ⟨hheard, -⟩, -⟩ := run.split rfl
    have hopen := open_of_heard (holds_run hbefore) hheard
    have hwhole : Run (tab env old joined)
        ((before ++ .own (superseded env' message) :: mid) ++ .own first :: rest) g := by
      simpa using run
    obtain ⟨g', -, hreached, -⟩ := hwhole.split rfl
    have hstill : g'.closedFlag = false := by
      rw [(holds_run hreached).closed, written, List.foldl_append]
      refine closed_written hopen fun m hm => ?_
      rcases List.mem_cons.1 hm with heq | hm
      · cases heq
        rfl
      · exact hmid m hm
    exact not_keeps hstill hforgets (hkept mid first rest g' rfl hreached)
  · rintro hkeeps mid l rest g' rfl -
    exact keeps_of g' (hkeeps l (by simp))

def lateTouches : List (Touch String) := [.other (some "second"), .own .wsDown, .own .wsClose]

def firstTouch : Touch String := .own (superseded pairEnv "")

def lateGame : P2PGame String :=
  (({ (P2PGame.start pairEnv (some none) pairMsg : P2PGame String).take (superseded pairEnv "") with
    storage := some (some "second") } : P2PGame String).take .wsDown).take .wsClose

theorem late_run : Run (tab pairEnv none pairMsg) (firstTouch :: lateTouches) lateGame := by
  have hstart : Run (tab pairEnv none pairMsg) []
      (P2PGame.start pairEnv (some none) pairMsg : P2PGame String) := .init rfl
  have hfirst := run_own hstart (l := superseded pairEnv "") rfl
  have hdown := run_own (run_other hfirst (some "second")) (l := .wsDown) trivial
  exact run_own hdown (l := .wsClose) rfl

theorem item_shared_second : lateGame.storage = some (some "second") ∧
    (∀ mid l rest g', lateTouches = mid ++ .own l :: rest →
      Run (tab pairEnv none pairMsg) ([] ++ firstTouch :: mid) g' → Keeps g' l) ∧
    (lateGame.take .close).storage = some none ∧
    ¬∀ mid l rest g', lateTouches ++ [.own .close] = mid ++ .own l :: rest →
      Run (tab pairEnv none pairMsg) ([] ++ firstTouch :: mid) g' → Keeps g' l := by
  have hclosed := run_own late_run (l := .close) trivial
  obtain ⟨hstays, hkept⟩ := item_shared late_run
  obtain ⟨hgone, hforgot⟩ := item_shared hclosed
  refine ⟨hstays, (hkept [] lateTouches pairEnv "" rfl).2 ?_, hgone, fun h => ?_⟩
  · intro l hl
    simp only [lateTouches, List.mem_cons, Touch.own.injEq, List.not_mem_nil, or_false] at hl
    rcases hl with h | rfl | rfl
    · cases h
    · rfl
    · rfl
  · have hkeeps := (hforgot [] (lateTouches ++ [.own .close]) pairEnv "" rfl).1 h .close (by simp)
    cases hkeeps

end Lobbylink.Ts.Storage
