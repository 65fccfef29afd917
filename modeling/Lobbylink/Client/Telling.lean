import Lobbylink.Client.Maps
import Lobbylink.Client.Story

/-! The Rust actor goes through the story of a client: what it does to its links, its roster
and its token is what happens there, and it tells its user the same. -/
namespace Lobbylink.Client.Telling
open Protocol Roster Native Framing Reassembly Story Maps Lib.Runs

variable {Sdp : Type}

def reader : Reader (Reassembler Int) where
  empty := .empty
  take := fun r data now =>
    match parseFrame data with
    | .error _ => (r, none)
    | .ok frame => r.push Native.reassemblyTimeoutMs frame now

def tieOf (peer : Peer) : Tie (Reassembler Int) :=
  ⟨peer.link.epoch, peer.link.initiator, peer.reassembler⟩

def story (a : Actor Sdp) : Session (Reassembler Int) where
  selfId := a.selfId
  maxPlayers := a.maxPlayers
  roster := a.roster
  started := a.started
  ties := fun p => (a.peers p).map tieOf
  attempts := a.epochCounter
  failures := a.rebuildCounts
  retries := a.timers
  ended := a.fatalSeen
  closed := a.closed
  keeps := a.storagePath.isSome
  token := a.store
  told := a.events

variable (rtc : Rtc Sdp) (a : Actor Sdp)

theorem story_emit (h : a.closed = false) (event : Event) :
    story (a.emit event) = (story a).tell event := by
  unfold Actor.emit
  rw [if_neg (by simp [h])]
  rfl

theorem ties_update (peers : PlayerId → Option Peer) (p : PlayerId) (peer : Option Peer) :
    (fun q => (Function.update peers p peer q).map tieOf) =
      Function.update (fun q => (peers q).map tieOf) p (peer.map tieOf) :=
  Function.comp_update (Option.map tieOf) peers p peer

theorem story_closePeer (p : PlayerId) : story (a.closePeer p) = (story a).drop p := by
  unfold Actor.closePeer Session.drop
  cases hp : a.peers p with
  | none =>
    have hsame : Function.update (story a).ties p none = (story a).ties :=
      Function.update_eq_self_iff.2 (by simp [story, hp])
    rw [hsame]
  | some peer =>
    simp only [story, ties_update]
    rfl

theorem story_teardownPeers : story a.teardownPeers = (story a).dropAll := rfl

theorem story_clearStore : story a.clearStore = (story a).forget := by
  unfold Actor.clearStore Session.forget
  cases hpath : a.storagePath with
  | none => simp [story, hpath]
  | some path => simp [story, hpath]

@[simp] theorem story_sendSignal (p : PlayerId) (payload : SignalPayload Sdp) :
    story (a.sendSignal p payload) = story a := by
  unfold Actor.sendSignal
  split_ifs <;> rfl

theorem story_modifyPeer (p : PlayerId) {f : Peer → Peer} (hf : ∀ peer, tieOf (f peer) = tieOf peer) :
    story (a.modifyPeer p f) = story a := by
  have hsame : Function.update (story a).ties p (((a.peers p).map f).map tieOf) = (story a).ties := by
    refine Function.update_eq_self_iff.2 ?_
    rw [Option.map_map]
    exact congrArg (fun g => (a.peers p).map g) (funext hf)
  calc story (a.modifyPeer p f)
      = { story a with ties := Function.update (story a).ties p (((a.peers p).map f).map tieOf) } := by
        simp only [story, Actor.modifyPeer, ties_update]
    _ = story a := by rw [hsame]

@[simp] theorem story_setSignaling (p : PlayerId) (state : Signaling) :
    story (a.modifyPeer p (Peer.setSignaling state)) = story a := story_modifyPeer a p fun _ => rfl

@[simp] theorem story_flushCandidates (p : PlayerId) (state : Signaling) :
    story (a.modifyPeer p (Peer.flushCandidates ∘ Peer.setSignaling state)) = story a :=
  story_modifyPeer a p fun _ => rfl

theorem story_createLink (p : PlayerId) (initiator : Bool) :
    story (a.createLink rtc p initiator) =
      (story a).renew reader p initiator (rtc.creates p) := by
  have hclosed := story_closePeer a p
  have hcounter : (a.closePeer p).epochCounter = a.epochCounter := Links.epochCounter_closePeer a p
  unfold Actor.createLink
  simp only [hcounter]
  cases rtc.creates p with
  | false =>
    calc story { a.closePeer p with epochCounter := a.epochCounter + 1 }
        = { story (a.closePeer p) with attempts := a.epochCounter + 1 } := rfl
      _ = _ := by rw [hclosed]; rfl
  | true =>
    simp only [if_true]
    calc story { a.closePeer p with
          epochCounter := a.epochCounter + 1
          peers := Function.update (a.closePeer p).peers p
            (some ⟨⟨initiator, a.epochCounter + 1, .stable⟩, .empty, some []⟩)
          links := Function.update (a.closePeer p).links (a.epochCounter + 1) (some ⟨p, false⟩)
          linkWatch := Function.update (a.closePeer p).linkWatch p (some (some (a.epochCounter + 1))) }
        = { story (a.closePeer p) with
            attempts := a.epochCounter + 1
            ties := Function.update (story (a.closePeer p)).ties p
              (some ⟨a.epochCounter + 1, initiator, .empty⟩) } := by
          simp only [story, ties_update]
          rfl
      _ = _ := by
          rw [hclosed]
          simp only [Session.drop, Session.renew, Function.update_idem]
          rfl

theorem closed_createLink (p : PlayerId) (initiator : Bool) :
    (a.createLink rtc p initiator).closed = a.closed :=
  congrArg Session.closed (story_createLink rtc a p initiator)

theorem story_initiatePeer (h : a.closed = false) (p : PlayerId) :
    story (a.initiatePeer rtc p) = (story a).renew reader p true (rtc.creates p) := by
  unfold Actor.initiatePeer
  rw [if_neg (by simp [h]), ← story_createLink]
  simp only
  split_ifs
  · rfl
  · simp
  · simp

theorem story_offers (h : a.closed = false) (p : PlayerId) :
    story (if a.selfId < p then a.initiatePeer rtc p else a) =
      if (story a).selfId < p then (story a).renew reader p true (rtc.creates p) else story a := by
  rw [apply_ite story, story_initiatePeer rtc a h]
  rfl

theorem story_resetPeer (h : a.closed = false) (p : PlayerId) :
    story (a.resetPeer rtc p) = (story a).meet reader p (rtc.creates p) := by
  have hdropped := story_closePeer a p
  have hcounts : (a.closePeer p).rebuildCounts = a.rebuildCounts :=
    congrArg Session.failures hdropped
  let b : Actor Sdp := { a.closePeer p with
    rebuildCounts := Function.update (a.closePeer p).rebuildCounts p none }
  have hcleared : story b =
      { (story a).drop p with failures := Function.update (story a).failures p none } := by
    rw [← hdropped, ← show a.rebuildCounts = (story a).failures from rfl, ← hcounts]
    rfl
  have hclosed : b.closed = false := (congrArg Session.closed hdropped).trans h
  unfold Actor.resetPeer Session.meet
  by_cases hp : p = a.selfId
  · rw [if_pos hp, if_pos (show p = (story a).selfId from hp)]
  rw [if_neg hp, if_neg (show ¬p = (story a).selfId from hp)]
  refine (story_offers rtc b hclosed p).trans ?_
  rw [hcleared]

theorem story_answerOffer (p : PlayerId) (sdp : Sdp) :
    story (a.answerOffer rtc p sdp) = (story a).renew reader p false (rtc.creates p) := by
  unfold Actor.answerOffer
  rw [← story_createLink]
  simp only
  split_ifs
  · rfl
  · simp
  · simp
  · simp

theorem story_handleSignal (h : a.closed = false) (source : PlayerId)
    (payload : SignalPayload Sdp) : story (a.handleSignal rtc source payload) =
      (story a).hear reader (.signal source payload) rtc.creates := by
  have hself : (story a).selfId = a.selfId := rfl
  unfold Actor.handleSignal
  rw [h, Bool.false_or]
  by_cases hsource : source = a.selfId
  · rw [if_pos (decide_eq_true hsource)]
    cases payload with
    | offer sdp =>
      simp only [Session.hear, hself, if_pos (Nat.le_of_eq hsource.symm)]
      rfl
    | answer | ice | unknown => rfl
  rw [if_neg (by simpa using hsource)]
  cases payload with
  | offer sdp =>
    simp only [Session.hear, hself]
    by_cases hlt : a.selfId < source
    · rw [if_pos hlt, if_pos (Nat.le_of_lt hlt)]
      rfl
    · have hge : ¬a.selfId ≤ source := fun hle =>
        (Nat.lt_or_eq_of_le hle).elim hlt fun heq => hsource heq.symm
      rw [if_neg hlt, if_neg hge, story_answerOffer]
      rfl
  | answer sdp =>
    simp only
    split_ifs
    · exact story_flushCandidates a source .stable
    · rfl
  | ice candidate =>
    cases candidate with
    | none => rfl
    | some candidate =>
      simp only
      split_ifs
      · exact story_modifyPeer a source fun _ => rfl
      · rfl
  | unknown => rfl

theorem story_handleError (h : a.closed = false) (code message : String) :
    story (a.handleError code message) = (story a).refuse code message := by
  have hseen : story { a with fatalSeen := true } = { story a with ended := true } := rfl
  unfold Actor.handleError Session.refuse
  by_cases hfatal : isFatalCode code = true
  · rw [if_pos hfatal, if_pos hfatal]
    by_cases hover : isGameOverCode code = true
    · simp only [hover, if_true]
      by_cases hold : code = "session-superseded"
      · rw [if_neg (not_not.2 hold), if_pos hold]
        exact story_emit ({ a with fatalSeen := true } : Actor Sdp).teardownPeers h _
      · rw [if_pos hold, if_neg hold]
        have hcleared := story_clearStore ({ a with fatalSeen := true } : Actor Sdp).teardownPeers
        have hopen : ({ a with fatalSeen := true } : Actor Sdp).teardownPeers.clearStore.closed =
            false := (congrArg Session.closed hcleared).trans (by
          unfold Session.forget
          split_ifs <;> exact h)
        rw [story_emit _ hopen, hcleared]
        rfl
    · simp only [hover, Bool.false_eq_true, if_false]
      exact story_emit { a with fatalSeen := true } h _
  · rw [if_neg hfatal, if_neg hfatal, story_emit _ h]

theorem story_handleServerMessage (h : a.closed = false) (msg : ServerMessage Sdp) :
    story (a.handleServerMessage rtc msg) = (story a).hear reader msg rtc.creates := by
  let b : Actor Sdp := { a with roster := updateRoster a.maxPlayers a.roster msg }
  have hb : story b = { story a with roster := updateRoster a.maxPlayers a.roster msg } := rfl
  have hreset (event : Event) (p : PlayerId) : story ((b.emit event).resetPeer rtc p) =
      ((story b).tell event).meet reader p (rtc.creates p) := by
    have htold := story_emit b h event
    rw [story_resetPeer rtc _ ((congrArg Session.closed htold).trans h), htold]
  cases msg with
  | playerJoined p players => exact hreset _ p
  | playerLeft p reason =>
    unfold Actor.handleServerMessage Session.hear
    simp only
    by_cases hreason : PlayerLeftReason.fromWire reason = .explicitLeave
    · have hdropped := story_closePeer b p
      rw [if_pos hreason, if_pos hreason]
      refine (story_emit _ ((congrArg Session.closed hdropped).trans h) _).trans ?_
      rw [hdropped]
      rfl
    · rw [if_neg hreason, if_neg hreason]
      exact story_emit b h _
  | playerRejoined p wasReplacement => exact hreset _ p
  | playerReplaced p => exact hreset _ p
  | roomStarted => exact story_emit { b with started := true } h _
  | signal source payload => cases payload <;> exact story_handleSignal rtc b h source _
  | error code message => exact story_handleError b h code message
  | joined | unknown => rfl

variable {a}

theorem tie_story (a : Actor Sdp) (p : PlayerId) (epoch : Nat) : (story a).tie p epoch =
    ((a.peers p).filter fun peer => peer.link.epoch = epoch).map tieOf := by
  show ((a.peers p).map tieOf).filter _ = _
  rw [Option.filter_map]
  rfl

theorem current_eq (hplaced : Placed a) (p : PlayerId) (epoch : Nat) :
    a.linkEpochCurrent p epoch = ((story a).tie p epoch).isSome := by
  rw [tie_story]
  unfold Actor.linkEpochCurrent Actor.holds
  cases hp : a.peers p with
  | none => rfl
  | some peer =>
    have hopen := isClosed_linkOf hplaced (linkOf_eq_some hp)
    by_cases hepoch : peer.link.epoch = epoch
    · subst hepoch
      simp [hopen]
    · simp [hepoch]

theorem story_handlePeerFailure (h : a.closed = false) {p : PlayerId} {peer : Peer}
    (hp : a.peers p = some peer) :
    story (a.handlePeerFailure p peer.link.epoch) = (story a).fail p (tieOf peer) := by
  unfold Actor.handlePeerFailure Session.fail
  rw [hp]
  simp only
  by_cases hinitiator : peer.link.initiator = true
  · rw [if_neg (by simp [hinitiator, h]), if_pos (show (tieOf peer).initiator = true from hinitiator)]
    by_cases hmany : (a.rebuildCounts p).getD 0 + 1 ≤ maxPeerRebuilds
    · rw [if_neg (Nat.not_lt.2 hmany),
        if_pos (show ((story a).failures p).getD 0 + 1 ≤ maxPeerRebuilds from hmany)]
      rfl
    · rw [if_pos (Nat.not_le.1 hmany),
        if_neg (show ¬((story a).failures p).getD 0 + 1 ≤ maxPeerRebuilds from hmany), List.append_nil]
      rfl
  · rw [if_pos (by simp [hinitiator]), if_neg (show ¬(tieOf peer).initiator = true from hinitiator)]

theorem story_handlePeerState (h : a.closed = false) (hplaced : Placed a) (p : PlayerId)
    (epoch : Nat) (state : PeerState) :
    story (a.handlePeerState p epoch state) = (story a).report p epoch state := by
  have htold := story_emit a h (.peerState p state)
  have hpeers : (a.emit (.peerState p state)).peers = a.peers := by
    unfold Actor.emit
    split_ifs <;> rfl
  unfold Actor.handlePeerState Session.report
  rw [current_eq hplaced]
  cases htie : (story a).tie p epoch with
  | none => rfl
  | some tie =>
    obtain ⟨peer, hpeer, rfl⟩ := Option.map_eq_some_iff.1 ((tie_story a p epoch).symm.trans htie)
    obtain ⟨hp, hepoch⟩ := Option.filter_eq_some_iff.1 hpeer
    obtain rfl : peer.link.epoch = epoch := of_decide_eq_true hepoch
    simp only [Option.isSome_some, Bool.not_true, Bool.false_eq_true, if_false, ← htold]
    cases state with
    | failed =>
      exact story_handlePeerFailure ((congrArg Session.closed htold).trans h) (by rw [hpeers, hp])
    | new | connecting | connected | disconnected | closed => rfl

theorem story_handleReliable (h : a.closed = false) (p : PlayerId) (epoch : Nat) (data : Bytes)
    (now : Int) :
    story (a.handleReliable p epoch data now) = (story a).receive reader p epoch data now := by
  unfold Actor.handleReliable Session.receive
  rw [tie_story]
  cases hp : a.peers p with
  | none => rfl
  | some peer =>
    simp only
    by_cases hepoch : peer.link.epoch = epoch
    · rw [if_neg (not_not.2 hepoch),
        Option.filter_some_pos (p := fun peer : Peer => decide (peer.link.epoch = epoch))
          (decide_eq_true hepoch)]
      have hheld (r : Reassembler Int) :
          story (a.modifyPeer p fun peer => { peer with reassembler := r }) = { story a with
            ties := Function.update (story a).ties p (some { tieOf peer with held := r }) } := by
        simp only [story, Actor.modifyPeer, hp, ties_update]
        rfl
      have htake : reader.take (tieOf peer).held data now = match parseFrame data with
        | .error _ => (peer.reassembler, none)
        | .ok frame => peer.reassembler.push Native.reassemblyTimeoutMs frame now := rfl
      simp only [Option.map_some, htake]
      cases parseFrame data with
      | error reason =>
        have hsame : Function.update (story a).ties p (some (tieOf peer)) = (story a).ties :=
          Function.update_eq_self_iff.2 (by simp [story, hp])
        exact (congrArg (fun ties => { story a with ties := ties }) hsame).symm
      | ok frame =>
        simp only
        have hread := hheld (peer.reassembler.push Native.reassemblyTimeoutMs frame now).1
        cases (peer.reassembler.push Native.reassemblyTimeoutMs frame now).2 with
        | none => exact hread
        | some message =>
          refine (story_emit _ ?_ _).trans (congrArg (Session.tell · _) hread)
          exact (congrArg Session.closed hread).trans h
    · rw [if_pos hepoch,
        Option.filter_some_neg (p := fun peer : Peer => decide (peer.link.epoch = epoch))
          (by simpa using hepoch)]
      rfl

theorem story_rebuild (h : a.closed = false) (hplaced : Placed a) (p : PlayerId) (epoch : Nat) :
    story (if a.rebuilds rtc p epoch then a.initiatePeer rtc p else a) =
      (story a).retry reader p epoch rtc.failed (rtc.creates p) := by
  have hwhen : a.rebuilds rtc p epoch =
      (((story a).tie p epoch).isSome && rtc.failed && (story a).present p) := by
    rw [← current_eq hplaced]
    simp only [Actor.rebuilds, h, Bool.not_false, Bool.true_and]
    rfl
  unfold Session.retry
  rw [hwhen]
  exact (apply_ite story _ _ _).trans (if_congr Iff.rfl (story_initiatePeer rtc a h p) rfl)

/-- What the handling of an input is in the story. -/
def happening (rtc : Rtc Sdp) : Input Sdp → Option (Happening Sdp)
  | .cmd .close | .cmdsEnded => some .leave
  | .cmd _ => none
  | .internal (.ws msg) => some (.message msg rtc.creates)
  | .internal .wsClosed => some .lost
  | .internal (.ice ..) => none
  | .internal (.state p epoch state) => some (.state p epoch state)
  | .internal (.reliable p epoch data now) => some (.frame p epoch data now)
  | .internal (.bestEffort p epoch data) => some (.datagram p epoch data)
  | .internal (.pair p epoch localType remoteType) => some (.pair p epoch localType remoteType)
  | .internal (.rebuild p epoch) => some (.retry p epoch rtc.failed rtc.creates)

theorem story_handleInternal (h : a.closed = false) (hplaced : Placed a) (input : Internal Sdp) :
    story (a.handleInternal rtc input) =
      ((happening rtc (.internal input)).elim (story a) ((story a).take reader)) := by
  have hopen : (story a).closed = false := h
  cases input with
  | ws msg =>
    simp only [happening, Option.elim, Session.take, hopen, Bool.false_eq_true, if_false]
    exact story_handleServerMessage rtc a h msg
  | wsClosed =>
    simp only [happening, Option.elim, Actor.handleInternal]
    unfold Session.take
    rw [if_neg (c := (story a).closed = true) (by simp [hopen])]
    by_cases hseen : a.fatalSeen = true
    · rw [if_neg (c := (!a.closed && !a.fatalSeen) = true) (by simp [hseen]),
        if_pos (c := (story a).ended = true) hseen]
    · rw [if_pos (c := (!a.closed && !a.fatalSeen) = true) (by simp [hseen, h]),
        if_neg (c := (story a).ended = true) hseen]
      exact story_emit { a with fatalSeen := true } h _
  | ice p epoch candidate =>
    simp only [happening, Option.elim, Actor.handleInternal]
    split_ifs
    · exact story_sendSignal a p _
    · rfl
  | state p epoch state =>
    simp only [happening, Option.elim, Session.take, hopen, Bool.false_eq_true, if_false]
    exact story_handlePeerState h hplaced p epoch state
  | reliable p epoch data now =>
    simp only [happening, Option.elim, Session.take, hopen, Bool.false_eq_true, if_false]
    exact story_handleReliable h p epoch data now
  | bestEffort p epoch data =>
    simp only [happening, Option.elim, Session.take, hopen, Bool.false_eq_true, if_false,
      Actor.handleInternal, current_eq hplaced]
    rw [apply_ite story, story_emit a h]
  | pair p epoch localType remoteType =>
    simp only [happening, Option.elim, Session.take, hopen, Bool.false_eq_true, if_false,
      Actor.handleInternal, current_eq hplaced]
    rw [apply_ite story, story_emit a h]
  | rebuild p epoch =>
    simp only [happening, Option.elim, Session.take, hopen, Bool.false_eq_true, if_false]
    exact story_rebuild rtc h hplaced p epoch

theorem story_bestEffortTo (a : Actor Sdp) (p : PlayerId) (data : Bytes) :
    story (a.bestEffortTo rtc p data) = story a := by
  unfold Actor.bestEffortTo
  split
  · rfl
  · split_ifs <;> rfl

theorem story_handleCmd (a : Actor Sdp) (cmd : Cmd) : story (a.handleCmd rtc cmd) = story a := by
  cases cmd with
  | sendReliable target data =>
    simp only [Actor.handleCmd, Actor.sendReliable]
    split_ifs <;> rfl
  | sendBestEffort target data => exact story_bestEffortTo rtc a target data
  | broadcastBestEffort data =>
    simp only [Actor.handleCmd]
    generalize broadcastTargets a = targets
    induction targets generalizing a with
    | nil => rfl
    | cons p rest ih => exact (ih _).trans (story_bestEffortTo rtc a p data)
  | close => rfl

theorem story_shutdown (a : Actor Sdp) : story a.shutdown = (story a).leave := story_clearStore _

/-- The actor is closed when its loop has ended, and its open links are in their places. -/
structure Keeps (g : Game Sdp) : Prop where
  running : g.running = !g.actor.closed
  placed : Placed g.actor

theorem story_take {g : Game Sdp} (h : Keeps g) (input : Input Sdp) :
    story (g.take rtc input).actor =
      (happening rtc input).elim (story g.actor) ((story g.actor).take reader) := by
  unfold Game.take
  rw [h.running]
  cases hclosed : g.actor.closed with
  | true =>
    have hdone (happening : Happening Sdp) :
        (story g.actor).take reader happening = story g.actor := by
      unfold Session.take
      exact if_pos hclosed
    cases happening rtc input with
    | none => rfl
    | some happening => exact (hdone happening).symm
  | false =>
    have hleave : (story g.actor).take reader (.leave : Happening Sdp) = (story g.actor).leave := by
      unfold Session.take
      exact if_neg (by simp [story, hclosed])
    simp only [Bool.not_false, Bool.not_true, Bool.false_eq_true, if_false]
    cases input with
    | cmd cmd =>
      cases cmd with
      | close => exact (story_shutdown g.actor).trans hleave.symm
      | sendReliable target data => exact story_handleCmd rtc g.actor (.sendReliable target data)
      | sendBestEffort target data => exact story_handleCmd rtc g.actor (.sendBestEffort target data)
      | broadcastBestEffort data => exact story_handleCmd rtc g.actor (.broadcastBestEffort data)
    | cmdsEnded => exact (story_shutdown g.actor).trans hleave.symm
    | internal input => exact story_handleInternal rtc hclosed h.placed input

theorem placed_initiatePeer (h : Placed a) (p : PlayerId) : Placed (a.initiatePeer rtc p) := by
  cases hclosed : a.closed with
  | true =>
    unfold Actor.initiatePeer
    rw [if_pos hclosed]
    exact h
  | false => exact (placed_createLink rtc h p true).1.congr (view_initiatePeer rtc a p hclosed)

theorem placed_resetPeer (h : Placed a) (p : PlayerId) : Placed (a.resetPeer rtc p) := by
  have hdropped : Placed { a.closePeer p with
      rebuildCounts := Function.update (a.closePeer p).rebuildCounts p none } :=
    (placed_closePeer h p).congr rfl
  unfold Actor.resetPeer
  simp only
  split_ifs
  · exact h
  · exact placed_initiatePeer rtc hdropped p
  · exact hdropped

theorem placed_handleSignal (h : Placed a) (source : PlayerId) (payload : SignalPayload Sdp) :
    Placed (a.handleSignal rtc source payload) := by
  by_cases hoffer : ∃ sdp, payload = .offer sdp
  · obtain ⟨sdp, rfl⟩ := hoffer
    unfold Actor.handleSignal
    simp only
    split_ifs
    · exact h
    · exact h
    · exact (placed_createLink rtc h source false).1.congr (view_answerOffer rtc a source sdp)
  · exact h.congr (view_handleSignal rtc a source fun sdp heq => hoffer ⟨sdp, heq⟩)

theorem placed_handleError (h : Placed a) (code message : String) :
    Placed (a.handleError code message) := by
  have hview := view_handleError a code message
  split_ifs at hview
  · exact (placed_teardownPeers h).congr hview
  · exact h.congr hview

theorem placed_handleServerMessage (h : Placed a) (msg : ServerMessage Sdp) :
    Placed (a.handleServerMessage rtc msg) := by
  have hroster : Placed { a with roster := updateRoster a.maxPlayers a.roster msg } :=
    ⟨h.opened, h.made⟩
  have hemit {b : Actor Sdp} (hb : Placed b) (event : Event) : Placed (b.emit event) :=
    hb.congr (view_emit b event)
  unfold Actor.handleServerMessage
  simp only
  cases msg with
  | playerJoined p | playerRejoined p | playerReplaced p =>
    exact placed_resetPeer rtc (hemit hroster _) p
  | playerLeft p reason =>
    simp only
    split_ifs
    · exact hemit (placed_closePeer hroster p) _
    · exact hemit hroster _
  | roomStarted => exact hemit (b := { a with roster := _, started := true }) ⟨h.opened, h.made⟩ _
  | signal source payload => exact placed_handleSignal rtc hroster source payload
  | error code message => exact placed_handleError hroster code message
  | joined | unknown => exact hroster

theorem placed_handleInternal (h : Placed a) (input : Internal Sdp) :
    Placed (a.handleInternal rtc input) := by
  cases input with
  | ws msg => exact placed_handleServerMessage rtc h msg
  | ice p epoch candidate =>
    simp only [Actor.handleInternal]
    split_ifs
    · exact h.congr (view_sendSignal a p _)
    · exact h
  | state p epoch state => exact h.congr (view_handlePeerState a p epoch state)
  | wsClosed | reliable | bestEffort | pair =>
    exact h.congr (view_silent (Silence.silent_handleInternal rtc a rfl))
  | rebuild p epoch =>
    simp only [Actor.handleInternal]
    split_ifs
    · exact placed_initiatePeer rtc h p
    · exact h

theorem placed_handleCmd (h : Placed a) (cmd : Cmd) : Placed (a.handleCmd rtc cmd) := by
  cases cmd with
  | sendReliable target data =>
    simp only [Actor.handleCmd, Actor.sendReliable]
    split_ifs
    · exact h
    · exact ⟨h.opened, h.made⟩
  | sendBestEffort | broadcastBestEffort | close =>
    exact h.congr (view_silent (Silence.silent_handleCmd rtc a rfl))

theorem closed_handleInternal (h : a.closed = false) (hplaced : Placed a) (input : Internal Sdp) :
    (a.handleInternal rtc input).closed = false := by
  have hstays : ∀ what, happening rtc (.internal input) = some what → what ≠ .leave := by
    rintro _ hwhat rfl
    cases input <;> cases hwhat
  refine (congrArg Session.closed (story_handleInternal rtc h hplaced input)).trans ?_
  cases hwhat : happening rtc (.internal input) with
  | none => exact h
  | some what => exact (closed_take reader _ (hstays what hwhat)).trans h

theorem keeps_take {g : Game Sdp} (h : Keeps g) (input : Input Sdp) : Keeps (g.take rtc input) := by
  have hshutdown : Keeps (⟨g.actor.shutdown, false⟩ : Game Sdp) := by
    refine ⟨?_, (placed_teardownPeers h.placed).congr (view_shutdown g.actor)⟩
    have hclosed : g.actor.shutdown.closed = true :=
      (congrArg Session.closed (story_shutdown g.actor)).trans (closed_leave _)
    simp [hclosed]
  unfold Game.take
  rw [h.running]
  cases hclosed : g.actor.closed with
  | true => exact h
  | false =>
    have hcmd (cmd : Cmd) : Keeps (⟨g.actor.handleCmd rtc cmd, true⟩ : Game Sdp) := by
      refine ⟨?_, placed_handleCmd rtc h.placed cmd⟩
      have hopen : (g.actor.handleCmd rtc cmd).closed = false :=
        (congrArg Session.closed (story_handleCmd rtc g.actor cmd)).trans hclosed
      simp [hopen]
    simp only [Bool.not_false, Bool.not_true, Bool.false_eq_true, if_false]
    cases input with
    | cmd cmd =>
      cases cmd with
      | close => exact hshutdown
      | sendReliable target data => exact hcmd _
      | sendBestEffort target data => exact hcmd _
      | broadcastBestEffort data => exact hcmd _
    | cmdsEnded => exact hshutdown
    | internal input =>
      refine ⟨?_, placed_handleInternal rtc h.placed input⟩
      have hopen := closed_handleInternal rtc hclosed h.placed input
      simp [hopen]

theorem story_new (storagePath : Option String) (joined : JoinedMsg) :
    story (Actor.new storagePath joined : Actor Sdp) =
      Session.new joined storagePath.isSome := by
  cases storagePath <;> rfl

theorem targets_story (a : Actor Sdp) : initialTargets a = (story a).targets := by
  unfold initialTargets Session.targets
  refine congrArg (List.map PlayerInfo.id) (List.filter_congr fun slot _ => ?_)
  by_cases hself : slot.id = a.selfId
  · simp [story, hself]
  · simp only [hself, ne_eq, not_false_eq_true, decide_true, Bool.true_and]
    rfl

theorem keeps_initiate (targets : List PlayerId) (h : Placed a) (hclosed : a.closed = false) :
    Keeps (⟨targets.foldl (fun a p => a.initiatePeer rtc p) a, true⟩ : Game Sdp) ∧
      story (targets.foldl (fun a p => a.initiatePeer rtc p) a) =
        targets.foldl (fun s p => s.renew reader p true (rtc.creates p)) (story a) := by
  induction targets generalizing a with
  | nil => exact ⟨⟨by simp [hclosed], h⟩, rfl⟩
  | cons p rest ih =>
    have hmade := story_initiatePeer rtc a hclosed p
    have hrest := ih (placed_initiatePeer rtc h p) ((congrArg Session.closed hmade).trans hclosed)
    rwa [hmade] at hrest

theorem keeps_start (storagePath : Option String) (joined : JoinedMsg) :
    Keeps (Game.start rtc storagePath joined) ∧
      story (Game.start rtc storagePath joined).actor =
        (Session.new joined storagePath.isSome).begin reader rtc.creates := by
  have hnew : Placed (Actor.new storagePath joined : Actor Sdp) :=
    ⟨fun _ _ => ⟨nofun, nofun⟩, fun _ h => absurd rfl h⟩
  have hstart := keeps_initiate rtc (initialTargets (Actor.new storagePath joined : Actor Sdp)) hnew
    rfl
  rw [story_new] at hstart
  refine ⟨hstart.1, hstart.2.trans ?_⟩
  rw [targets_story, story_new]
  rfl

/-- After any inputs the user has been told the story of what they were. -/
theorem story_run {g : Game Sdp} (h : Keeps g) (inputs : List (Rtc Sdp × Input Sdp)) :
    story (inputs.foldl (fun g l => g.take l.1 l.2) g).actor =
      (story g.actor).run reader (inputs.filterMap fun l => happening l.1 l.2) := by
  induction inputs generalizing g with
  | nil => rfl
  | cons l rest ih =>
    rw [List.foldl_cons, ih (keeps_take l.1 h l.2), story_take l.1 h, List.filterMap_cons]
    cases happening l.1 l.2 <;> rfl

/-- Between any two times of a run, and at its start. -/
theorem rust_run (storagePath : Option String) (joined : JoinedMsg)
    (before after : List (Rtc Sdp × Input Sdp)) :
    story (Game.start rtc storagePath joined).actor =
        (Session.new joined storagePath.isSome).take reader (.begun rtc.creates : Happening Sdp) ∧
      story ((before ++ after).foldl (fun g l => g.take l.1 l.2)
          (Game.start rtc storagePath joined)).actor =
        (story (before.foldl (fun g l => g.take l.1 l.2) (Game.start rtc storagePath joined)).actor).run
          reader (after.filterMap fun l => happening l.1 l.2) := by
  obtain ⟨hkeeps, hstart⟩ := keeps_start rtc storagePath joined
  have hbefore : Keeps (before.foldl (fun g l => g.take l.1 l.2)
      (Game.start rtc storagePath joined)) :=
    List.foldlRecOn before _ hkeeps fun g h l _ => keeps_take l.1 h l.2
  rw [List.foldl_append]
  exact ⟨hstart, story_run hbefore after⟩

/-- The tasks of the reliable sends take turns with the actor as they like: its state is that of
its inputs alone, its maps are those of the tasks, and the user has been told the same story. -/
theorem watched_run {joined : JoinedMsg} {ls : List (Watches.Label Sdp)} {g : Watches.Game Sdp}
    (run : Run (Watches.system Sdp joined) ls g) :
    (∃ rtc storagePath, g.native = (ls.filterMap Watches.Label.input).foldl
        (fun g l => g.take l.1 l.2) (Game.start rtc storagePath joined) ∧
      story g.actor.native =
        ((Session.new joined storagePath.isSome).take reader (.begun rtc.creates : Happening Sdp)).run
          reader ((ls.filterMap Watches.Label.input).filterMap fun l => happening l.1 l.2)) ∧
    ∀ p, g.actor.native.linkWatch p =
        (g.actor.linkWatch p).map (fun _ => Watches.linkOf g.actor.native p) ∧
      g.actor.native.sendQueues p = (g.actor.sendQueues p).map (·.jobs) := by
  obtain ⟨rtc, storagePath, hnative⟩ := Watches.native_run run
  obtain ⟨hkeeps, hstart⟩ := keeps_start rtc storagePath joined
  have hstory := story_run hkeeps (ls.filterMap Watches.Label.input)
  rw [← hnative, hstart] at hstory
  exact ⟨⟨rtc, storagePath, hnative, hstory⟩, native_maps run⟩

/-- A send that waits for its link while the first one cannot be made. -/
theorem watched_run_served : ∃ rtc storagePath,
    served.native = (servedLabels.filterMap Watches.Label.input).foldl
        (fun g l => g.take l.1 l.2) (Game.start rtc storagePath firstOfTwo) ∧
      served.actor.native.sendQueues 1 = some [[7]] := by
  obtain ⟨⟨rtc, storagePath, hnative, -⟩, hmaps⟩ := watched_run run_served
  exact ⟨rtc, storagePath, hnative, (hmaps 1).2⟩

end Lobbylink.Client.Telling
