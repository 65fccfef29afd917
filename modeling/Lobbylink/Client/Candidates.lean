import Lobbylink.Client.Silence
import Lobbylink.Lib.Runs

/-! What the client's actor tells its links of the other side: remote descriptions and
remote candidates. A candidate waits with its link until the description is set. -/
namespace Lobbylink.Client.Candidates
open Protocol Roster Native Silence Lib.Runs

variable {Sdp : Type} (wellFormed : String → Bool)

/-- A call on the link with an epoch: a remote description that it takes, or a candidate. -/
inductive Call where
  | setRemoteDescription (epoch : Nat)
  | addIceCandidate (epoch : Nat) (candidate : String)
  deriving DecidableEq, Repr

/-- `add_candidate`; `wellFormed` says what `serde_json` reads as a candidate. -/
def addCandidate (epoch : Nat) (candidate : String) : List Call :=
  if wellFormed candidate then [.addIceCandidate epoch candidate] else []

/-- `flush_candidates`. -/
def flushCandidates (peer : Peer) : List Call :=
  (peer.pendingCandidates.getD []).flatMap (addCandidate wellFormed peer.link.epoch)

/-- The link takes a remote description, and the candidates that waited for it. -/
def describe : Option Peer → List Call
  | none => []
  | some peer => .setRemoteDescription peer.link.epoch :: flushCandidates wellFormed peer

/-- The calls of `handle_signal`. -/
def signalCalls (rtc : Rtc Sdp) (a : Actor Sdp) (source : PlayerId)
    (payload : SignalPayload Sdp) : List Call :=
  if a.closed || source = a.selfId then []
  else match payload with
    | .offer _ =>
      if a.selfId < source then []
      else if !rtc.creates source || !rtc.parses then []
      else describe wellFormed ((a.createLink rtc source false).peers source)
    | .answer _ =>
      if a.takesAnswer rtc source then describe wellFormed (a.peers source) else []
    | .ice candidate =>
      match candidate, a.peers source with
      | some candidate, some peer =>
        if a.isClosed peer.link.epoch || peer.pendingCandidates.isSome then []
        else addCandidate wellFormed peer.link.epoch candidate
      | _, _ => []
    | .unknown => []

/-- A candidate that arrives from another player with an open link, and the epoch of that
link. -/
def arrival (a : Actor Sdp) (source : PlayerId) : SignalPayload Sdp → Option (Nat × String)
  | .ice (some candidate) =>
    if a.closed || source = a.selfId then none
    else match a.peers source with
      | none => none
      | some peer => if a.isClosed peer.link.epoch then none else some (peer.link.epoch, candidate)
  | _ => none

/-- The game, the calls so far, and the candidates that have arrived for each link. -/
structure World (Sdp : Type) where
  game : Game Sdp
  calls : List Call
  arrived : Nat → List String

def arrive (arrived : Nat → List String) : Option (Nat × String) → Nat → List String
  | none => arrived
  | some (epoch, candidate) => Function.update arrived epoch (arrived epoch ++ [candidate])

@[simp] theorem arrive_none (arrived : Nat → List String) : arrive arrived none = arrived := rfl

@[simp] theorem arrive_some (arrived : Nat → List String) (epoch : Nat) (candidate : String) :
    arrive arrived (some (epoch, candidate)) =
      Function.update arrived epoch (arrived epoch ++ [candidate]) := rfl

def World.take (rtc : Rtc Sdp) (w : World Sdp) (input : Input Sdp) : World Sdp :=
  let game := w.game.take rtc input
  match input with
  | .internal (.ws (.signal source payload)) =>
    if !w.game.running then { w with game := game }
    else ⟨game, w.calls ++ signalCalls wellFormed rtc w.game.actor source payload,
      arrive w.arrived (arrival w.game.actor source payload)⟩
  | _ => { w with game := game }

/-- Inputs in any order, with whatever the WebRTC stack answers. -/
def system (Sdp : Type) : System (World Sdp) (Rtc Sdp × Input Sdp) where
  init := fun w => ∃ rtc storagePath joined,
    w = ⟨Game.start rtc storagePath joined, [], fun _ => []⟩
  step := fun w l w' => w' = w.take wellFormed l.1 l.2

def handed (epoch : Nat) (calls : List Call) : List String :=
  calls.filterMap fun
    | .addIceCandidate e candidate => if e = epoch then some candidate else none
    | .setRemoteDescription _ => none

/-- Links have an epoch of their own, and none to come. -/
structure Apart (a : Actor Sdp) : Prop where
  bounded : ∀ p peer, a.peers p = some peer → peer.link.epoch ≤ a.epochCounter
  distinct : ∀ p q peer peer', a.peers p = some peer → a.peers q = some peer' →
    peer.link.epoch = peer'.link.epoch → p = q

/-- Each peer is one there was, with the candidates that wait, or it is new. -/
structure Carries (a b : Actor Sdp) : Prop where
  counter : a.epochCounter ≤ b.epochCounter
  apart : Apart a → Apart b
  peers : ∀ p peer, b.peers p = some peer →
    (∃ old, a.peers p = some old ∧ old.link.epoch = peer.link.epoch ∧
      old.pendingCandidates = peer.pendingCandidates) ∨
    (a.epochCounter < peer.link.epoch ∧ peer.pendingCandidates = some [])

variable {a b c : Actor Sdp} {p q : PlayerId}

theorem Carries.trans (h : Carries a b) (h' : Carries b c) : Carries a c where
  counter := Nat.le_trans h.counter h'.counter
  apart := fun ha => h'.apart (h.apart ha)
  peers := by
    intro p peer hpeer
    rcases h'.peers p peer hpeer with ⟨old, hold, he, hpending⟩ | ⟨hnew, hpending⟩
    · rw [← he, ← hpending]
      exact h.peers p old hold
    · exact .inr ⟨Nat.lt_of_le_of_lt h.counter hnew, hpending⟩

theorem carries_of_fewer (hcounter : b.epochCounter = a.epochCounter)
    (hpeers : ∀ p peer, b.peers p = some peer → a.peers p = some peer) : Carries a b where
  counter := Nat.le_of_eq hcounter.symm
  apart := fun ha => ⟨fun p peer h => hcounter ▸ ha.bounded p peer (hpeers p peer h),
    fun p q peer peer' h h' => ha.distinct p q peer peer' (hpeers p peer h) (hpeers q peer' h')⟩
  peers := fun p peer h => .inl ⟨peer, hpeers p peer h, rfl, rfl⟩

theorem carries_of_same (hcounter : b.epochCounter = a.epochCounter) (hpeers : b.peers = a.peers) :
    Carries a b :=
  carries_of_fewer hcounter fun _ _ h => hpeers ▸ h

theorem Carries.refl (a : Actor Sdp) : Carries a a := carries_of_same rfl rfl

theorem carries_emit (a : Actor Sdp) (event : Event) : Carries a (a.emit event) := by
  unfold Actor.emit
  split
  · exact .refl a
  · exact carries_of_same rfl rfl

theorem carries_clearStore (a : Actor Sdp) : Carries a a.clearStore := by
  unfold Actor.clearStore
  split
  · exact .refl a
  · exact carries_of_same rfl rfl

theorem carries_sendSignal (a : Actor Sdp) (p : PlayerId) (payload : SignalPayload Sdp) :
    Carries a (a.sendSignal p payload) := by
  unfold Actor.sendSignal
  split
  · exact .refl a
  · exact carries_of_same rfl rfl

theorem carries_closePeer (a : Actor Sdp) (q : PlayerId) : Carries a (a.closePeer q) := by
  unfold Actor.closePeer
  split
  · exact .refl a
  · refine carries_of_fewer rfl fun p peer h => ?_
    change Function.update a.peers q none p = some peer at h
    by_cases hp : p = q
    · rw [hp, Function.update_self] at h
      cases h
    · rwa [Function.update_of_ne hp] at h

theorem carries_teardownPeers (a : Actor Sdp) : Carries a a.teardownPeers :=
  carries_of_fewer rfl fun _ _ h => by cases h

theorem carries_shutdown (a : Actor Sdp) : Carries a a.shutdown := by
  have hclosed : Carries a { a with closed := true, sent := a.sent ++ [ClientMessage.leave] } :=
    carries_of_same rfl rfl
  exact (hclosed.trans (carries_teardownPeers _)).trans (carries_clearStore _)

theorem peers_modifyPeer (a : Actor Sdp) (q p : PlayerId) (f : Peer → Peer) :
    (a.modifyPeer q f).peers p = if p = q then (a.peers p).map f else a.peers p := by
  unfold Actor.modifyPeer
  split_ifs with hp
  · rw [hp]
    exact Function.update_self ..
  · exact Function.update_of_ne hp ..

theorem apart_modifyPeer (q : PlayerId) {f : Peer → Peer}
    (hf : ∀ peer, (f peer).link.epoch = peer.link.epoch) (ha : Apart a) :
    Apart (a.modifyPeer q f) := by
  have hold : ∀ p peer, (a.modifyPeer q f).peers p = some peer →
      ∃ old, a.peers p = some old ∧ old.link.epoch = peer.link.epoch := by
    intro p peer hpeer
    rw [peers_modifyPeer] at hpeer
    split_ifs at hpeer
    · obtain ⟨old, hold, rfl⟩ := Option.map_eq_some_iff.1 hpeer
      exact ⟨old, hold, (hf old).symm⟩
    · exact ⟨peer, hpeer, rfl⟩
  constructor
  · intro p peer hpeer
    obtain ⟨old, hp, he⟩ := hold p peer hpeer
    exact he ▸ ha.bounded p old hp
  · intro p p' peer peer' hpeer hpeer' heq
    obtain ⟨old, hp, he⟩ := hold p peer hpeer
    obtain ⟨old', hp', he'⟩ := hold p' peer' hpeer'
    exact ha.distinct p p' old old' hp hp' (by rw [he, he', heq])

theorem carries_modifyPeer (a : Actor Sdp) (q : PlayerId) {f : Peer → Peer}
    (hf : ∀ peer, (f peer).link.epoch = peer.link.epoch ∧
      (f peer).pendingCandidates = peer.pendingCandidates) : Carries a (a.modifyPeer q f) where
  counter := Nat.le_refl _
  apart := apart_modifyPeer q fun peer => (hf peer).1
  peers := by
    intro p peer hpeer
    rw [peers_modifyPeer] at hpeer
    split_ifs at hpeer
    · obtain ⟨old, hold, rfl⟩ := Option.map_eq_some_iff.1 hpeer
      exact .inl ⟨old, hold, (hf old).1.symm, (hf old).2.symm⟩
    · exact .inl ⟨peer, hpeer, rfl, rfl⟩

theorem carries_createLink (rtc : Rtc Sdp) (a : Actor Sdp) (q : PlayerId) (initiator : Bool) :
    Carries a (a.createLink rtc q initiator) := by
  unfold Actor.createLink
  refine (carries_closePeer a q).trans ?_
  generalize a.closePeer q = b
  simp only
  split_ifs
  · have hpeers : ∀ p peer, Function.update b.peers q
        (some ⟨⟨initiator, b.epochCounter + 1, .stable⟩, .empty, some []⟩) p = some peer →
        (p = q ∧ peer.link.epoch = b.epochCounter + 1 ∧ peer.pendingCandidates = some []) ∨
          b.peers p = some peer := by
      intro p peer hpeer
      by_cases hp : p = q
      · rw [hp, Function.update_self] at hpeer
        cases hpeer
        exact .inl ⟨hp, rfl, rfl⟩
      · rw [Function.update_of_ne hp] at hpeer
        exact .inr hpeer
    refine ⟨Nat.le_succ _, fun hb => ⟨fun p peer hpeer => ?_, fun p p' peer peer' hpeer hpeer' heq =>
      ?_⟩, fun p peer hpeer => ?_⟩
    · rcases hpeers p peer hpeer with ⟨-, he, -⟩ | hold
      · exact Nat.le_of_eq he
      · exact Nat.le_succ_of_le (hb.bounded p peer hold)
    · rcases hpeers p peer hpeer with ⟨hp, he, -⟩ | hold <;>
        rcases hpeers p' peer' hpeer' with ⟨hp', he', -⟩ | hold'
      · exact hp.trans hp'.symm
      · have hle := hb.bounded p' peer' hold'
        omega
      · have hle := hb.bounded p peer hold
        omega
      · exact hb.distinct p p' peer peer' hold hold' heq
    · rcases hpeers p peer hpeer with ⟨-, he, hpending⟩ | hold
      · exact .inr ⟨by omega, hpending⟩
      · exact .inl ⟨peer, hold, rfl, rfl⟩
  · exact ⟨Nat.le_succ _, fun hb => ⟨fun p peer h => Nat.le_succ_of_le (hb.bounded p peer h),
      hb.distinct⟩, fun p peer h => .inl ⟨peer, h, rfl, rfl⟩⟩

theorem carries_setSignaling (a : Actor Sdp) (q : PlayerId) (state : Signaling) :
    Carries a (a.modifyPeer q (Peer.setSignaling state)) :=
  carries_modifyPeer a q fun _ => ⟨rfl, rfl⟩

theorem carries_initiatePeer (rtc : Rtc Sdp) (a : Actor Sdp) (q : PlayerId) :
    Carries a (a.initiatePeer rtc q) := by
  have hlink := carries_createLink rtc a q true
  have hset := hlink.trans (carries_setSignaling _ q .haveLocalOffer)
  unfold Actor.initiatePeer
  simp only
  split_ifs
  · exact .refl a
  · exact hlink
  · exact hset.trans (carries_sendSignal _ q _)
  · exact hset

theorem carries_resetPeer (rtc : Rtc Sdp) (a : Actor Sdp) (q : PlayerId) :
    Carries a (a.resetPeer rtc q) := by
  have hclose := carries_closePeer a q
  have hcounts : Carries (a.closePeer q) { a.closePeer q with
      rebuildCounts := Function.update (a.closePeer q).rebuildCounts q none } :=
    carries_of_same rfl rfl
  unfold Actor.resetPeer
  simp only
  split_ifs
  · exact .refl a
  · exact (hclose.trans hcounts).trans (carries_initiatePeer rtc _ q)
  · exact hclose.trans hcounts

theorem carries_handleError (a : Actor Sdp) (code message : String) :
    Carries a (a.handleError code message) := by
  have hseen : Carries a { a with fatalSeen := true } := carries_of_same rfl rfl
  have htorn := hseen.trans (carries_teardownPeers _)
  unfold Actor.handleError
  simp only
  split_ifs
  · exact (htorn.trans (carries_clearStore _)).trans (carries_emit _ _)
  · exact htorn.trans (carries_emit _ _)
  · exact hseen.trans (carries_emit _ _)
  · exact carries_emit _ _

theorem carries_handleServerMessage (rtc : Rtc Sdp) (a : Actor Sdp) {msg : ServerMessage Sdp}
    (h : ∀ source payload, msg ≠ .signal source payload) :
    Carries a (a.handleServerMessage rtc msg) := by
  have hroster : Carries a { a with roster := updateRoster a.maxPlayers a.roster msg } :=
    carries_of_same rfl rfl
  unfold Actor.handleServerMessage
  refine hroster.trans ?_
  generalize { a with roster := updateRoster a.maxPlayers a.roster msg } = b
  cases msg with
  | playerJoined p players => exact (carries_emit _ _).trans (carries_resetPeer rtc _ p)
  | playerLeft p reason =>
    simp only
    split_ifs
    · exact (carries_closePeer b p).trans (carries_emit _ _)
    · exact carries_emit b _
  | playerRejoined p wasReplacement => exact (carries_emit _ _).trans (carries_resetPeer rtc _ p)
  | playerReplaced p => exact (carries_emit _ _).trans (carries_resetPeer rtc _ p)
  | roomStarted =>
    have hstarted : Carries b { b with started := true } := carries_of_same rfl rfl
    exact hstarted.trans (carries_emit _ _)
  | signal source payload => exact absurd rfl (h source payload)
  | error code message => exact carries_handleError b code message
  | joined _ => exact .refl b
  | unknown => exact .refl b

theorem carries_silent (h : Silent a b) : Carries a b := by
  induction h with
  | refl a => exact .refl a
  | trans _ _ ih ih' => exact ih.trans ih'
  | emit a event => exact carries_emit a event
  | hold a p r => exact carries_modifyPeer a p fun _ => ⟨rfl, rfl⟩
  | note => exact carries_of_same rfl rfl

theorem carries_handlePeerState (a : Actor Sdp) (q : PlayerId) (epoch : Nat) (state : PeerState) :
    Carries a (a.handlePeerState q epoch state) := by
  obtain ⟨b, counts, timers, hsilent, heq⟩ := silent_handlePeerState a q epoch state
  rw [heq]
  exact (carries_silent hsilent).trans (carries_of_same rfl rfl)

theorem carries_handleInternal (rtc : Rtc Sdp) (a : Actor Sdp) {input : Internal Sdp}
    (h : ∀ source payload, input ≠ .ws (.signal source payload)) :
    Carries a (a.handleInternal rtc input) := by
  cases input with
  | ws msg =>
    exact carries_handleServerMessage rtc a fun source payload heq =>
      h source payload (congrArg Internal.ws heq)
  | ice p epoch candidate =>
    simp only [Actor.handleInternal]
    split_ifs
    · exact carries_sendSignal a p _
    · exact .refl a
  | state p epoch state => exact carries_handlePeerState a p epoch state
  | rebuild p epoch =>
    simp only [Actor.handleInternal]
    split_ifs
    · exact carries_initiatePeer rtc a p
    · exact .refl a
  | wsClosed | reliable | bestEffort | pair =>
    exact carries_silent (silent_handleInternal rtc a rfl)

theorem carries_handleCmd (rtc : Rtc Sdp) (a : Actor Sdp) (cmd : Cmd) :
    Carries a (a.handleCmd rtc cmd) := by
  cases cmd with
  | sendReliable target data =>
    simp only [Actor.handleCmd, Actor.sendReliable]
    split_ifs
    · exact .refl a
    · exact carries_of_same rfl rfl
  | sendBestEffort | broadcastBestEffort | close =>
    exact carries_silent (silent_handleCmd rtc a rfl)

theorem carries_take (rtc : Rtc Sdp) (g : Game Sdp) {input : Input Sdp}
    (h : ∀ source payload, input ≠ .internal (.ws (.signal source payload))) :
    Carries g.actor (g.take rtc input).actor := by
  unfold Game.take
  split
  · exact .refl _
  · split
    · exact carries_shutdown g.actor
    · exact carries_shutdown g.actor
    · exact carries_handleCmd rtc g.actor _
    · exact carries_handleInternal rtc g.actor fun source payload heq =>
        h source payload (congrArg Input.internal heq)

variable {wellFormed} {calls more : List Call} {arrived : Nat → List String} {epoch e : Nat}
  {candidate : String}

theorem handed_append (epoch : Nat) (calls more : List Call) :
    handed epoch (calls ++ more) = handed epoch calls ++ handed epoch more :=
  List.filterMap_append

theorem handed_addCandidate (epoch e : Nat) (candidate : String) :
    handed epoch (addCandidate wellFormed e candidate) =
      if e = epoch then [candidate].filter wellFormed else [] := by
  unfold addCandidate handed
  by_cases he : e = epoch <;> by_cases hc : wellFormed candidate = true <;> simp [he, hc]

theorem handed_pending (epoch e : Nat) (pending : List String) :
    handed epoch (pending.flatMap (addCandidate wellFormed e)) =
      if e = epoch then pending.filter wellFormed else [] := by
  induction pending with
  | nil => simp [handed]
  | cons candidate rest ih =>
    rw [List.flatMap_cons, handed_append, handed_addCandidate, ih]
    split_ifs
    · rw [← List.filter_append, List.singleton_append]
    · rfl

theorem mem_addCandidate {call : Call} (h : call ∈ addCandidate wellFormed e candidate) :
    call = .addIceCandidate e candidate := by
  unfold addCandidate at h
  split_ifs at h
  · exact List.mem_singleton.1 h
  · exact absurd h List.not_mem_nil

theorem mem_flushCandidates {call : Call} {peer : Peer}
    (h : call ∈ flushCandidates wellFormed peer) :
    ∃ candidate, call = .addIceCandidate peer.link.epoch candidate := by
  obtain ⟨candidate, -, h⟩ := List.mem_flatMap.1 h
  exact ⟨candidate, mem_addCandidate h⟩

theorem not_mem_addCandidate : .setRemoteDescription epoch ∉ addCandidate wellFormed e candidate :=
  fun h => by cases mem_addCandidate h

theorem not_mem_flushCandidates (peer : Peer) :
    .setRemoteDescription epoch ∉ flushCandidates wellFormed peer := by
  intro h
  obtain ⟨candidate, h⟩ := mem_flushCandidates h
  cases h

def Ordered (calls : List Call) : Prop :=
  ∀ before after epoch candidate, calls = before ++ .addIceCandidate epoch candidate :: after →
    .setRemoteDescription epoch ∈ before

theorem Ordered.append (h : Ordered calls)
    (hmore : ∀ call ∈ more, ∀ epoch candidate, call = .addIceCandidate epoch candidate →
      .setRemoteDescription epoch ∈ calls) : Ordered (calls ++ more) := by
  intro before after epoch candidate heq
  rcases List.append_eq_append_iff.1 heq with ⟨mid, hbefore, hmid⟩ | ⟨mid, hcalls, hmid⟩
  · rw [hbefore]
    exact List.mem_append_left _ (hmore _ (by rw [hmid]; simp) epoch candidate rfl)
  · cases mid with
    | nil =>
      rw [List.append_nil] at hcalls
      rw [← hcalls]
      exact hmore _ (by rw [← List.nil_append more, ← hmid]; simp) epoch candidate rfl
    | cons call rest =>
      obtain ⟨rfl, hrest⟩ := List.cons.inj hmid
      exact h before rest epoch candidate hcalls

/-- What a link has been handed is what has arrived for it once it is described. -/
structure Inv (wellFormed : String → Bool) (a : Actor Sdp) (calls : List Call)
    (arrived : Nat → List String) : Prop where
  apart : Apart a
  none_yet : ∀ e, a.epochCounter < e → arrived e = [] ∧ .setRemoteDescription e ∉ calls
  pending : ∀ p peer, a.peers p = some peer → peer.pendingCandidates =
    if .setRemoteDescription peer.link.epoch ∈ calls then none else some (arrived peer.link.epoch)
  handed_eq : ∀ e, handed e calls =
    if .setRemoteDescription e ∈ calls then (arrived e).filter wellFormed else []
  ordered : Ordered calls

theorem Inv.carries (hi : Inv wellFormed a calls arrived) (h : Carries a b) :
    Inv wellFormed b calls arrived where
  apart := h.apart hi.apart
  none_yet := fun e he => hi.none_yet e (Nat.lt_of_le_of_lt h.counter he)
  pending := by
    intro p peer hpeer
    rcases h.peers p peer hpeer with ⟨old, hold, he, hpending⟩ | ⟨hnew, hpending⟩
    · rw [← hpending, ← he]
      exact hi.pending p old hold
    · obtain ⟨harrived, hnot⟩ := hi.none_yet peer.link.epoch hnew
      rw [hpending, if_neg hnot, harrived]
  handed_eq := hi.handed_eq
  ordered := hi.ordered

theorem Inv.modify (hi : Inv wellFormed a calls arrived) {peer : Peer} {f : Peer → Peer}
    {arrived' : Nat → List String} (hpeer : a.peers q = some peer)
    (hepoch : ∀ peer, (f peer).link.epoch = peer.link.epoch)
    (hother : ∀ e, e ≠ peer.link.epoch →
      arrived' e = arrived e ∧ handed e more = [] ∧ .setRemoteDescription e ∉ more)
    (hpending : (f peer).pendingCandidates =
      if .setRemoteDescription peer.link.epoch ∈ calls ++ more then none
      else some (arrived' peer.link.epoch))
    (hhanded : handed peer.link.epoch (calls ++ more) =
      if .setRemoteDescription peer.link.epoch ∈ calls ++ more then
        (arrived' peer.link.epoch).filter wellFormed else [])
    (hordered : Ordered (calls ++ more)) :
    Inv wellFormed (a.modifyPeer q f) (calls ++ more) arrived' := by
  have hkept : ∀ e, e ≠ peer.link.epoch →
      (.setRemoteDescription e ∈ calls ++ more ↔ .setRemoteDescription e ∈ calls) := fun e he => by
    rw [List.mem_append, or_iff_left (hother e he).2.2]
  refine ⟨apart_modifyPeer q hepoch hi.apart, fun e he => ?_, fun p old h => ?_, fun e => ?_,
    hordered⟩
  · have he : a.epochCounter < e := he
    have hbound := hi.apart.bounded q peer hpeer
    have hne : e ≠ peer.link.epoch := by omega
    obtain ⟨harrived, hnot⟩ := hi.none_yet e he
    exact ⟨(hother e hne).1.trans harrived, fun h => hnot ((hkept e hne).1 h)⟩
  · rw [peers_modifyPeer] at h
    split_ifs at h with hp
    · rw [hp, hpeer] at h
      cases h
      rw [hpending, hepoch]
    · have hne : old.link.epoch ≠ peer.link.epoch := fun he =>
        hp (hi.apart.distinct p q old peer h hpeer he)
      rw [hi.pending p old h, (hother _ hne).1]
      simp only [hkept _ hne]
  · by_cases he : e = peer.link.epoch
    · rw [he]
      exact hhanded
    · obtain ⟨harrived, hnone, -⟩ := hother e he
      rw [handed_append, hnone, List.append_nil, hi.handed_eq, harrived]
      simp only [hkept e he]

theorem Inv.describe (hi : Inv wellFormed a calls arrived) (q : PlayerId) (state : Signaling) :
    Inv wellFormed (a.modifyPeer q (Peer.flushCandidates ∘ Peer.setSignaling state))
      (calls ++ describe wellFormed (a.peers q)) arrived := by
  cases hpeer : a.peers q with
  | none =>
    have hsame : ∀ p peer, (a.modifyPeer q (Peer.flushCandidates ∘ Peer.setSignaling state)).peers p
        = some peer → a.peers p = some peer := by
      intro p peer h
      rw [peers_modifyPeer] at h
      split_ifs at h with hp
      · rw [hp, hpeer] at h
        cases h
      · exact h
    rw [Candidates.describe, List.append_nil]
    exact hi.carries (carries_of_fewer rfl hsame)
  | some peer =>
    have hset : .setRemoteDescription peer.link.epoch ∈
        calls ++ .setRemoteDescription peer.link.epoch :: flushCandidates wellFormed peer := by simp
    have hflushed : ∀ e, handed e (.setRemoteDescription peer.link.epoch ::
        flushCandidates wellFormed peer) = if peer.link.epoch = e then
          (peer.pendingCandidates.getD []).filter wellFormed else [] := fun e =>
      handed_pending e peer.link.epoch _
    rw [Candidates.describe]
    refine hi.modify hpeer (fun _ => rfl) (fun e he => ⟨rfl, ?_, ?_⟩) (if_pos hset).symm ?_ ?_
    · rw [hflushed, if_neg (Ne.symm he)]
    · simp [he, not_mem_flushCandidates]
    · rw [handed_append, hflushed, hi.handed_eq, if_pos rfl, if_pos hset, hi.pending q peer hpeer]
      split_ifs
      · simp
      · rfl
    · have hfirst : Ordered (calls ++ [.setRemoteDescription peer.link.epoch]) := by
        refine hi.ordered.append fun call hcall epoch candidate heq => ?_
        rw [List.mem_singleton.1 hcall] at heq
        cases heq
      rw [List.append_cons]
      refine hfirst.append fun call hcall epoch candidate heq => ?_
      obtain ⟨other, hother⟩ := mem_flushCandidates hcall
      rw [hother] at heq
      cases heq
      simp

theorem Inv.arrives (hi : Inv wellFormed a calls arrived) {peer : Peer}
    (hpeer : a.peers q = some peer) (candidate : String) :
    Inv wellFormed (a.modifyPeer q (Peer.addCandidate candidate))
      (calls ++ if peer.pendingCandidates.isSome then [] else
        addCandidate wellFormed peer.link.epoch candidate)
      (arrive arrived (some (peer.link.epoch, candidate))) := by
  have hwaits := hi.pending q peer hpeer
  have hmore : (Peer.addCandidate candidate peer).pendingCandidates =
      peer.pendingCandidates.map (· ++ [candidate]) := rfl
  rw [arrive_some]
  by_cases hset : .setRemoteDescription peer.link.epoch ∈ calls
  · rw [if_pos hset] at hwaits
    have hmem := List.mem_append_left (addCandidate wellFormed peer.link.epoch candidate) hset
    rw [hwaits, Option.isSome_none, if_neg Bool.false_ne_true]
    refine hi.modify hpeer (fun _ => rfl) (fun e he => ⟨?_, ?_, not_mem_addCandidate⟩) ?_ ?_ ?_
    · rw [Function.update_of_ne he]
    · rw [handed_addCandidate, if_neg fun h => he h.symm]
    · rw [hmore, hwaits, if_pos hmem]
      rfl
    · rw [if_pos hmem, handed_append, hi.handed_eq, if_pos hset, handed_addCandidate, if_pos rfl,
        Function.update_self, List.filter_append]
    · refine hi.ordered.append fun call hcall epoch other heq => ?_
      rw [mem_addCandidate hcall] at heq
      cases heq
      exact hset
  · rw [if_neg hset] at hwaits
    have hmem : .setRemoteDescription peer.link.epoch ∉ calls ++ [] := by rwa [List.append_nil]
    rw [hwaits, Option.isSome_some, if_pos rfl]
    refine hi.modify hpeer (fun _ => rfl) (fun e he => ⟨?_, rfl, List.not_mem_nil⟩) ?_ ?_ ?_
    · rw [Function.update_of_ne he]
    · rw [hmore, hwaits, if_neg hmem, Function.update_self]
      rfl
    · rw [if_neg hmem, List.append_nil, hi.handed_eq, if_neg hset]
    · rw [List.append_nil]
      exact hi.ordered

/-- A signal keeps calls and arrivals in step. -/
theorem inv_handleSignal (hi : Inv wellFormed a calls arrived) (rtc : Rtc Sdp) (source : PlayerId)
    (payload : SignalPayload Sdp) :
    Inv wellFormed (a.handleSignal rtc source payload)
      (calls ++ signalCalls wellFormed rtc a source payload)
      (arrive arrived (arrival a source payload)) := by
  unfold Actor.handleSignal signalCalls
  by_cases hours : (a.closed || source = a.selfId) = true
  · have harrival : arrival a source payload = none := by
      unfold arrival
      split
      · rw [if_pos hours]
      · rfl
    rw [if_pos hours, if_pos hours, List.append_nil, harrival]
    exact hi
  rw [if_neg hours, if_neg hours]
  cases payload with
  | offer sdp =>
    simp only [arrival, arrive]
    by_cases hlower : a.selfId < source
    · rw [if_pos hlower, if_pos hlower, List.append_nil]
      exact hi
    rw [if_neg hlower, if_neg hlower]
    have hlink := hi.carries (carries_createLink rtc a source false)
    unfold Actor.answerOffer
    simp only
    by_cases hfails : (!rtc.creates source || !rtc.parses) = true
    · rw [if_pos hfails, if_pos hfails, List.append_nil]
      exact hlink
    rw [if_neg hfails, if_neg hfails]
    have hread := hlink.describe source .haveRemoteOffer
    split_ifs
    · exact hread
    · exact (hread.carries (carries_setSignaling _ source .stable)).carries
        (carries_sendSignal _ source _)
    · exact hread.carries (carries_setSignaling _ source .stable)
  | answer sdp =>
    simp only [arrival, arrive]
    split_ifs
    · exact hi.describe source .stable
    · rw [List.append_nil]
      exact hi
  | ice candidate =>
    cases candidate with
    | none =>
      rw [List.append_nil]
      exact hi
    | some candidate =>
      simp only [arrival, if_neg hours]
      cases hpeer : a.peers source with
      | none =>
        have htakes : a.takesCandidate source = false := by
          unfold Actor.takesCandidate
          rw [hpeer]
        rw [htakes, List.append_nil]
        exact hi
      | some peer =>
        have htakes : a.takesCandidate source = !a.isClosed peer.link.epoch := by
          unfold Actor.takesCandidate
          rw [hpeer]
        rw [htakes]
        cases hclosed : a.isClosed peer.link.epoch with
        | true => simpa [hclosed] using hi
        | false => simpa [hclosed] using hi.arrives hpeer candidate
  | unknown =>
    rw [List.append_nil]
    exact hi

theorem inv_start (rtc : Rtc Sdp) (storagePath : Option String) (joined : JoinedMsg) :
    Inv wellFormed (Game.start rtc storagePath joined).actor [] fun _ => [] := by
  have hnew : Inv wellFormed (Actor.new storagePath joined : Actor Sdp) [] fun _ => [] :=
    ⟨⟨fun _ _ h => (by cases h), fun _ _ _ _ h => (by cases h)⟩,
      fun _ _ => ⟨rfl, List.not_mem_nil⟩, fun _ _ h => (by cases h),
      fun _ => (if_neg List.not_mem_nil).symm, fun before _ _ _ h => (by cases before <;> cases h)⟩
  exact List.foldlRecOn (motive := fun a => Inv wellFormed a [] fun _ => []) _ _ hnew
    fun a ha p _ => ha.carries (carries_initiatePeer rtc a p)

theorem inv_take {w : World Sdp} (hi : Inv wellFormed w.game.actor w.calls w.arrived) (rtc : Rtc Sdp)
    (input : Input Sdp) :
    Inv wellFormed (w.take wellFormed rtc input).game.actor (w.take wellFormed rtc input).calls
      (w.take wellFormed rtc input).arrived := by
  unfold World.take
  simp only
  split
  · next source payload =>
    by_cases hrunning : w.game.running = true
    · have hsignal : (w.game.take rtc (.internal (.ws (.signal source payload)))).actor =
          w.game.actor.handleSignal rtc source payload := by
        unfold Game.take
        rw [hrunning]
        rfl
      simp only [hrunning, Bool.not_true, Bool.false_eq_true, if_false, hsignal]
      exact inv_handleSignal hi rtc source payload
    · have hstopped : w.game.take rtc (.internal (.ws (.signal source payload))) = w.game := by
        unfold Game.take
        rw [if_pos (by simpa using hrunning)]
      simp only [hrunning, Bool.not_false, if_true, hstopped]
      exact hi
  · next hnot =>
    exact hi.carries (carries_take rtc w.game fun source payload heq => hnot source payload heq)

/-- A candidate is handed over after the description of its link only, and once a link is
described it has been handed the well-formed ones of all the candidates that have arrived
while it was the open link of their sender, in that order; none arrive for a link to come. -/
theorem candidates_handed {inputs : List (Rtc Sdp × Input Sdp)} {w : World Sdp}
    (run : Run (system wellFormed Sdp) inputs w) :
    Ordered w.calls ∧
    (∀ epoch, handed epoch w.calls = if .setRemoteDescription epoch ∈ w.calls then
      (w.arrived epoch).filter wellFormed else []) ∧
    ∀ epoch, w.game.actor.epochCounter < epoch → w.arrived epoch = [] := by
  have hi := run.invariant (fun w => Inv wellFormed w.game.actor w.calls w.arrived) ?_ ?_
  · exact ⟨hi.ordered, hi.handed_eq, fun epoch h => (hi.none_yet epoch h).1⟩
  · rintro w ⟨rtc, storagePath, joined, rfl⟩
    exact inv_start rtc storagePath joined
  · rintro w ⟨rtc, input⟩ w' hi rfl
    exact inv_take hi rtc input

def obliging : Rtc Unit where
  creates := fun _ => true
  offers := fun _ => true
  describes := fun _ => true
  parses := true
  answers := true
  failed := false
  takes := fun _ => true
  offerOf := fun _ => ()
  answerOf := fun _ _ => ()

/-- Player 0 of two, who has made an offer to player 1. -/
def offering : World Unit :=
  ⟨Game.start obliging none ⟨"ROOM", 0, 2, true, "token", [⟨0, true, true⟩, ⟨1, true, true⟩]⟩, [],
    fun _ => []⟩

/-- Two candidates before the answer, the second of them malformed, and one after it. -/
def trickle : List (Rtc Unit × Input Unit) :=
  [.ice (some "a"), .ice (some "b"), .answer (), .ice (some "c")].map fun payload =>
    (obliging, .internal (.ws (.signal 1 payload)))

def notB (candidate : String) : Bool := candidate != "b"

def afterTrickle : World Unit := trickle.foldl (fun w l => w.take notB l.1 l.2) offering

theorem run_trickle : Run (system notB Unit) trickle afterTrickle := by
  have hstart : Run (system notB Unit) [] offering := .init ⟨_, _, _, rfl⟩
  have hfollow : follow (fun (w : World Unit) l => some (w.take notB l.1 l.2)) trickle offering =
      some afterTrickle := rfl
  exact Run.follow (fun _ _ _ h => (Option.some.inj h).symm) hstart hfollow

theorem candidates_handed_trickle :
    afterTrickle.calls =
      [.setRemoteDescription 1, .addIceCandidate 1 "a", .addIceCandidate 1 "c"] ∧
    handed 1 afterTrickle.calls = ["a", "b", "c"].filter notB :=
  ⟨by decide, (candidates_handed run_trickle).2.1 1⟩

end Lobbylink.Client.Candidates
