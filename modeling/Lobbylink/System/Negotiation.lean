import Lobbylink.System.Signaling
import Lobbylink.Client.Silence
import Mathlib.Data.List.Perm.Subperm

/-! One input of a client, seen from the negotiation with one other player: what
it does to the link to that player, and the offer or answer it sends. -/
namespace Lobbylink.System.Negotiation
open Client.Protocol Client.Roster Client.Native Client.Silence Server.Lobby Signaling

section
variable {Sdp : Type}

def linkTo (a : Actor Sdp) (p : PlayerId) : Option Link := (a.peers p).map (·.link)

def wire (a : Actor Sdp) : (PlayerId → Option Link) × List (ClientMessage Sdp) × PlayerId :=
  (linkTo a, a.sent, a.selfId)

theorem wire_eq {a b : Actor Sdp} (h : wire b = wire a) :
    (∀ p, linkTo b p = linkTo a p) ∧ b.sent = a.sent ∧ b.selfId = a.selfId := by
  obtain ⟨hlinks, h⟩ := Prod.mk.inj h
  obtain ⟨hsent, hself⟩ := Prod.mk.inj h
  exact ⟨congrFun hlinks, hsent, hself⟩

/-- A call for player `q` leaves the other links alone and says `new` to `q`. -/
structure Concerns (q : PlayerId) (a a' : Actor Sdp) (new : List (ClientMessage Sdp)) : Prop where
  links : ∀ p, p ≠ q → linkTo a' p = linkTo a p
  sent : a'.sent = a.sent ++ new
  targets : ∀ m ∈ new, ∃ payload, m = .signal q payload
  self : a'.selfId = a.selfId

theorem Concerns.quiet {q : PlayerId} {a a' : Actor Sdp}
    (hl : ∀ p, p ≠ q → linkTo a' p = linkTo a p) (hs : a'.sent = a.sent)
    (hself : a'.selfId = a.selfId) : Concerns q a a' [] :=
  ⟨hl, by rw [hs, List.append_nil], by simp, hself⟩

theorem Concerns.refl (q : PlayerId) (a : Actor Sdp) : Concerns q a a [] :=
  .quiet (fun _ _ => rfl) rfl rfl

theorem Concerns.after {q : PlayerId} {a b c : Actor Sdp} {new : List (ClientMessage Sdp)}
    (h : Concerns q a b []) (h' : Concerns q b c new) : Concerns q a c new where
  links := fun p hp => (h'.links p hp).trans (h.links p hp)
  sent := by rw [h'.sent, h.sent, List.append_nil]
  targets := h'.targets
  self := h'.self.trans h.self

theorem Concerns.congr {q : PlayerId} {a b c : Actor Sdp} {new : List (ClientMessage Sdp)}
    (h : Concerns q b c new) (hw : wire b = wire a) : Concerns q a c new where
  links := fun p hp => (h.links p hp).trans ((wire_eq hw).1 p)
  sent := by rw [h.sent, (wire_eq hw).2.1]
  targets := h.targets
  self := h.self.trans (wire_eq hw).2.2

@[simp] theorem wire_emit (a : Actor Sdp) (event : Event) : wire (a.emit event) = wire a := by
  unfold Actor.emit
  split <;> rfl

@[simp] theorem closed_emit (a : Actor Sdp) (event : Event) :
    (a.emit event).closed = a.closed := by
  unfold Actor.emit
  split <;> rfl

@[simp] theorem selfId_emit (a : Actor Sdp) (event : Event) :
    (a.emit event).selfId = a.selfId := by
  unfold Actor.emit
  split <;> rfl

theorem linkTo_closePeer (a : Actor Sdp) (q p : PlayerId) :
    linkTo (a.closePeer q) p = if p = q then none else linkTo a p := by
  unfold Actor.closePeer linkTo
  split
  · next h =>
    split_ifs with hp
    · rw [hp, h]
      rfl
    · rfl
  · split_ifs with hp
    · simp [hp]
    · simp [Function.update_of_ne hp]

@[simp] theorem sent_closePeer (a : Actor Sdp) (q : PlayerId) :
    (a.closePeer q).sent = a.sent := by
  unfold Actor.closePeer
  split <;> rfl

@[simp] theorem closed_closePeer (a : Actor Sdp) (q : PlayerId) :
    (a.closePeer q).closed = a.closed := by
  unfold Actor.closePeer
  split <;> rfl

@[simp] theorem selfId_closePeer (a : Actor Sdp) (q : PlayerId) :
    (a.closePeer q).selfId = a.selfId := by
  unfold Actor.closePeer
  split <;> rfl

theorem concerns_closePeer (a : Actor Sdp) (q : PlayerId) : Concerns q a (a.closePeer q) [] :=
  .quiet (fun p hp => by rw [linkTo_closePeer, if_neg hp]) (sent_closePeer a q)
    (selfId_closePeer a q)

theorem linkTo_modifyPeer (a : Actor Sdp) (q p : PlayerId) (f : Peer → Peer) :
    linkTo (a.modifyPeer q f) p =
      if p = q then (a.peers q).map fun peer => (f peer).link else linkTo a p := by
  unfold Actor.modifyPeer linkTo
  split_ifs with hp
  · simp [hp, Function.comp_def]
  · simp [Function.update_of_ne hp]

theorem concerns_modifyPeer (a : Actor Sdp) (q : PlayerId) (f : Peer → Peer) :
    Concerns q a (a.modifyPeer q f) [] :=
  .quiet (fun p hp => by rw [linkTo_modifyPeer, if_neg hp]) rfl rfl

theorem wire_modifyPeer (a : Actor Sdp) (q : PlayerId) {f : Peer → Peer}
    (hf : ∀ peer, (f peer).link = peer.link) : wire (a.modifyPeer q f) = wire a := by
  refine Prod.ext (funext fun p => ?_) rfl
  refine (linkTo_modifyPeer a q p f).trans ?_
  split_ifs with hp
  · simp only [hf, hp]
    rfl
  · rfl

theorem concerns_createLink (rtc : Rtc Sdp) (a : Actor Sdp) (q : PlayerId) (initiator : Bool) :
    Concerns q a (a.createLink rtc q initiator) [] := by
  have hclose := concerns_closePeer a q
  unfold Actor.createLink
  simp only
  split_ifs
  · refine .quiet (fun p hp => ?_) (sent_closePeer a q) (selfId_closePeer a q)
    refine Eq.trans ?_ (hclose.links p hp)
    simp only [linkTo, Function.update_of_ne hp]
  · exact ⟨hclose.links, hclose.sent, hclose.targets, hclose.self⟩

theorem closed_createLink (rtc : Rtc Sdp) (a : Actor Sdp) (q : PlayerId) (initiator : Bool) :
    (a.createLink rtc q initiator).closed = a.closed := by
  unfold Actor.createLink
  simp only
  split_ifs <;> exact closed_closePeer a q

theorem peers_createLink {rtc : Rtc Sdp} (a : Actor Sdp) {q : PlayerId} (initiator : Bool)
    (h : rtc.creates q = true) : ((a.createLink rtc q initiator).peers q).map (·.link) =
      some ⟨initiator, (a.createLink rtc q initiator).epochCounter, .stable⟩ := by
  unfold Actor.createLink
  simp [h]

theorem concerns_sendSignal (a : Actor Sdp) (q : PlayerId) (payload : SignalPayload Sdp)
    (h : a.closed = false) : Concerns q a (a.sendSignal q payload) [.signal q payload] := by
  unfold Actor.sendSignal
  rw [if_neg (by simp [h])]
  exact ⟨fun _ _ => rfl, rfl, by simp, rfl⟩

theorem concerns_initiatePeer (rtc : Rtc Sdp) (a : Actor Sdp) (q : PlayerId) :
    ∃ new, Concerns q a (a.initiatePeer rtc q) new ∧ (new = [] ∨ ∃ link,
      linkTo (a.initiatePeer rtc q) q = some link ∧ link.signaling = .haveLocalOffer ∧
      new = [.signal q (.offer (rtc.offerOf link.epoch))]) := by
  unfold Actor.initiatePeer
  by_cases hclosed : a.closed = true
  · rw [if_pos hclosed]
    exact ⟨[], .refl q a, .inl rfl⟩
  rw [if_neg hclosed]
  simp only
  have hlink := concerns_createLink rtc a q true
  split_ifs with hfails hdescribes
  · exact ⟨[], hlink, .inl rfl⟩
  · simp only [Bool.or_eq_true, Bool.not_eq_true', not_or, Bool.not_eq_false] at hfails
    have hopen : (a.createLink rtc q true).closed = false := by
      rw [closed_createLink]
      simpa using hclosed
    generalize hb : a.createLink rtc q true = b at hlink hopen ⊢
    have hpeer := peers_createLink a true hfails.1
    rw [hb] at hpeer
    refine ⟨_, (hlink.after (concerns_modifyPeer b q _)).after
      (concerns_sendSignal _ q _ hopen), .inr ⟨⟨true, b.epochCounter, .haveLocalOffer⟩, ?_, rfl, rfl⟩⟩
    obtain ⟨peer, hp, heq⟩ := Option.map_eq_some_iff.1 hpeer
    unfold Actor.sendSignal
    rw [if_neg (by simpa [Actor.modifyPeer] using hopen)]
    refine (linkTo_modifyPeer b q q _).trans ?_
    rw [if_pos rfl, hp]
    simp only [Option.map_some, Peer.setSignaling, heq]
  · exact ⟨[], hlink.after (concerns_modifyPeer _ q _), .inl rfl⟩

theorem concerns_resetPeer (rtc : Rtc Sdp) (a : Actor Sdp) (q : PlayerId) :
    ∃ new, Concerns q a (a.resetPeer rtc q) new ∧ (new = [] ∨ ∃ link,
      linkTo (a.resetPeer rtc q) q = some link ∧ link.signaling = .haveLocalOffer ∧
      new = [.signal q (.offer (rtc.offerOf link.epoch))]) := by
  unfold Actor.resetPeer
  by_cases hself : q = a.selfId
  · rw [if_pos hself]
    exact ⟨[], .refl q a, .inl rfl⟩
  rw [if_neg hself]
  have hclose := concerns_closePeer a q
  simp only
  split_ifs
  · obtain ⟨new, hnew, hspec⟩ := concerns_initiatePeer rtc { a.closePeer q with
      rebuildCounts := Function.update (a.closePeer q).rebuildCounts q none } q
    exact ⟨new, hclose.after ⟨hnew.links, hnew.sent, hnew.targets, hnew.self⟩, hspec⟩
  · exact ⟨[], ⟨hclose.links, hclose.sent, hclose.targets, hclose.self⟩, .inl rfl⟩

theorem concerns_answerOffer (rtc : Rtc Sdp) (a : Actor Sdp) (q : PlayerId) (sdp : Sdp)
    (hopen : a.closed = false) : ∃ new, Concerns q a (a.answerOffer rtc q sdp) new ∧
      (new = [] ∨ ∃ epoch, new = [.signal q (.answer (rtc.answerOf epoch sdp))]) := by
  unfold Actor.answerOffer
  have hlink := concerns_createLink rtc a q false
  have hclosed := (closed_createLink rtc a q false).trans hopen
  simp only
  generalize a.createLink rtc q false = b at hlink hclosed ⊢
  split_ifs
  · exact ⟨[], hlink, .inl rfl⟩
  · exact ⟨[], hlink.after (concerns_modifyPeer _ q _), .inl rfl⟩
  · exact ⟨_, ((hlink.after (concerns_modifyPeer _ q _)).after (concerns_modifyPeer _ q _)).after
      (concerns_sendSignal _ q _ hclosed), .inr ⟨_, rfl⟩⟩
  · exact ⟨[], (hlink.after (concerns_modifyPeer _ q _)).after (concerns_modifyPeer _ q _),
      .inl rfl⟩

theorem wire_silent {a b : Actor Sdp} (h : Silent a b) : wire b = wire a :=
  h.same wire wire_emit (fun a p _ => wire_modifyPeer a p fun _ => rfl) fun _ _ _ => rfl

theorem wire_handlePeerState (a : Actor Sdp) (q : PlayerId) (epoch : Nat) (state : PeerState) :
    wire (a.handlePeerState q epoch state) = wire a := by
  obtain ⟨b, counts, timers, hsilent, heq⟩ := silent_handlePeerState a q epoch state
  have hwire : wire b = wire a := wire_silent hsilent
  rw [heq]
  exact hwire

theorem wire_handleCmd (rtc : Rtc Sdp) (a : Actor Sdp) (cmd : Cmd) :
    wire (a.handleCmd rtc cmd) = wire a := by
  cases cmd with
  | sendReliable target data =>
    simp only [Actor.handleCmd, Actor.sendReliable]
    split_ifs <;> rfl
  | sendBestEffort | broadcastBestEffort | close =>
    exact wire_silent (silent_handleCmd rtc a rfl)

end

def offerOf : SignalPayload Desc → Option LinkId
  | .offer sdp => some sdp.link
  | _ => none

def answerOf : SignalPayload Desc → Option Desc
  | .answer sdp => some sdp
  | _ => none

/-- What `f` finds in a message for `p`. -/
def upTo {α : Type} (p : PlayerId) (f : SignalPayload Desc → Option α) :
    ClientMessage Desc → Option α
  | .signal q payload => if q = p then f payload else none
  | .leave => none

/-- What `f` finds in a message of `p`. -/
def downFrom {α : Type} (p : PlayerId) (f : SignalPayload Desc → Option α) :
    ServerMessage Desc → Option α
  | .signal q payload => if q = p then f payload else none
  | _ => none

def offersUp (p : PlayerId) (msgs : List (ClientMessage Desc)) : List LinkId :=
  msgs.filterMap (upTo p offerOf)

def answersUp (p : PlayerId) (msgs : List (ClientMessage Desc)) : List Desc :=
  msgs.filterMap (upTo p answerOf)

def offersDown (p : PlayerId) (msgs : List (ServerMessage Desc)) : List LinkId :=
  msgs.filterMap (downFrom p offerOf)

def answersDown (p : PlayerId) (msgs : List (ServerMessage Desc)) : List Desc :=
  msgs.filterMap (downFrom p answerOf)

/-- What the client behind `c` would do with an answer of `p`: ignore it, since it
waits for none, set it on the link that made this offer, or find no link. -/
inductive Status where
  | idle | waiting (offer : LinkId) | gone
  deriving DecidableEq

def linkStatus (c : Conn) : Option Link → Status
  | none => .gone
  | some link => if link.signaling = .haveLocalOffer then .waiting ⟨c, link.epoch⟩ else .idle

def status (c : Conn) (g : Game Desc) (p : PlayerId) : Status :=
  if g.running then linkStatus c (linkTo g.actor p) else .gone

/-- At most one offer is being negotiated, and only that of the current link. -/
def Single (st : Status) (offers : List LinkId) : Prop :=
  offers = [] ∨ ∃ o, offers = [o] ∧ (st = .waiting o ∨ st = .gone)

variable {st : Status} {l l' : List LinkId} {o : LinkId}

theorem Single.nil (st : Status) : Single st [] := .inl rfl

theorem Single.subperm (h : Single st l) (hs : l'.Subperm l) : Single st l' := by
  rcases h with rfl | ⟨o, rfl, hst⟩
  · exact .inl (List.subperm_nil.1 hs)
  · rcases List.subperm_singleton_iff.1 hs with rfl | rfl
    · exact .inl rfl
    · exact .inr ⟨o, rfl, hst⟩

theorem Single.sublist (h : Single st l) (hs : l'.Sublist l) : Single st l' :=
  h.subperm hs.subperm

theorem Single.idle (h : Single .idle l) : l = [] := by
  rcases h with h | ⟨o, -, h | h⟩
  · exact h
  · cases h
  · cases h

theorem Single.toGone (h : Single st l) : Single .gone l := by
  rcases h with h | ⟨o, h, -⟩
  · exact .inl h
  · exact .inr ⟨o, h, .inr rfl⟩

theorem Single.tail (h : Single st (o :: l)) : l = [] := by
  rcases h with h | ⟨o', h, -⟩
  · cases h
  · exact (List.cons.inj h).2

theorem Single.head (h : Single st (o :: l)) : st = .waiting o ∨ st = .gone := by
  rcases h with h | ⟨o', h, hst⟩
  · cases h
  · rwa [(List.cons.inj h).1]

/-- The inputs on which a client makes a new link and offers it. -/
def Renews (rtc : Rtc Desc) (p : PlayerId) (g : Game Desc) : Input Desc → Prop
  | .internal (.ws msg) => noticeOf msg = some p
  | .internal (.rebuild q epoch) => q = p ∧ g.actor.rebuilds rtc p epoch = true
  | _ => False

/-- One input of a running client, as the negotiation with `p` sees it. -/
inductive Course (c : Conn) (rtc : Rtc Desc) (p : PlayerId) (input : Input Desc)
    (g g' : Game Desc) : Prop where
  | kept : status c g' p = status c g p → offersUp p g'.actor.sent = [] →
      answersUp p g'.actor.sent = [] → Course c rtc p input g g'
  | gone : status c g' p = .gone → offersUp p g'.actor.sent = [] →
      answersUp p g'.actor.sent = [] → Course c rtc p input g g'
  | settled (sdp : Desc) : input = .internal (.ws (.signal p (.answer sdp))) →
      status c g' p = .idle → offersUp p g'.actor.sent = [] →
      answersUp p g'.actor.sent = [] → Course c rtc p input g g'
  | renewed : Renews rtc p g input → Single (status c g' p) (offersUp p g'.actor.sent) →
      answersUp p g'.actor.sent = [] → Course c rtc p input g g'
  | answered (sdp : Desc) : input = .internal (.ws (.signal p (.offer sdp))) →
      p < g.actor.selfId → offersUp p g'.actor.sent = [] →
      (answersUp p g'.actor.sent = [] ∨
        ∃ epoch, answersUp p g'.actor.sent = [.answer ⟨c, epoch⟩ sdp.link]) →
      Course c rtc p input g g'

structure Turn (c : Conn) (rtc : Rtc Desc) (p : PlayerId) (input : Input Desc)
    (g g' : Game Desc) : Prop where
  self : g'.actor.selfId = g.actor.selfId
  course : Course c rtc p input g g'

variable {c : Conn} {rtc : Rtc Desc} {p q : PlayerId} {input : Input Desc} {a b : Actor Desc}

theorem upTo_other {α : Type} {f : SignalPayload Desc → Option α} {new : List (ClientMessage Desc)}
    (h : ∀ m ∈ new, ∃ payload, m = .signal q payload) (hp : p ≠ q) :
    new.filterMap (upTo p f) = [] := by
  rw [List.filterMap_eq_nil_iff]
  intro m hm
  obtain ⟨payload, rfl⟩ := h m hm
  exact if_neg (Ne.symm hp)

theorem turn_wire (hsent : a.sent = []) (h : wire b = wire a) :
    Turn c rtc p input ⟨a, true⟩ ⟨b, true⟩ := by
  obtain ⟨hlinks, hnew, hself⟩ := wire_eq h
  rw [hsent] at hnew
  refine ⟨hself, .kept ?_ (by simp [hnew, offersUp]) (by simp [hnew, answersUp])⟩
  exact congrArg (linkStatus c) (hlinks p)

theorem turn_other (hsent : a.sent = []) {new : List (ClientMessage Desc)}
    (h : Concerns q a b new) (hp : p ≠ q) : Turn c rtc p input ⟨a, true⟩ ⟨b, true⟩ := by
  have hnew : b.sent = new := by rw [h.sent, hsent, List.nil_append]
  refine ⟨h.self, .kept (congrArg (linkStatus c) (h.links p hp)) ?_ ?_⟩
  · exact (congrArg _ hnew).trans (upTo_other h.targets hp)
  · exact (congrArg _ hnew).trans (upTo_other h.targets hp)

theorem turn_renewed (hsent : a.sent = []) {new : List (ClientMessage Desc)}
    (h : Concerns q a b new) (hspec : new = [] ∨ ∃ link, linkTo b q = some link ∧
      link.signaling = .haveLocalOffer ∧
      new = [.signal q (.offer ((named rtc c).offerOf link.epoch))])
    (hrenews : p = q → Renews rtc p ⟨a, true⟩ input) :
    Turn c rtc p input ⟨a, true⟩ ⟨b, true⟩ := by
  by_cases hp : p = q
  · subst hp
    have hnew : b.sent = new := by rw [h.sent, hsent, List.nil_append]
    refine ⟨h.self, .renewed (hrenews rfl) ?_ ?_⟩
    · rcases hspec with rfl | ⟨link, hlink, hwaits, rfl⟩
      · exact .inl (by simp [hnew, offersUp])
      · refine .inr ⟨⟨c, link.epoch⟩,
          by simp [hnew, offersUp, upTo, offerOf, named, Desc.link], .inl ?_⟩
        simp only [status, if_true, hlink, linkStatus, hwaits]
    · rcases hspec with rfl | ⟨link, -, -, rfl⟩
      · simp [hnew, answersUp]
      · simp [hnew, answersUp, upTo, answerOf]
  · exact turn_other hsent h hp

theorem turn_signal (hsent : a.sent = []) (payload : SignalPayload Desc)
    (hwire : wire b = wire a) : Turn c rtc p (.internal (.ws (.signal q payload))) ⟨a, true⟩
      ⟨b.handleSignal (named rtc c) q payload, true⟩ := by
  unfold Actor.handleSignal
  by_cases hstop : (b.closed || decide (q = b.selfId)) = true
  · rw [if_pos hstop]
    exact turn_wire hsent hwire
  rw [if_neg hstop]
  simp only [Bool.or_eq_true, decide_eq_true_eq, not_or, Bool.not_eq_true] at hstop
  cases payload with
  | offer sdp =>
    simp only
    split_ifs with hlt
    · exact turn_wire hsent hwire
    obtain ⟨new, hnew, hspec⟩ := concerns_answerOffer (named rtc c) b q sdp hstop.1
    have hnew := hnew.congr hwire
    by_cases hp : p = q
    · subst hp
      have hsaid : (b.answerOffer (named rtc c) p sdp).sent = new := by
        rw [hnew.sent, hsent, List.nil_append]
      refine ⟨hnew.self, .answered sdp rfl ?_ ?_ ?_⟩
      · change p < a.selfId
        rw [← (wire_eq hwire).2.2]
        exact lt_of_le_of_ne (Nat.le_of_not_lt hlt) hstop.2
      · rcases hspec with rfl | ⟨epoch, rfl⟩ <;> simp [hsaid, offersUp, upTo, offerOf]
      · rcases hspec with rfl | ⟨epoch, rfl⟩
        · exact .inl (by simp [hsaid, answersUp])
        · right
          rw [answersUp, hsaid]
          exact ⟨epoch, by simp [upTo, answerOf, named]⟩
    · exact turn_other hsent hnew hp
  | answer sdp =>
    simp only
    split_ifs with htakes
    · have hset := (concerns_modifyPeer b q (Peer.flushCandidates ∘ Peer.setSignaling .stable)).congr
        hwire
      by_cases hp : p = q
      · subst hp
        have hsaid := hset.sent.trans (List.append_nil _)
        refine ⟨hset.self, .settled sdp rfl ?_ (by simp [hsaid, hsent, offersUp])
          (by simp [hsaid, hsent, answersUp])⟩
        simp only [status, if_true, linkTo_modifyPeer]
        unfold Actor.takesAnswer at htakes
        cases hpeer : b.peers p with
        | none => simp [hpeer] at htakes
        | some peer => rfl
      · exact turn_other hsent hset hp
    · exact turn_wire hsent hwire
  | ice candidate =>
    cases candidate with
    | none => exact turn_wire hsent hwire
    | some candidate =>
      simp only
      split_ifs
      · have hkeeps := wire_modifyPeer b q (f := Peer.addCandidate candidate) fun _ => rfl
        exact turn_wire hsent (hkeeps.trans hwire)
      · exact turn_wire hsent hwire
  | unknown => exact turn_wire hsent hwire

theorem turn_error (hsent : a.sent = []) (code message : String) (hwire : wire b = wire a) :
    Turn c rtc p input ⟨a, true⟩ ⟨b.handleError code message, true⟩ := by
  obtain ⟨-, hsaid, hself⟩ := wire_eq hwire
  rw [hsent] at hsaid
  unfold Actor.handleError
  simp only
  by_cases hover : isGameOverCode code = true
  · rw [if_pos (isFatalCode_of_gameOver hover), if_pos hover]
    have hgone : ∀ d : Actor Desc, (∀ p, linkTo d p = none) → d.sent = [] →
        d.selfId = a.selfId →
        Turn c rtc p input ⟨a, true⟩ ⟨d.emit (.signalingClosed code message), true⟩ := by
      intro d hlinks hsent hself
      obtain ⟨hlinks', hsent', hself'⟩ := wire_eq (wire_emit d (.signalingClosed code message))
      refine ⟨hself'.trans hself, .gone ?_ ?_ ?_⟩
      · exact congrArg (linkStatus c) ((hlinks' p).trans (hlinks p))
      · exact congrArg (offersUp p) (hsent'.trans hsent)
      · exact congrArg (answersUp p) (hsent'.trans hsent)
    split_ifs
    · unfold Actor.clearStore
      split <;> exact hgone _ (fun _ => rfl) hsaid hself
    · exact hgone _ (fun _ => rfl) hsaid hself
  · split_ifs
    · exact turn_wire hsent ((wire_emit _ _).trans hwire)
    · exact turn_wire hsent ((wire_emit _ _).trans hwire)

theorem turn_message (hsent : a.sent = []) (msg : ServerMessage Desc) :
    Turn c rtc p (.internal (.ws msg)) ⟨a, true⟩
      ⟨a.handleServerMessage (named rtc c) msg, true⟩ := by
  have hreset : ∀ (b : Actor Desc) (q : PlayerId), wire b = wire a → noticeOf msg = some q →
      Turn c rtc p (.internal (.ws msg)) ⟨a, true⟩ ⟨b.resetPeer (named rtc c) q, true⟩ := by
    intro b q hwire hnotice
    obtain ⟨new, hnew, hspec⟩ := concerns_resetPeer (named rtc c) b q
    exact turn_renewed hsent (hnew.congr hwire) hspec fun hp => hp ▸ hnotice
  unfold Actor.handleServerMessage
  cases msg with
  | playerJoined q players => exact hreset _ q (wire_emit _ _) rfl
  | playerRejoined q wasReplacement => exact hreset _ q (wire_emit _ _) rfl
  | playerReplaced q => exact hreset _ q (wire_emit _ _) rfl
  | playerLeft q reason =>
    simp only
    split_ifs
    · generalize hb : ({ a with roster := _ } : Actor Desc) = b
      have hwire : wire b = wire a := by rw [← hb]; rfl
      obtain ⟨hlinks, hsaid, hself⟩ :=
        wire_eq (wire_emit (b.closePeer q) (.playerLeft q (.fromWire reason)))
      have hclose := (concerns_closePeer b q).congr hwire
      have hquiet : Concerns q a ((b.closePeer q).emit (.playerLeft q (.fromWire reason))) [] :=
        .quiet (fun r hr => (hlinks r).trans (hclose.links r hr))
          (hsaid.trans (hclose.sent.trans (List.append_nil _))) (hself.trans hclose.self)
      by_cases hp : p = q
      · subst hp
        have hsaid := hsaid.trans (hclose.sent.trans ((List.append_nil _).trans hsent))
        refine ⟨hquiet.self, .gone ?_ (congrArg (offersUp p) hsaid) (congrArg (answersUp p) hsaid)⟩
        exact congrArg (linkStatus c) ((hlinks p).trans (by rw [linkTo_closePeer, if_pos rfl]))
      · exact turn_other hsent hquiet hp
    · exact turn_wire hsent (wire_emit _ _)
  | roomStarted => exact turn_wire hsent (wire_emit _ _)
  | signal q payload => exact turn_signal hsent payload rfl
  | error code message => exact turn_error hsent code message rfl
  | joined | unknown => exact turn_wire hsent rfl

/-- What one input does to a negotiation. -/
theorem take_turn (c : Conn) (rtc : Rtc Desc) (p : PlayerId) (input : Input Desc) {g : Game Desc}
    (hrun : g.running = true) (hsent : g.actor.sent = []) :
    Turn c rtc p input g (g.take (named rtc c) input) := by
  obtain ⟨a, running⟩ := g
  obtain rfl : running = true := hrun
  have hsent : a.sent = [] := hsent
  have hstop : Turn c rtc p input ⟨a, true⟩ ⟨a.shutdown, false⟩ := by
    have hsaid : a.shutdown.sent = [.leave] ∧ a.shutdown.selfId = a.selfId := by
      unfold Actor.shutdown Actor.clearStore Actor.teardownPeers
      simp only [hsent, List.nil_append]
      split <;> exact ⟨rfl, rfl⟩
    exact ⟨hsaid.2, .gone rfl (by simp [hsaid.1, offersUp, upTo])
      (by simp [hsaid.1, answersUp, upTo])⟩
  cases input with
  | cmd cmd =>
    cases cmd with
    | close => exact hstop
    | sendReliable | sendBestEffort | broadcastBestEffort =>
      exact turn_wire hsent (wire_handleCmd _ a _)
  | cmdsEnded => exact hstop
  | internal input =>
    cases input with
    | ws msg => exact turn_message hsent msg
    | wsClosed | reliable | bestEffort | pair =>
      exact turn_wire hsent (wire_silent (silent_handleInternal (named rtc c) a rfl))
    | ice q epoch candidate =>
      change Turn c rtc p _ ⟨a, true⟩ ⟨a.handleInternal _ (.ice q epoch candidate), true⟩
      unfold Actor.handleInternal
      simp only
      split_ifs
      · unfold Actor.sendSignal
        split_ifs
        · exact turn_wire hsent rfl
        · refine ⟨rfl, .kept rfl ?_ ?_⟩
          · simp [hsent, offersUp, upTo, offerOf]
          · simp [hsent, answersUp, upTo, answerOf]
      · exact turn_wire hsent rfl
    | state q epoch state => exact turn_wire hsent (wire_handlePeerState a q epoch state)
    | rebuild q epoch =>
      change Turn c rtc p _ ⟨a, true⟩ ⟨a.handleInternal _ (.rebuild q epoch), true⟩
      unfold Actor.handleInternal
      simp only
      split_ifs with h
      · obtain ⟨new, hnew, hspec⟩ := concerns_initiatePeer (named rtc c) a q
        exact turn_renewed hsent hnew hspec fun hp => ⟨hp.symm, hp ▸ h⟩
      · exact turn_wire hsent rfl

theorem initiate_all (targets : List PlayerId) (hnodup : targets.Nodup) (a : Actor Desc)
    (hnew : p ∈ targets → offersUp p a.sent = [])
    (hoffers : Single (linkStatus c (linkTo a p)) (offersUp p a.sent))
    (hanswers : answersUp p a.sent = []) :
    let b := targets.foldl (fun a q => a.initiatePeer (named rtc c) q) a
    b.selfId = a.selfId ∧ Single (linkStatus c (linkTo b p)) (offersUp p b.sent) ∧
      answersUp p b.sent = [] := by
  induction targets generalizing a with
  | nil => exact ⟨rfl, hoffers, hanswers⟩
  | cons q rest ih =>
    obtain ⟨new, hconcerns, hspec⟩ := concerns_initiatePeer (named rtc c) a q
    obtain ⟨hq, hrest⟩ := List.nodup_cons.1 hnodup
    have hoffered : offersUp p (a.initiatePeer (named rtc c) q).sent =
        offersUp p a.sent ++ offersUp p new := by
      rw [hconcerns.sent]
      exact List.filterMap_append
    have hanswered : answersUp p (a.initiatePeer (named rtc c) q).sent =
        answersUp p a.sent ++ answersUp p new := by
      rw [hconcerns.sent]
      exact List.filterMap_append
    have hstep := ih hrest (a.initiatePeer (named rtc c) q) ?_ ?_ ?_
    · exact ⟨hstep.1.trans hconcerns.self, hstep.2⟩
    · intro hp
      have hne : p ≠ q := fun h => hq (h ▸ hp)
      rw [hoffered, hnew (List.mem_cons_of_mem _ hp)]
      exact upTo_other hconcerns.targets hne
    · rw [hoffered]
      by_cases hp : p = q
      · subst hp
        rw [hnew List.mem_cons_self, List.nil_append]
        rcases hspec with rfl | ⟨link, hlink, hwaits, rfl⟩
        · exact .inl rfl
        · refine .inr ⟨⟨c, link.epoch⟩, by simp [offersUp, upTo, offerOf, named, Desc.link], .inl ?_⟩
          simp only [hlink, linkStatus, hwaits, if_true]
      · have hnone : offersUp p new = [] := upTo_other hconcerns.targets hp
        rwa [hnone, List.append_nil, hconcerns.links p hp]
    · rw [hanswered, hanswers, List.nil_append]
      rcases hspec with rfl | ⟨link, -, -, rfl⟩
      · rfl
      · simp [answersUp, upTo, answerOf]

theorem start_turn (c : Conn) (rtc : Rtc Desc) (p : PlayerId) (joined : JoinedMsg) :
    let g := Game.start (named rtc c) none joined
    g.actor.selfId = joined.selfId ∧ Single (status c g p) (offersUp p g.actor.sent) ∧
      answersUp p g.actor.sent = [] := by
  refine initiate_all _ ?_ (Actor.new none joined) (fun _ => rfl) (.inl rfl) rfl
  refine List.Nodup.sublist (List.filter_sublist.map _) ?_
  change ((rosterFromSnapshot joined.maxPlayers joined.players).map (·.id)).Nodup
  rw [ids_rosterFromSnapshot]
  exact List.nodup_range

end Lobbylink.System.Negotiation
