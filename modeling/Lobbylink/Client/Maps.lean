import Lobbylink.Client.Watches
import Lobbylink.Client.Links
import Lobbylink.Client.Silence

/-! The maps of the client's actor agree: a link is open as long as it is in its player's
place, each watch shows the link in that place, and the task behind a send queue waits on
that watch. -/
namespace Lobbylink.Client.Maps
open Protocol Roster Framing Silence Watches Lib.Runs Lib.Watch
open Native hiding Actor Game

variable {Sdp : Type}

/-- All that the watches, the queues and the mirror depend on. -/
structure View where
  link : PlayerId → Option Nat
  links : Nat → Option LinkHandle
  epochCounter : Nat
  linkWatch : PlayerId → Option (Option Nat)
  sendQueues : PlayerId → Option (List Bytes)
  roster : List PlayerInfo
  maxPlayers : Nat

def view (a : Native.Actor Sdp) : View :=
  ⟨linkOf a, a.links, a.epochCounter, a.linkWatch, a.sendQueues, a.roster, a.maxPlayers⟩

@[simp] theorem view_emit (a : Native.Actor Sdp) (event : Event) :
    view (a.emit event) = view a := by
  unfold Native.Actor.emit
  split_ifs <;> rfl

@[simp] theorem view_clearStore (a : Native.Actor Sdp) : view a.clearStore = view a := by
  unfold Native.Actor.clearStore
  cases a.storagePath <;> rfl

@[simp] theorem view_sendSignal (a : Native.Actor Sdp) (p : PlayerId)
    (payload : SignalPayload Sdp) : view (a.sendSignal p payload) = view a := by
  unfold Native.Actor.sendSignal
  split_ifs <;> rfl

theorem view_modifyPeer (a : Native.Actor Sdp) (p : PlayerId) {f : Peer → Peer}
    (hf : ∀ peer, (f peer).link.epoch = peer.link.epoch) : view (a.modifyPeer p f) = view a := by
  have hlink : linkOf (a.modifyPeer p f) = linkOf a := by
    funext q
    unfold linkOf Native.Actor.modifyPeer
    by_cases hq : q = p
    · subst hq
      simp only [Function.update_self, Option.map_map]
      exact congrArg (fun g => (a.peers q).map g) (funext hf)
    · simp only [Function.update_of_ne hq]
  unfold view
  rw [hlink]
  rfl

theorem view_initiatePeer (rtc : Rtc Sdp) (a : Native.Actor Sdp) (p : PlayerId)
    (hclosed : a.closed = false) :
    view (a.initiatePeer rtc p) = view (a.createLink rtc p true) := by
  have hset : view ((a.createLink rtc p true).modifyPeer p (Peer.setSignaling .haveLocalOffer)) =
      view (a.createLink rtc p true) := view_modifyPeer _ p fun _ => rfl
  unfold Native.Actor.initiatePeer
  rw [if_neg (by simp [hclosed])]
  simp only
  split_ifs
  · rfl
  · rw [view_sendSignal, hset]
  · exact hset

theorem view_answerOffer (rtc : Rtc Sdp) (a : Native.Actor Sdp) (source : PlayerId) (sdp : Sdp) :
    view (a.answerOffer rtc source sdp) = view (a.createLink rtc source false) := by
  have hread : view ((a.createLink rtc source false).modifyPeer source
      (Peer.flushCandidates ∘ Peer.setSignaling .haveRemoteOffer)) =
      view (a.createLink rtc source false) := view_modifyPeer _ source fun _ => rfl
  have hset : ∀ b : Native.Actor Sdp,
      view (b.modifyPeer source (Peer.setSignaling .stable)) = view b :=
    fun b => view_modifyPeer b source fun _ => rfl
  unfold Native.Actor.answerOffer
  simp only
  split_ifs
  · rfl
  · exact hread
  · rw [view_sendSignal, hset, hread]
  · rw [hset, hread]

theorem view_handleSignal (rtc : Rtc Sdp) (a : Native.Actor Sdp) (source : PlayerId)
    {payload : SignalPayload Sdp} (h : ∀ sdp, payload ≠ .offer sdp) :
    view (a.handleSignal rtc source payload) = view a := by
  unfold Native.Actor.handleSignal
  split
  · rfl
  cases payload with
  | offer sdp => exact absurd rfl (h sdp)
  | answer sdp =>
    simp only
    split_ifs
    · exact view_modifyPeer a source fun _ => rfl
    · rfl
  | ice candidate =>
    cases candidate with
    | none => rfl
    | some candidate =>
      simp only
      split_ifs
      · exact view_modifyPeer a source fun _ => rfl
      · rfl
  | unknown => rfl

theorem view_handleError (a : Native.Actor Sdp) (code message : String) :
    view (a.handleError code message) =
      if isFatalCode code && isGameOverCode code then view a.teardownPeers else view a := by
  unfold Native.Actor.handleError
  simp only
  by_cases hfatal : isFatalCode code
  · by_cases hover : isGameOverCode code
    · simp only [hfatal, hover, Bool.and_self, if_true, view_emit]
      split_ifs
      · exact view_clearStore _
      · rfl
    · simp only [hfatal, hover, Bool.and_false, if_true, view_emit]
      rfl
  · simp only [hfatal, Bool.false_and, Bool.false_eq_true, if_false, view_emit]

theorem view_shutdown (a : Native.Actor Sdp) : view a.shutdown = view a.teardownPeers := by
  unfold Native.Actor.shutdown
  rw [view_clearStore]
  rfl

theorem view_silent {a b : Native.Actor Sdp} (h : Silent a b) : view b = view a :=
  h.same view view_emit (fun a p _ => view_modifyPeer a p fun _ => rfl) fun _ _ _ => rfl

theorem view_handlePeerState (a : Native.Actor Sdp) (p : PlayerId) (epoch : Nat)
    (state : PeerState) : view (a.handlePeerState p epoch state) = view a := by
  obtain ⟨b, counts, timers, hsilent, heq⟩ := silent_handlePeerState a p epoch state
  have hview : view b = view a := view_silent hsilent
  rw [heq]
  exact hview

/-- Open links are the ones in their player's place, and none is still to come. -/
structure Placed (a : Native.Actor Sdp) : Prop where
  opened : ∀ p e, a.links e = some ⟨p, false⟩ ↔ linkOf a p = some e
  made : ∀ e, a.links e ≠ none → e ≤ a.epochCounter

/-- Links stay those of their player, and closed ones stay closed. -/
def Extends (a b : Native.Actor Sdp) : Prop :=
  ∀ e p closed, a.links e = some ⟨p, closed⟩ →
    ∃ closed', b.links e = some ⟨p, closed'⟩ ∧ (closed = true → closed' = true)

variable {n m : Native.Actor Sdp}

theorem Placed.congr (h : Placed n) (hview : view m = view n) : Placed m := by
  simp only [view, View.mk.injEq] at hview
  obtain ⟨hlink, hlinks, hcounter, -⟩ := hview
  constructor
  · rw [hlink, hlinks]
    exact h.opened
  · rw [hlinks, hcounter]
    exact h.made

theorem Placed.apart (h : Placed n) {p q : PlayerId} {e : Nat} (hp : linkOf n p = some e)
    (hq : linkOf n q = some e) : p = q := by
  have heq := ((h.opened p e).2 hp).symm.trans ((h.opened q e).2 hq)
  simpa using heq

theorem extends_refl (a : Native.Actor Sdp) : Extends a a := fun _ _ closed h => ⟨closed, h, id⟩

theorem linkOf_eq_some {a : Native.Actor Sdp} {p : PlayerId} {peer : Peer}
    (h : a.peers p = some peer) : linkOf a p = some peer.link.epoch := by
  rw [linkOf, h, Option.map_some]

theorem linkOf_closePeer (a : Native.Actor Sdp) (p : PlayerId) :
    linkOf (a.closePeer p) = Function.update (linkOf a) p none := by
  funext q
  unfold Native.Actor.closePeer
  cases hp : a.peers p with
  | none =>
    by_cases hq : q = p
    · rw [hq, Function.update_self, linkOf, hp, Option.map_none]
    · rw [Function.update_of_ne hq]
  | some peer =>
    by_cases hq : q = p
    · simp only [linkOf, hq, Function.update_self, Option.map_none]
    · simp only [linkOf, Function.update_of_ne hq]

theorem placed_closePeer (h : Placed n) (p : PlayerId) : Placed (n.closePeer p) := by
  have hlink := linkOf_closePeer n p
  unfold Native.Actor.closePeer at hlink ⊢
  cases hp : n.peers p with
  | none => exact h
  | some peer =>
    have hcur := linkOf_eq_some hp
    have hopen := (h.opened p peer.link.epoch).2 hcur
    simp only [hp] at hlink ⊢
    refine ⟨fun q e => ?_, fun e he => ?_⟩
    · rw [hlink]
      by_cases he : e = peer.link.epoch
      · subst he
        simp only [Function.update_self, hopen, Option.map_some, LinkHandle.close]
        by_cases hq : q = p
        · simp [hq]
        · rw [Function.update_of_ne hq]
          constructor
          · intro heq
            simp at heq
          · exact fun hq' => absurd (h.apart hq' hcur) hq
      · simp only [Function.update_of_ne he]
        by_cases hq : q = p
        · subst hq
          rw [Function.update_self, h.opened, hcur]
          simp [Ne.symm he]
        · rw [Function.update_of_ne hq]
          exact h.opened q e
    · by_cases hep : e = peer.link.epoch
      · exact h.made e (by rw [hep, hopen]; simp)
      · simp only [Function.update_of_ne hep] at he
        exact h.made e he

theorem extends_closePeer (a : Native.Actor Sdp) (p : PlayerId) : Extends a (a.closePeer p) := by
  intro e q closed he
  unfold Native.Actor.closePeer
  cases a.peers p with
  | none => exact ⟨closed, he, id⟩
  | some peer =>
    by_cases hep : e = peer.link.epoch
    · subst hep
      exact ⟨true, by simp [he, LinkHandle.close], fun _ => rfl⟩
    · exact ⟨closed, by simp only [Function.update_of_ne hep, he], id⟩

theorem extends_teardownPeers (a : Native.Actor Sdp) : Extends a a.teardownPeers := by
  intro e q closed he
  unfold Native.Actor.teardownPeers
  simp only [he, Option.map_some]
  split_ifs
  · exact ⟨true, rfl, fun _ => rfl⟩
  · exact ⟨closed, rfl, id⟩

theorem placed_teardownPeers (h : Placed n) : Placed n.teardownPeers := by
  constructor
  · intro p e
    have hnone : linkOf n.teardownPeers p = none := rfl
    rw [hnone]
    constructor
    · intro he
      simp only [Native.Actor.teardownPeers, Option.map_eq_some_iff] at he
      obtain ⟨⟨q, closed⟩, hq, heq⟩ := he
      split_ifs at heq with hholds
      · simp [LinkHandle.close] at heq
      · cases heq
        have hcur := (h.opened p e).1 hq
        unfold linkOf at hcur
        obtain ⟨peer, hpeer, hepoch⟩ := Option.map_eq_some_iff.1 hcur
        exact absurd (Links.holds_iff.2 ⟨peer, hpeer, hepoch⟩) hholds
    · intro he
      cases he
  · intro e he
    refine h.made e fun hnone => he ?_
    simp only [Native.Actor.teardownPeers, hnone, Option.map_none]

theorem createLink_fails {rtc : Rtc Sdp} {p : PlayerId} (h : rtc.creates p = false)
    (a : Native.Actor Sdp) (initiator : Bool) :
    view (a.createLink rtc p initiator) =
      { view (a.closePeer p) with epochCounter := a.epochCounter + 1 } := by
  unfold Native.Actor.createLink
  simp only [h, Links.epochCounter_closePeer]
  rfl

theorem createLink_makes {rtc : Rtc Sdp} {p : PlayerId} (h : rtc.creates p = true)
    (a : Native.Actor Sdp) (initiator : Bool) :
    let epoch := a.epochCounter + 1
    view (a.createLink rtc p initiator) = { view (a.closePeer p) with
      link := Function.update (linkOf (a.closePeer p)) p (some epoch)
      links := Function.update (a.closePeer p).links epoch (some ⟨p, false⟩)
      epochCounter := epoch
      linkWatch := Function.update (a.closePeer p).linkWatch p (some (some epoch)) } := by
  unfold Native.Actor.createLink
  simp only [h, if_true, Links.epochCounter_closePeer, view, View.mk.injEq, and_true]
  funext q
  by_cases hq : q = p
  · simp only [linkOf, hq, Function.update_self, Option.map_some]
  · simp only [linkOf, Function.update_of_ne hq]

theorem Placed.insert (h : Placed n) {p : PlayerId} (hgone : linkOf n p = none)
    (hlink : linkOf m = Function.update (linkOf n) p (some (n.epochCounter + 1)))
    (hlinks : m.links = Function.update n.links (n.epochCounter + 1) (some ⟨p, false⟩))
    (hepoch : m.epochCounter = n.epochCounter + 1) : Placed m ∧ Extends n m := by
  have hnew : n.links (n.epochCounter + 1) = none := by
    by_contra hold
    have := h.made _ hold
    omega
  refine ⟨⟨fun q e => ?_, fun e he => ?_⟩, fun e q closed he => ?_⟩
  · rw [hlink, hlinks]
    by_cases he : e = n.epochCounter + 1
    · subst he
      by_cases hq : q = p
      · simp [hq]
      · rw [Function.update_self, Function.update_of_ne hq, ← h.opened, hnew]
        simp [Ne.symm hq]
    · rw [Function.update_of_ne he]
      by_cases hq : q = p
      · rw [hq, h.opened, hgone, Function.update_self]
        simp [Ne.symm he]
      · rw [Function.update_of_ne hq]
        exact h.opened q e
  · rw [hepoch]
    by_cases hep : e = n.epochCounter + 1
    · exact Nat.le_of_eq hep
    · rw [hlinks, Function.update_of_ne hep] at he
      exact Nat.le_succ_of_le (h.made e he)
  · have hep : e ≠ n.epochCounter + 1 := by
      rintro rfl
      rw [hnew] at he
      cases he
    exact ⟨closed, by rw [hlinks, Function.update_of_ne hep, he], id⟩

theorem placed_createLink (rtc : Rtc Sdp) (h : Placed n) (p : PlayerId) (initiator : Bool) :
    Placed (n.createLink rtc p initiator) ∧
      Extends (n.closePeer p) (n.createLink rtc p initiator) := by
  have hclosed := placed_closePeer h p
  have hcounter := Links.epochCounter_closePeer n p
  have hgone : linkOf (n.closePeer p) p = none := by rw [linkOf_closePeer, Function.update_self]
  cases hcreates : rtc.creates p with
  | false =>
    have hview := createLink_fails hcreates n initiator
    simp only [view, View.mk.injEq] at hview
    obtain ⟨hlink, hlinks, hepoch, -⟩ := hview
    refine ⟨⟨?_, fun e he => ?_⟩, fun e q closed he => ⟨closed, by rw [hlinks, he], id⟩⟩
    · rw [hlink, hlinks]
      exact hclosed.opened
    · rw [hlinks] at he
      rw [hepoch, ← hcounter]
      exact Nat.le_succ_of_le (hclosed.made e he)
  | true =>
    have hview := createLink_makes hcreates n initiator
    simp only [view, View.mk.injEq] at hview
    obtain ⟨hlink, hlinks, hepoch, -⟩ := hview
    rw [← hcounter] at hlink hlinks hepoch
    exact hclosed.insert hgone hlink hlinks hepoch

variable {a b c : Watches.Actor Sdp}

/-- Each watch shows what `current` says. -/
def Watched (a : Watches.Actor Sdp) (current : PlayerId → Option Nat) : Prop :=
  ∀ p c, a.linkWatch p = some c →
    ∃ channel, (a.channels p)[c]? = some channel ∧ channel.value = current p

/-- All that a player's watches have shown are links to that player. -/
def Recorded (a : Watches.Actor Sdp) (n : Native.Actor Sdp) : Prop :=
  ∀ p, ∀ channel ∈ a.channels p, ∀ e, some e ∈ channel.history →
    ∃ closed, n.links e = some ⟨p, closed⟩

@[simp] theorem linkWatch_sendReplace (a : Watches.Actor Sdp) (p : PlayerId) (link : Option Nat) :
    (a.sendReplace p link).linkWatch = a.linkWatch := by
  unfold Watches.Actor.sendReplace
  cases a.linkWatch p <;> rfl

@[simp] theorem sendQueues_sendReplace (a : Watches.Actor Sdp) (p : PlayerId)
    (link : Option Nat) : (a.sendReplace p link).sendQueues = a.sendQueues := by
  unfold Watches.Actor.sendReplace
  cases a.linkWatch p <;> rfl

@[simp] theorem sharedRoster_sendReplace (a : Watches.Actor Sdp) (p : PlayerId)
    (link : Option Nat) : (a.sendReplace p link).sharedRoster = a.sharedRoster := by
  unfold Watches.Actor.sendReplace
  cases a.linkWatch p <;> rfl

theorem Watched.sendReplace {current : PlayerId → Option Nat} (h : Watched a current)
    (p : PlayerId) (link : Option Nat) :
    Watched (a.sendReplace p link) (Function.update current p link) := by
  intro q c hq
  rw [linkWatch_sendReplace] at hq
  unfold Watches.Actor.sendReplace
  by_cases hqp : q = p
  · subst hqp
    obtain ⟨channel, hchannel, -⟩ := h q c hq
    exact ⟨channel.sendReplace link, by simp [hq, hchannel], by simp⟩
  · rw [Function.update_of_ne hqp]
    cases a.linkWatch p with
    | none => exact h q c hq
    | some d =>
      simp only [Function.update_of_ne hqp]
      exact h q c hq

theorem Watched.insertWatch {current : PlayerId → Option Nat} (h : Watched a current)
    (p : PlayerId) (link : Option Nat) :
    Watched (a.insertWatch p link) (Function.update current p link) := by
  intro q c hq
  unfold Watches.Actor.insertWatch at hq ⊢
  by_cases hqp : q = p
  · subst hqp
    simp only [Function.update_self, Option.some.injEq] at hq ⊢
    subst hq
    exact ⟨.new link, List.getElem?_concat_length .., rfl⟩
  · simp only [Function.update_of_ne hqp] at hq ⊢
    exact h q c hq

theorem Recorded.extends (h : Recorded a n) (hext : Extends n m) : Recorded a m := by
  intro p channel hchannel e he
  obtain ⟨closed, hlink⟩ := h p channel hchannel e he
  obtain ⟨closed', hlink', -⟩ := hext e p closed hlink
  exact ⟨closed', hlink'⟩

theorem Recorded.sendReplace (h : Recorded a n) {p : PlayerId} {link : Option Nat}
    (hlink : ∀ e, link = some e → ∃ closed, n.links e = some ⟨p, closed⟩) :
    Recorded (a.sendReplace p link) n := by
  unfold Watches.Actor.sendReplace
  cases a.linkWatch p with
  | none => exact h
  | some c =>
    intro q channel hchannel e he
    by_cases hqp : q = p
    · subst hqp
      simp only [Function.update_self] at hchannel
      obtain ⟨i, hi⟩ := List.mem_iff_getElem?.1 hchannel
      rw [List.getElem?_modify] at hi
      obtain ⟨old, hold, rfl⟩ := Option.map_eq_some_iff.1 hi
      have hmem := List.mem_of_getElem? hold
      split_ifs at he
      · rw [history_sendReplace, List.mem_append, List.mem_singleton] at he
        rcases he with he | he
        · exact h q old hmem e he
        · exact hlink e he.symm
      · exact h q old hmem e he
    · simp only [Function.update_of_ne hqp] at hchannel
      exact h q channel hchannel e he

theorem Recorded.insertWatch (h : Recorded a n) {p : PlayerId} {link : Option Nat}
    (hlink : ∀ e, link = some e → ∃ closed, n.links e = some ⟨p, closed⟩) :
    Recorded (a.insertWatch p link) n := by
  intro q channel hchannel e he
  unfold Watches.Actor.insertWatch at hchannel
  by_cases hqp : q = p
  · subst hqp
    simp only [Function.update_self, List.mem_append, List.mem_singleton] at hchannel
    rcases hchannel with hchannel | rfl
    · exact h q channel hchannel e he
    · rw [history_new, List.mem_singleton] at he
      exact hlink e he.symm
  · simp only [Function.update_of_ne hqp] at hchannel
    exact h q channel hchannel e he

theorem grows_sendReplace (a : Watches.Actor Sdp) (p : PlayerId) (link : Option Nat)
    (q : PlayerId) : Grows (a.channels q) ((a.sendReplace p link).channels q) := by
  unfold Watches.Actor.sendReplace
  cases a.linkWatch p with
  | none => exact grows_refl _
  | some c =>
    by_cases hqp : q = p
    · simp only [hqp, Function.update_self]
      exact grows_modify _ c link
    · simp only [Function.update_of_ne hqp]
      exact grows_refl _

theorem grows_insertWatch (a : Watches.Actor Sdp) (p : PlayerId) (link : Option Nat)
    (q : PlayerId) : Grows (a.channels q) ((a.insertWatch p link).channels q) := by
  unfold Watches.Actor.insertWatch
  by_cases hqp : q = p
  · simp only [hqp, Function.update_self]
    exact grows_append _ _
  · simp only [Function.update_of_ne hqp]
    exact grows_refl _

/-- What holds of the maps between operations. The coarser maps of the actor below are
read off these. -/
structure Agree (a : Watches.Actor Sdp) : Prop where
  placed : Placed a.native
  watched : Watched a (linkOf a.native)
  recorded : Recorded a a.native
  queued : ∀ p queue, a.sendQueues p = some queue → a.linkWatch p = some queue.channel
  watches : ∀ p, a.native.linkWatch p = (a.linkWatch p).map fun _ => linkOf a.native p
  queues : ∀ p, a.native.sendQueues p = (a.sendQueues p).map (·.jobs)

/-- What operations leave of the state before: channels and links go on, a sender task
stays where it is or is new, and the roster is left to `handle_server_message`. -/
structure Advances (a b : Watches.Actor Sdp) : Prop where
  agree : Agree b
  channels : ∀ p, Grows (a.channels p) (b.channels p)
  links : Extends a.native b.native
  tasks : ∀ p queue, b.sendQueues p = some queue → queue.wait = .idle ∨
    ∃ old, a.sendQueues p = some old ∧ old.channel = queue.channel ∧ old.wait = queue.wait
  roster : b.native.roster = a.native.roster ∧ b.native.maxPlayers = a.native.maxPlayers ∧
    b.sharedRoster = a.sharedRoster

theorem Extends.trans {k : Native.Actor Sdp} (h : Extends n m) (h' : Extends m k) :
    Extends n k := by
  intro e p closed he
  obtain ⟨closed', he', hle⟩ := h e p closed he
  obtain ⟨closed'', he'', hle'⟩ := h' e p closed' he'
  exact ⟨closed'', he'', hle' ∘ hle⟩

theorem Advances.trans (h : Advances a b) (h' : Advances b c) : Advances a c where
  agree := h'.agree
  channels := fun p => (h.channels p).trans (h'.channels p)
  links := h.links.trans h'.links
  tasks := fun p queue hqueue => by
    rcases h'.tasks p queue hqueue with hidle | ⟨old, hold, hchannel, hwait⟩
    · exact .inl hidle
    · rcases h.tasks p old hold with hidle | ⟨older, holder, hchannel', hwait'⟩
      · exact .inl (hwait ▸ hidle)
      · exact .inr ⟨older, holder, hchannel'.trans hchannel, hwait'.trans hwait⟩
  roster := ⟨h'.roster.1.trans h.roster.1, h'.roster.2.1.trans h.roster.2.1,
    h'.roster.2.2.trans h.roster.2.2⟩

/-- The fields that the maps do not depend on may change. -/
theorem Agree.advances (h : Agree a) (hplaced : Placed m) (hext : Extends a.native m)
    (hlink : linkOf m = linkOf a.native) (hwatch : m.linkWatch = a.native.linkWatch)
    (hqueues : m.sendQueues = a.native.sendQueues)
    (hroster : m.roster = a.native.roster ∧ m.maxPlayers = a.native.maxPlayers) :
    Advances a { a with native := m } := by
  refine ⟨⟨hplaced, ?_, h.recorded.extends hext, h.queued, fun p => ?_, fun p => ?_⟩,
    fun p => grows_refl _, hext, fun p queue hqueue => .inr ⟨queue, hqueue, rfl, rfl⟩,
    hroster.1, hroster.2, rfl⟩
  · rw [hlink]
    exact h.watched
  · rw [hwatch, hlink]
    exact h.watches p
  · rw [hqueues]
    exact h.queues p

theorem advances_native (h : Agree a) (hview : view m = view a.native) :
    Advances a { a with native := m } := by
  have hplaced := h.placed.congr hview
  simp only [view, View.mk.injEq] at hview
  obtain ⟨hlink, hlinks, -, hwatch, hqueues, hroster⟩ := hview
  exact h.advances hplaced (fun e p closed he => ⟨closed, by rw [hlinks, he], id⟩) hlink hwatch
    hqueues hroster

theorem Advances.refl (h : Agree a) : Advances a a := advances_native h rfl

/-- What the actor below does when the link to `p` becomes `link`. -/
structure Sets (p : PlayerId) (link : Option Nat) (n m : Native.Actor Sdp) : Prop where
  placed : Placed m
  links : Extends n m
  current : linkOf m = Function.update (linkOf n) p link
  made : ∀ e, link = some e → ∃ closed, m.links e = some ⟨p, closed⟩
  watches : ∀ q, q ≠ p → m.linkWatch q = n.linkWatch q
  queues : m.sendQueues = n.sendQueues
  roster : m.roster = n.roster ∧ m.maxPlayers = n.maxPlayers

theorem Sets.advances_sendReplace {p : PlayerId} {link : Option Nat} (h : Agree a)
    (hsets : Sets p link a.native m)
    (hwatch : m.linkWatch p = (a.linkWatch p).map fun _ => link) :
    Advances a { a.sendReplace p link with native := m } := by
  have hrecorded : Recorded a m := h.recorded.extends hsets.links
  refine ⟨⟨hsets.placed, ?_, hrecorded.sendReplace hsets.made, fun q queue hqueue => ?_,
    fun q => ?_, fun q => ?_⟩, grows_sendReplace a p link, hsets.links, fun q queue hqueue => ?_,
    hsets.roster.1, hsets.roster.2, sharedRoster_sendReplace a p link⟩
  · rw [hsets.current]
    exact h.watched.sendReplace p link
  · simp only [sendQueues_sendReplace, linkWatch_sendReplace] at hqueue ⊢
    exact h.queued q queue hqueue
  · simp only [linkWatch_sendReplace, hsets.current]
    by_cases hqp : q = p
    · simp only [hqp, hwatch, Function.update_self]
    · rw [hsets.watches q hqp, h.watches q, Function.update_of_ne hqp]
  · simp only [sendQueues_sendReplace, hsets.queues]
    exact h.queues q
  · simp only [sendQueues_sendReplace] at hqueue
    exact .inr ⟨queue, hqueue, rfl, rfl⟩

theorem Sets.advances_insertWatch {p : PlayerId} {link : Option Nat} (h : Agree a)
    (hsets : Sets p link a.native m) (hvacant : a.linkWatch p = none)
    (hwatch : m.linkWatch p = some link) :
    Advances a { a.insertWatch p link with native := m } := by
  have hrecorded : Recorded a m := h.recorded.extends hsets.links
  refine ⟨⟨hsets.placed, ?_, hrecorded.insertWatch hsets.made, fun q queue hqueue => ?_,
    fun q => ?_, fun q => ?_⟩, grows_insertWatch a p link, hsets.links,
    fun q queue hqueue => .inr ⟨queue, hqueue, rfl, rfl⟩, hsets.roster.1, hsets.roster.2, rfl⟩
  · rw [hsets.current]
    exact h.watched.insertWatch p link
  · have hold := h.queued q queue hqueue
    have hqp : q ≠ p := by
      rintro rfl
      rw [hvacant] at hold
      cases hold
    simp only [Watches.Actor.insertWatch, Function.update_of_ne hqp, hold]
  · simp only [Watches.Actor.insertWatch, hsets.current]
    by_cases hqp : q = p
    · simp only [hqp, hwatch, Function.update_self, Option.map_some]
    · simp only [hsets.watches q hqp, h.watches q, Function.update_of_ne hqp]
  · rw [hsets.queues]
    exact h.queues q

theorem sets_closePeer {p : PlayerId} (h : Placed n) : Sets p none n (n.closePeer p) := by
  refine ⟨placed_closePeer h p, extends_closePeer n p, linkOf_closePeer n p,
    nofun, fun q hq => ?_, ?_, ?_⟩
  · unfold Native.Actor.closePeer
    cases n.peers p with
    | none => rfl
    | some peer => exact Function.update_of_ne hq _ _
  · unfold Native.Actor.closePeer
    cases n.peers p <;> rfl
  · unfold Native.Actor.closePeer
    cases n.peers p <;> exact ⟨rfl, rfl⟩

theorem advances_closePeer (h : Agree a) (p : PlayerId) : Advances a (a.closePeer p) := by
  have hsets : Sets p none a.native (a.native.closePeer p) := sets_closePeer h.placed
  unfold Watches.Actor.closePeer
  cases hp : a.native.peers p with
  | none => exact .refl h
  | some peer =>
    refine hsets.advances_sendReplace h ?_
    simp only [Native.Actor.closePeer, hp, Function.update_self, h.watches p, Option.map_map]
    rfl

theorem advances_teardownPeers (h : Agree a) : Advances a a.teardownPeers := by
  have hext := extends_teardownPeers a.native
  have hrecorded : ∀ p, Recorded (a.closePeer p) a.native := by
    intro p
    unfold Watches.Actor.closePeer
    cases a.native.peers p with
    | none => exact h.recorded
    | some peer => exact h.recorded.sendReplace nofun
  exact ⟨⟨placed_teardownPeers h.placed, nofun,
    fun p channel hchannel => (hrecorded p).extends hext p channel hchannel, nofun,
    fun _ => rfl, fun _ => rfl⟩, fun p => (advances_closePeer h p).channels p, hext, nofun,
    rfl, rfl, rfl⟩

theorem sendReplace_native (a : Watches.Actor Sdp) (p : PlayerId) (link : Option Nat) :
    ({ a with native := m } : Watches.Actor Sdp).sendReplace p link =
      { a.sendReplace p link with native := m } := by
  unfold Watches.Actor.sendReplace
  cases a.linkWatch p <;> rfl

theorem advances_createLink (rtc : Rtc Sdp) (h : Agree a) (p : PlayerId) (initiator : Bool) :
    Advances a (a.createLink rtc p initiator) := by
  have hclose := advances_closePeer h p
  obtain ⟨hplaced, hext⟩ := placed_createLink rtc h.placed p initiator
  have hnative : (a.closePeer p).native = a.native.closePeer p := native_closePeer a p
  refine hclose.trans ?_
  unfold Watches.Actor.createLink
  cases hcreates : rtc.creates p with
  | false =>
    have hview := createLink_fails hcreates a.native initiator
    generalize a.native.createLink rtc p initiator = m at hview hplaced hext ⊢
    rw [← hnative] at hview hext
    generalize a.closePeer p = b at hclose hview hext ⊢
    simp only [view, View.mk.injEq] at hview
    obtain ⟨hlink, -, -, hwatch, hqueues, hroster⟩ := hview
    exact hclose.agree.advances hplaced hext hlink hwatch hqueues hroster
  | true =>
    have hview := createLink_makes hcreates a.native initiator
    generalize a.native.createLink rtc p initiator = m at hview hplaced hext ⊢
    rw [← hnative] at hview hext
    generalize a.closePeer p = b at hclose hview hext ⊢
    simp only [view, View.mk.injEq] at hview
    obtain ⟨hlink, hlinks, hepoch, hwatch, hqueues, hroster⟩ := hview
    rw [← hepoch] at hlink hlinks hwatch
    have hsets : Sets p (some m.epochCounter) b.native m := by
      refine ⟨hplaced, hext, hlink, fun e he => ?_, fun q hq => ?_, hqueues, hroster⟩
      · cases he
        exact ⟨false, by rw [hlinks, Function.update_self]⟩
      · rw [hwatch, Function.update_of_ne hq]
    have hnow : m.linkWatch p = some (some m.epochCounter) := by
      rw [hwatch, Function.update_self]
    simp only [if_true]
    cases hb : b.linkWatch p with
    | none => exact hsets.advances_insertWatch hclose.agree hb hnow
    | some c =>
      simp only
      rw [sendReplace_native]
      exact hsets.advances_sendReplace hclose.agree (by rw [hnow, hb, Option.map_some])

theorem advances_initiatePeer (rtc : Rtc Sdp) (h : Agree a) (p : PlayerId) :
    Advances a (a.initiatePeer rtc p) := by
  unfold Watches.Actor.initiatePeer
  split_ifs with hclosed
  · exact .refl h
  · have hlink := advances_createLink rtc h p true
    refine hlink.trans (advances_native hlink.agree ?_)
    rw [native_createLink]
    exact view_initiatePeer rtc a.native p (by simpa using hclosed)

theorem advances_resetPeer (rtc : Rtc Sdp) (h : Agree a) (p : PlayerId) :
    Advances a (a.resetPeer rtc p) := by
  unfold Watches.Actor.resetPeer
  split_ifs
  · exact .refl h
  have hclose := advances_closePeer h p
  have hcount : Advances (a.closePeer p) { a.closePeer p with
      native := { (a.closePeer p).native with
        rebuildCounts := Function.update (a.closePeer p).native.rebuildCounts p none } } :=
    advances_native hclose.agree rfl
  have hboth := hclose.trans hcount
  simp only
  split_ifs
  · exact hboth.trans (advances_initiatePeer rtc hboth.agree p)
  · exact hboth

theorem advances_handleSignal (rtc : Rtc Sdp) (h : Agree a) (source : PlayerId)
    (payload : SignalPayload Sdp) : Advances a (a.handleSignal rtc source payload) := by
  unfold Watches.Actor.handleSignal
  split
  · exact .refl h
  cases payload with
  | offer sdp =>
    simp only
    split_ifs
    · exact .refl h
    · have hlink := advances_createLink rtc h source false
      refine hlink.trans (advances_native hlink.agree ?_)
      rw [native_createLink]
      exact view_answerOffer rtc a.native source sdp
  | answer sdp => exact advances_native h (view_handleSignal rtc a.native source nofun)
  | ice candidate => exact advances_native h (view_handleSignal rtc a.native source nofun)
  | unknown => exact advances_native h (view_handleSignal rtc a.native source nofun)

theorem advances_handleError (h : Agree a) (code message : String) :
    Advances a (a.handleError code message) := by
  have hview := view_handleError a.native code message
  unfold Watches.Actor.handleError
  simp only
  split_ifs at hview ⊢
  · have hdown := advances_teardownPeers h
    exact hdown.trans (advances_native hdown.agree hview)
  · exact advances_native h hview

theorem advances_shutdown (h : Agree a) : Advances a a.shutdown := by
  have hdown := advances_teardownPeers h
  exact hdown.trans (advances_native hdown.agree (view_shutdown a.native))

def watchMade (n : Native.Actor Sdp) (p : PlayerId) : Native.Actor Sdp :=
  let watch := (n.linkWatch p).getD (linkOf n p)
  { n with linkWatch := Function.update n.linkWatch p (some watch) }

theorem advances_subscribe (h : Agree a) (p : PlayerId) :
    Advances a { (a.subscribe p).1 with native := watchMade a.native p } ∧
      (a.subscribe p).1.linkWatch p = some (a.subscribe p).2 ∧
      (a.subscribe p).1.sendQueues = a.sendQueues := by
  unfold Watches.Actor.subscribe
  have hplaced : Placed (watchMade a.native p) := ⟨h.placed.opened, h.placed.made⟩
  have hwatch := h.watches p
  cases hp : a.linkWatch p with
  | some c =>
    simp only [hp, Option.map_some] at hwatch
    refine ⟨h.advances hplaced (extends_refl _) rfl ?_ rfl ⟨rfl, rfl⟩, hp, rfl⟩
    simp only [watchMade, hwatch, Option.getD_some]
    rw [← hwatch, Function.update_eq_self]
  | none =>
    simp only [hp, Option.map_none] at hwatch
    have hsets : Sets p (linkOf a.native p) a.native (watchMade a.native p) :=
      ⟨hplaced, extends_refl _, (Function.update_eq_self p _).symm,
        fun e he => ⟨false, (h.placed.opened p e).2 he⟩,
        fun q hq => Function.update_of_ne hq _ _, rfl, rfl, rfl⟩
    refine ⟨hsets.advances_insertWatch h hp ?_, ?_, rfl⟩
    · simp only [watchMade, hwatch, Function.update_self, Option.getD_none]
    · simp only [Watches.Actor.insertWatch, Function.update_self]

theorem Agree.setQueue (h : Agree a) {p : PlayerId} (queue : SendQueue)
    (hwatch : a.linkWatch p = some queue.channel) {queues : PlayerId → Option (List Bytes)}
    (hqueues : queues = Function.update a.native.sendQueues p (some queue.jobs)) :
    Agree { a with
      native := { a.native with sendQueues := queues }
      sendQueues := Function.update a.sendQueues p (some queue) } := by
  refine ⟨⟨h.placed.opened, h.placed.made⟩, h.watched, h.recorded, fun q other hother => ?_,
    h.watches, fun q => ?_⟩
  · by_cases hqp : q = p
    · simp only [hqp, Function.update_self, Option.some.injEq] at hother ⊢
      rw [← hother]
      exact hwatch
    · simp only [Function.update_of_ne hqp] at hother
      exact h.queued q other hother
  · simp only [hqueues]
    by_cases hqp : q = p
    · simp only [hqp, Function.update_self, Option.map_some]
    · simp only [Function.update_of_ne hqp]
      exact h.queues q

theorem advances_sendReliable (h : Agree a) (target : PlayerId) (data : Bytes) :
    Advances a (a.sendReliable target data) := by
  unfold Watches.Actor.sendReliable
  split_ifs with hclosed
  · exact .refl h
  have hnative : a.native.sendReliable target data = { watchMade a.native target with
      sendQueues := Function.update a.native.sendQueues target
        (some ((a.native.sendQueues target).getD [] ++ [data])) } := by
    unfold Native.Actor.sendReliable
    rw [if_neg hclosed]
    rfl
  obtain ⟨hadv, hwatch, hsame⟩ := advances_subscribe h target
  simp only [hnative]
  generalize a.subscribe target = s at hadv hwatch hsame ⊢
  obtain ⟨b, linkRx⟩ := s
  simp only at hadv hwatch hsame ⊢
  refine hadv.trans ⟨hadv.agree.setQueue _ ?_ ?_, fun _ => grows_refl _, extends_refl _,
    fun q queue hqueue => ?_, rfl, rfl, rfl⟩
  · -- the task of an old queue has this channel already
    cases hold : b.sendQueues target with
    | none => exact hwatch
    | some old => exact hadv.agree.queued target old hold
  · rw [h.queues target, hsame]
    cases a.sendQueues target <;> rfl
  · by_cases hq : q = target
    · simp only [hq, Function.update_self, Option.some.injEq] at hqueue
      subst hqueue hq
      cases hold : b.sendQueues q with
      | none => exact .inl rfl
      | some old => exact .inr ⟨old, rfl, rfl, rfl⟩
    · simp only [Function.update_of_ne hq] at hqueue
      exact .inr ⟨queue, hqueue, rfl, rfl⟩

/-- What a sender task knows: all it sleeps on is gone, and the link it found was made for
its player. -/
def Rests (a : Watches.Actor Sdp) (p : PlayerId) (c : Nat) : Wait → Prop
  | .idle => True
  | .asleep seen => ∃ channel link, (a.channels p)[c]? = some channel ∧
      channel.history[seen]? = some link ∧ ∀ e, link = some e → a.native.links e = some ⟨p, true⟩
  | .found e => ∃ closed, a.native.links e = some ⟨p, closed⟩
  | .closed => False

structure Inv (maxPlayers : Nat) (a : Watches.Actor Sdp) : Prop where
  agree : Agree a
  size : a.native.maxPlayers = maxPlayers
  ids : a.native.roster.map (·.id) = List.range maxPlayers
  mirror : a.sharedRoster = a.native.roster
  tasks : ∀ p queue, a.sendQueues p = some queue → Rests a p queue.channel queue.wait

variable {k : Nat}

theorem Advances.rests (h : Advances a b) {p : PlayerId} {c : Nat} {wait : Wait}
    (hrests : Rests a p c wait) : Rests b p c wait := by
  cases wait with
  | idle => trivial
  | asleep seen =>
    obtain ⟨channel, link, hchannel, hseen, hgone⟩ := hrests
    obtain ⟨later, hlater, hleads⟩ := h.channels p c channel hchannel
    refine ⟨later, link, hlater, hleads.history hseen, fun e he => ?_⟩
    obtain ⟨closed, hlink, hclosed⟩ := h.links e p true (hgone e he)
    rw [hlink, hclosed rfl]
  | found e =>
    obtain ⟨closed, hlink⟩ := hrests
    obtain ⟨closed', hlink', -⟩ := h.links e p closed hlink
    exact ⟨closed', hlink'⟩
  | closed => exact hrests

theorem Inv.advances (h : Inv k a) (hadv : Advances a b) : Inv k b where
  agree := hadv.agree
  size := hadv.roster.2.1.trans h.size
  ids := by
    rw [hadv.roster.1]
    exact h.ids
  mirror := by
    rw [hadv.roster.2.2, h.mirror, hadv.roster.1]
  tasks := fun p queue hqueue => by
    rcases hadv.tasks p queue hqueue with hidle | ⟨old, hold, hchannel, hwait⟩
    · rw [hidle]
      trivial
    · rw [← hchannel, ← hwait]
      exact hadv.rests (h.tasks p old hold)

theorem Inv.updateRoster (h : Inv k a) (msg : ServerMessage Sdp) :
    Inv k (Watches.Actor.syncRoster { a with native := { a.native with
      roster := Roster.updateRoster a.native.maxPlayers a.native.roster msg } }) where
  agree := ⟨⟨h.agree.placed.opened, h.agree.placed.made⟩, h.agree.watched, h.agree.recorded,
    h.agree.queued, h.agree.watches, h.agree.queues⟩
  size := h.size
  ids := by
    have hids := ids_updateRoster k a.native.roster msg h.ids
    rwa [← h.size] at hids ⊢
  mirror := rfl
  tasks := h.tasks

theorem inv_emit (h : Inv k a) (event : Event) : Inv k (a.emit event) :=
  h.advances (advances_native h.agree (view_emit a.native event))

theorem inv_reset (rtc : Rtc Sdp) (h : Inv k a) (event : Event) (p : PlayerId) :
    Inv k ((a.emit event).resetPeer rtc p) := by
  have hemit := inv_emit h event
  exact hemit.advances (advances_resetPeer rtc hemit.agree p)

theorem inv_handleServerMessage (rtc : Rtc Sdp) (h : Inv k a) (msg : ServerMessage Sdp) :
    Inv k (a.handleServerMessage rtc msg) := by
  have hroster := h.updateRoster msg
  unfold Watches.Actor.handleServerMessage
  cases msg with
  | playerJoined p | playerRejoined p | playerReplaced p => exact inv_reset rtc hroster _ p
  | playerLeft p reason =>
    simp only
    split_ifs
    · exact inv_emit (hroster.advances (advances_closePeer hroster.agree p)) _
    · exact inv_emit hroster _
  | roomStarted => exact h.advances (advances_native h.agree (view_emit _ _))
  | signal source payload => exact h.advances (advances_handleSignal rtc h.agree source payload)
  | error code message => exact h.advances (advances_handleError h.agree code message)
  | joined | unknown => exact h

theorem inv_handleInternal (rtc : Rtc Sdp) (h : Inv k a) (input : Internal Sdp) :
    Inv k (a.handleInternal rtc input) := by
  cases input with
  | ws msg => exact inv_handleServerMessage rtc h msg
  | rebuild p epoch =>
    simp only [Watches.Actor.handleInternal]
    split_ifs
    · exact h.advances (advances_initiatePeer rtc h.agree p)
    · exact h
  | ice p epoch candidate =>
    refine h.advances (advances_native h.agree ?_)
    unfold Native.Actor.handleInternal
    simp only
    split_ifs
    · exact view_sendSignal _ _ _
    · rfl
  | state p epoch state =>
    exact h.advances (advances_native h.agree (view_handlePeerState a.native p epoch state))
  | wsClosed | reliable | bestEffort | pair =>
    refine h.advances (advances_native h.agree (view_silent ?_))
    exact silent_handleInternal rtc a.native rfl

theorem inv_handleCmd (rtc : Rtc Sdp) (h : Inv k a) (cmd : Cmd) :
    Inv k (a.handleCmd rtc cmd) := by
  cases cmd with
  | sendReliable target data => exact h.advances (advances_sendReliable h.agree target data)
  | sendBestEffort | broadcastBestEffort | close =>
    refine h.advances (advances_native h.agree (view_silent ?_))
    exact silent_handleCmd rtc a.native rfl

theorem inv_take (rtc : Rtc Sdp) {g : Watches.Game Sdp} (h : Inv k g.actor) (input : Input Sdp) :
    Inv k (g.take rtc input).actor := by
  unfold Watches.Game.take
  split
  · exact h
  cases input with
  | cmdsEnded => exact h.advances (advances_shutdown h.agree)
  | internal input => exact inv_handleInternal rtc h input
  | cmd cmd =>
    cases cmd with
    | close => exact h.advances (advances_shutdown h.agree)
    | sendReliable target data => exact inv_handleCmd rtc h (.sendReliable target data)
    | sendBestEffort target data => exact inv_handleCmd rtc h (.sendBestEffort target data)
    | broadcastBestEffort data => exact inv_handleCmd rtc h (.broadcastBestEffort data)

theorem inv_new (storagePath : Option String) (joined : JoinedMsg) :
    Inv joined.maxPlayers (Watches.Actor.new storagePath joined : Watches.Actor Sdp) where
  agree := ⟨⟨fun _ _ => ⟨nofun, nofun⟩, fun _ he => absurd rfl he⟩, nofun, nofun, nofun,
    fun _ => rfl, fun _ => rfl⟩
  size := rfl
  ids := ids_rosterFromSnapshot joined.maxPlayers joined.players
  mirror := rfl
  tasks := nofun

theorem inv_start (rtc : Rtc Sdp) (storagePath : Option String) (joined : JoinedMsg) :
    Inv joined.maxPlayers (Watches.Game.start rtc storagePath joined).actor := by
  refine List.foldlRecOn _ _ (inv_new storagePath joined) fun a h p _ => ?_
  exact h.advances (advances_initiatePeer rtc h.agree p)

theorem Inv.setWait (h : Inv k a) {p : PlayerId} {queue : SendQueue}
    (hqueue : a.sendQueues p = some queue) {wait : Wait} (hrests : Rests a p queue.channel wait) :
    Inv k (a.setWait p queue wait) where
  agree := by
    refine h.agree.setQueue { queue with wait := wait } (h.agree.queued p queue hqueue) ?_
    have hjobs := h.agree.queues p
    rw [hqueue, Option.map_some] at hjobs
    simp only [← hjobs, Function.update_eq_self]
  size := h.size
  ids := h.ids
  mirror := h.mirror
  tasks := fun q other hother => by
    unfold Watches.Actor.setWait at hother
    by_cases hqp : q = p
    · simp only [hqp, Function.update_self, Option.some.injEq] at hother
      rw [hqp, ← hother]
      exact hrests
    · simp only [Function.update_of_ne hqp] at hother
      exact h.tasks q other hother

theorem inv_stepped {g g' : Watches.Game Sdp} {l : Label Sdp} (h : Inv k g.actor)
    (hstep : Stepped g l g') : Inv k g'.actor := by
  cases hstep with
  | takes rtc input => exact inv_take rtc h input
  | timedOut hqueue hwait => exact h.setWait hqueue trivial
  | disconnected hqueue hwait hgone =>
    -- the watch of a registered queue is in the map
    exact absurd (h.agree.queued _ _ hqueue) hgone
  | @looks p version isOpen queue channel link hqueue hchannel hseen _ hclosed =>
    refine h.setWait hqueue ?_
    have hmade : ∀ e, link = some e → ∃ closed, g.actor.native.links e = some ⟨p, closed⟩ := by
      rintro e rfl
      exact h.agree.recorded p channel (List.mem_of_getElem? hchannel) e
        (List.mem_of_getElem? hseen)
    cases link with
    | none => exact ⟨channel, none, hchannel, hseen, nofun⟩
    | some epoch =>
      obtain ⟨closed, hlink⟩ := hmade epoch rfl
      cases isOpen with
      | true => exact ⟨closed, hlink⟩
      | false =>
        refine ⟨channel, some epoch, hchannel, hseen, fun e he => ?_⟩
        cases he
        have hgone := hclosed epoch rfl rfl
        simp only [Native.Actor.isClosed, hlink] at hgone
        rw [hlink, hgone]

theorem inv_run {joined : JoinedMsg} {ls : List (Label Sdp)} {g : Watches.Game Sdp}
    (run : Run (system Sdp joined) ls g) : Inv joined.maxPlayers g.actor := by
  refine run.invariant (fun g => Inv joined.maxPlayers g.actor) ?_
    fun _ _ _ h hstep => inv_stepped h hstep
  rintro g ⟨rtc, storagePath, rfl⟩
  exact inv_start rtc storagePath joined

theorem native_maps {joined : JoinedMsg} {ls : List (Label Sdp)} {g : Watches.Game Sdp}
    (run : Run (system Sdp joined) ls g) (p : PlayerId) :
    g.actor.native.linkWatch p =
        (g.actor.linkWatch p).map (fun _ => linkOf g.actor.native p) ∧
      g.actor.native.sendQueues p = (g.actor.sendQueues p).map (·.jobs) :=
  ⟨(inv_run run).agree.watches p, (inv_run run).agree.queues p⟩

/-- The maps between inputs, in a room of so many players. -/
structure InStep (maxPlayers : Nat) (a : Watches.Actor Sdp) : Prop where
  /-- a watch shows the link in `peers` -/
  watched : ∀ p c, a.linkWatch p = some c →
    ∃ channel, (a.channels p)[c]? = some channel ∧ channel.value = linkOf a.native p
  /-- the task of a queue has subscribed to the watch in the map -/
  subscribed : ∀ p queue, a.sendQueues p = some queue → a.linkWatch p = some queue.channel
  /-- a link is open if and only if it is in `peers` -/
  opened : ∀ p e, a.native.links e = some ⟨p, false⟩ ↔ linkOf a.native p = some e
  length : a.native.roster.length = maxPlayers
  ids : ∀ (i : Nat) (info : PlayerInfo), a.native.roster[i]? = some info → info.id = i
  mirror : a.sharedRoster = a.native.roster
  /-- a task that looks finds the link in `peers` -/
  finds : ∀ p queue channel, a.sendQueues p = some queue →
    (a.channels p)[queue.channel]? = some channel →
    Wait.turn channel.version channel.value (channel.value.any fun e => !a.native.isClosed e) =
      (linkOf a.native p).elim (.asleep channel.version) .found
  /-- a task that sleeps although there is a link has been woken -/
  woken : ∀ p queue channel seen, a.sendQueues p = some queue → queue.wait = .asleep seen →
    (a.channels p)[queue.channel]? = some channel → linkOf a.native p ≠ none →
    seen < channel.version
  /-- a link that a task has found is the one in `peers` until it is closed -/
  found : ∀ p queue e, a.sendQueues p = some queue → queue.wait = .found e →
    a.native.isClosed e = false → linkOf a.native p = some e
  /-- no task of a queue is told that its watch is gone -/
  alive : ∀ p queue, a.sendQueues p = some queue → queue.wait ≠ .closed

theorem isClosed_linkOf {p : PlayerId} {e : Nat} (h : Placed n) (hlink : linkOf n p = some e) :
    n.isClosed e = false := by
  simp only [Native.Actor.isClosed, (h.opened p e).2 hlink]

theorem Inv.value (h : Inv k a) {p : PlayerId} {queue : SendQueue} {channel : Channel (Option Nat)}
    (hqueue : a.sendQueues p = some queue)
    (hchannel : (a.channels p)[queue.channel]? = some channel) :
    channel.value = linkOf a.native p := by
  obtain ⟨shown, hshown, hvalue⟩ := h.agree.watched p _ (h.agree.queued p queue hqueue)
  obtain rfl : shown = channel := by simpa [hchannel] using hshown.symm
  exact hvalue

theorem Inv.finds (h : Inv k a) {p : PlayerId} {queue : SendQueue}
    {channel : Channel (Option Nat)} (hqueue : a.sendQueues p = some queue)
    (hchannel : (a.channels p)[queue.channel]? = some channel) :
    Wait.turn channel.version channel.value (channel.value.any fun e => !a.native.isClosed e) =
      (linkOf a.native p).elim (.asleep channel.version) .found := by
  rw [h.value hqueue hchannel]
  cases hlink : linkOf a.native p with
  | none => rfl
  | some e => simp [Wait.turn, isClosed_linkOf h.agree.placed hlink]

theorem Inv.woken (h : Inv k a) {p : PlayerId} {queue : SendQueue}
    {channel : Channel (Option Nat)} {seen : Nat} (hqueue : a.sendQueues p = some queue)
    (hwait : queue.wait = .asleep seen)
    (hchannel : (a.channels p)[queue.channel]? = some channel)
    (hlinked : linkOf a.native p ≠ none) : seen < channel.version := by
  have hrests := h.tasks p queue hqueue
  rw [hwait] at hrests
  obtain ⟨shown, link, hshown, hseen, hgone⟩ := hrests
  obtain rfl : shown = channel := by simpa [hchannel] using hshown.symm
  rcases value_or_later hseen with hlater | hvalue
  · exact hlater
  -- it has seen the link in place, but closed
  obtain ⟨e, he⟩ := Option.ne_none_iff_exists'.1 hlinked
  have hclosed := hgone e (by rw [← hvalue, h.value hqueue hchannel, he])
  have hopen := (h.agree.placed.opened p e).2 he
  simp [hclosed] at hopen

theorem Inv.found (h : Inv k a) {p : PlayerId} {queue : SendQueue} {e : Nat}
    (hqueue : a.sendQueues p = some queue) (hwait : queue.wait = .found e)
    (hopen : a.native.isClosed e = false) : linkOf a.native p = some e := by
  have hrests := h.tasks p queue hqueue
  rw [hwait] at hrests
  obtain ⟨closed, hlink⟩ := hrests
  simp only [Native.Actor.isClosed, hlink] at hopen
  rw [hopen] at hlink
  exact (h.agree.placed.opened p e).1 hlink

/-- After every input, and every turn of a sender task. -/
theorem maps_in_step {joined : JoinedMsg} {ls : List (Label Sdp)} {g : Watches.Game Sdp}
    (run : Run (system Sdp joined) ls g) : InStep joined.maxPlayers g.actor := by
  have h := inv_run run
  refine ⟨h.agree.watched, h.agree.queued, h.agree.placed.opened, ?_, fun i info hinfo => ?_,
    h.mirror, fun p queue channel => h.finds, fun p queue channel seen => h.woken,
    fun p queue e => h.found, fun p queue hqueue hwait => ?_⟩
  · rw [← List.length_map (·.id), h.ids, List.length_range]
  · have hid : (g.actor.native.roster.map (·.id))[i]? = some info.id := by
      rw [List.getElem?_map, hinfo, Option.map_some]
    rw [h.ids] at hid
    obtain ⟨_, hid⟩ := List.getElem?_eq_some_iff.1 hid
    rw [← hid, List.getElem_range]
  · have hrests := h.tasks p queue hqueue
    rw [hwait] at hrests
    exact hrests

def reaching (creates : Bool) : Rtc Unit where
  creates := fun _ => creates
  offers := fun _ => true
  describes := fun _ => true
  parses := true
  answers := true
  failed := false
  takes := fun _ => true
  offerOf := fun _ => ()
  answerOf := fun _ _ => ()

def firstOfTwo : JoinedMsg := ⟨"ROOM", 0, 2, true, "token", [⟨0, true, true⟩, ⟨1, true, true⟩]⟩

def started : Watches.Game Unit := .start (reaching false) none firstOfTwo

def unlinked : Watches.Game Unit :=
  started.take (reaching false) (.cmd (.sendReliable 1 [7]))

def sleeping : Watches.Game Unit :=
  { unlinked with actor := unlinked.actor.setWait 1 ⟨[[7]], 0, .idle⟩ (.asleep 0) }

/-- Player 1 comes back, and this time the link is made. -/
def linked : Watches.Game Unit :=
  sleeping.take (reaching true) (.internal (.ws (.playerRejoined 1 false)))

def served : Watches.Game Unit :=
  { linked with actor := linked.actor.setWait 1 ⟨[[7]], 0, .asleep 0⟩ (.found 2) }

def servedLabels : List (Watches.Label Unit) :=
  [.takes (reaching false) (.cmd (.sendReliable 1 [7])), .looks 1 0 false,
    .takes (reaching true) (.internal (.ws (.playerRejoined 1 false))), .looks 1 1 true]

theorem run_served : Run (system Unit firstOfTwo) servedLabels served := by
  have hstarted : (system Unit firstOfTwo).init started := ⟨_, _, rfl⟩
  have hasleep : Stepped unlinked (.looks 1 0 false) sleeping :=
    @Stepped.looks _ unlinked 1 0 false ⟨[[7]], 0, .idle⟩ ⟨[], none⟩ none rfl rfl rfl trivial nofun
  have hfound : Stepped linked (.looks 1 1 true) served :=
    @Stepped.looks _ linked 1 1 true ⟨[[7]], 0, .asleep 0⟩ ⟨[none], some 2⟩ (some 2)
      rfl rfl rfl Nat.one_pos nofun
  exact ((((Run.init hstarted).step (.takes _ _)).step hasleep).step (.takes _ _)).step hfound

theorem maps_in_step_served : InStep 2 served.actor ∧ linkOf served.actor.native 1 = some 2 :=
  ⟨maps_in_step run_served, rfl⟩

end Lobbylink.Client.Maps
