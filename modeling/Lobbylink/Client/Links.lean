import Lobbylink.Client.Silence

/-! The links of the client's actor. Those it stores are open, each in its own
player's place, and it offers to higher players only. -/
namespace Lobbylink.Client.Links
open Protocol Roster Native Silence

variable {Sdp : Type}

/-- `stored` also says that no two players share a link. -/
structure Sound (a : Actor Sdp) : Prop where
  stored : ∀ p peer, a.peers p = some peer → a.links peer.link.epoch = some ⟨p, false⟩
  made : ∀ e, a.links e ≠ none → e ≤ a.epochCounter
  initiated : ∀ p peer, a.peers p = some peer → peer.link.initiator = true → a.selfId < p
  timed : ∀ t ∈ a.timers, a.selfId < t.1 ∧ t.2.1 ≤ a.epochCounter
  offered : ∀ p sdp, .signal p (.offer sdp) ∈ a.sent → a.selfId < p

/-- The link to `p` stays, goes or is replaced by a new one; nothing is counted or
timed for `p`. -/
structure Paces (p : PlayerId) (a b : Actor Sdp) : Prop where
  counts : b.rebuildCounts p = a.rebuildCounts p
  timers : ∀ t ∈ b.timers, t.1 = p → t ∈ a.timers
  counter : a.epochCounter ≤ b.epochCounter
  link : ∀ peer, b.peers p = some peer →
    a.holds p peer.link.epoch = true ∨ a.epochCounter < peer.link.epoch

/-- What the operations that count no failure have in common. -/
structure Goes (a b : Actor Sdp) : Prop where
  self : b.selfId = a.selfId
  sound : Sound a → Sound b
  paces : ∀ p, Paces p a b

variable {a b c : Actor Sdp} {p q : PlayerId}

theorem holds_iff {e : Nat} :
    a.holds p e = true ↔ ∃ peer, a.peers p = some peer ∧ peer.link.epoch = e := by
  unfold Actor.holds
  cases a.peers p <;> simp

theorem Paces.trans (h : Paces p a b) (h' : Paces p b c) : Paces p a c where
  counts := h'.counts.trans h.counts
  timers := fun t ht hp => h.timers t (h'.timers t ht hp) hp
  counter := Nat.le_trans h.counter h'.counter
  link := fun peer hpeer => by
    rcases h'.link peer hpeer with hb | hb
    · obtain ⟨peer', hpeer', he⟩ := holds_iff.1 hb
      rw [← he]
      exact h.link peer' hpeer'
    · exact .inr (Nat.lt_of_le_of_lt h.counter hb)

theorem Goes.trans (h : Goes a b) (h' : Goes b c) : Goes a c :=
  ⟨h'.self.trans h.self, fun hs => h'.sound (h.sound hs), fun p => (h.paces p).trans (h'.paces p)⟩

theorem paces_of_same (hpeers : b.peers = a.peers) (hcounter : b.epochCounter = a.epochCounter)
    (hcounts : b.rebuildCounts = a.rebuildCounts) (htimers : b.timers = a.timers) :
    Paces p a b where
  counts := by rw [hcounts]
  timers := fun t ht _ => htimers ▸ ht
  counter := Nat.le_of_eq hcounter.symm
  link := fun peer hpeer => by
    rw [hpeers] at hpeer
    exact .inl (holds_iff.2 ⟨peer, hpeer, rfl⟩)

theorem goes_of_same (hself : b.selfId = a.selfId) (hpeers : b.peers = a.peers)
    (hlinks : b.links = a.links) (hcounter : b.epochCounter = a.epochCounter)
    (hcounts : b.rebuildCounts = a.rebuildCounts) (htimers : b.timers = a.timers)
    (hsent : b.sent = a.sent) : Goes a b where
  self := hself
  sound := fun h => by
    constructor
    · rw [hpeers, hlinks]
      exact h.stored
    · rw [hlinks, hcounter]
      exact h.made
    · rw [hpeers, hself]
      exact h.initiated
    · rw [htimers, hself, hcounter]
      exact h.timed
    · rw [hsent, hself]
      exact h.offered
  paces := fun _ => paces_of_same hpeers hcounter hcounts htimers

theorem Goes.refl (a : Actor Sdp) : Goes a a := goes_of_same rfl rfl rfl rfl rfl rfl rfl

theorem goes_emit (a : Actor Sdp) (event : Event) : Goes a (a.emit event) := by
  unfold Actor.emit
  split_ifs
  · exact .refl a
  · exact goes_of_same rfl rfl rfl rfl rfl rfl rfl

theorem goes_clearStore (a : Actor Sdp) : Goes a a.clearStore := by
  unfold Actor.clearStore
  cases a.storagePath with
  | none => exact .refl a
  | some _ => exact goes_of_same rfl rfl rfl rfl rfl rfl rfl

theorem goes_sendSignal (a : Actor Sdp) {payload : SignalPayload Sdp}
    (h : ∀ sdp, payload = .offer sdp → a.selfId < q) : Goes a (a.sendSignal q payload) := by
  unfold Actor.sendSignal
  split_ifs
  · exact .refl a
  refine ⟨rfl, fun hs => ⟨hs.stored, hs.made, hs.initiated, hs.timed, fun p sdp hmem => ?_⟩,
    fun p => paces_of_same rfl rfl rfl rfl⟩
  rcases List.mem_append.1 hmem with hmem | hmem
  · exact hs.offered p sdp hmem
  · cases List.mem_singleton.1 hmem
    exact h sdp rfl

theorem Sound.other (h : Sound a) {peer peer' : Peer} (hp : a.peers p = some peer)
    (hq : a.peers q = some peer') (hne : p ≠ q) : peer.link.epoch ≠ peer'.link.epoch := by
  intro heq
  have hpl := h.stored p peer hp
  rw [heq, h.stored q peer' hq] at hpl
  simp only [Option.some.injEq, LinkHandle.mk.injEq, and_true] at hpl
  exact hne hpl.symm

theorem goes_closePeer (a : Actor Sdp) (q : PlayerId) : Goes a (a.closePeer q) := by
  unfold Actor.closePeer
  cases hq : a.peers q with
  | none => exact .refl a
  | some peer' =>
    have hrest : ∀ p peer, Function.update a.peers q none p = some peer →
        p ≠ q ∧ a.peers p = some peer := fun p peer hpeer => by
      by_cases hp : p = q
      · rw [hp, Function.update_self] at hpeer
        cases hpeer
      · rw [Function.update_of_ne hp] at hpeer
        exact ⟨hp, hpeer⟩
    refine ⟨rfl, fun hs => ⟨fun p peer hpeer => ?_, fun e he => ?_, fun p peer hpeer => ?_,
      hs.timed, hs.offered⟩, fun p => ⟨rfl, fun t ht _ => ht, Nat.le_refl _, fun peer hpeer => ?_⟩⟩
    · obtain ⟨hp, hpeer⟩ := hrest p peer hpeer
      simp only [Function.update_of_ne (hs.other hpeer hq hp)]
      exact hs.stored p peer hpeer
    · by_cases hep : e = peer'.link.epoch
      · rw [hep]
        exact hs.made _ (by rw [hs.stored q peer' hq]; simp)
      · simp only [Function.update_of_ne hep] at he
        exact hs.made e he
    · exact hs.initiated p peer (hrest p peer hpeer).2
    · exact .inl (holds_iff.2 ⟨peer, (hrest p peer hpeer).2, rfl⟩)

theorem goes_teardownPeers (a : Actor Sdp) : Goes a a.teardownPeers := by
  unfold Actor.teardownPeers
  refine ⟨rfl, fun hs => ⟨fun _ _ hpeer => (Option.some_ne_none _ hpeer.symm).elim, fun e he => ?_,
    fun _ _ hpeer => (Option.some_ne_none _ hpeer.symm).elim, hs.timed, hs.offered⟩,
    fun p => ⟨rfl, fun t ht _ => ht, Nat.le_refl _,
      fun _ hpeer => (Option.some_ne_none _ hpeer.symm).elim⟩⟩
  refine hs.made e fun hnone => he ?_
  simp only [hnone, Option.map_none]

theorem goes_modifyPeer (a : Actor Sdp) (q : PlayerId) {f : Peer → Peer}
    (hf : ∀ peer, (f peer).link.epoch = peer.link.epoch ∧
      (f peer).link.initiator = peer.link.initiator) : Goes a (a.modifyPeer q f) := by
  have hpeers : ∀ p peer, (a.modifyPeer q f).peers p = some peer → ∃ peer', a.peers p = some peer' ∧
      peer.link.epoch = peer'.link.epoch ∧ peer.link.initiator = peer'.link.initiator := by
    intro p peer hpeer
    unfold Actor.modifyPeer at hpeer
    by_cases hp : p = q
    · subst hp
      simp only [Function.update_self, Option.map_eq_some_iff] at hpeer
      obtain ⟨peer', hpeer', rfl⟩ := hpeer
      exact ⟨peer', hpeer', hf peer'⟩
    · simp only [Function.update_of_ne hp] at hpeer
      exact ⟨peer, hpeer, rfl, rfl⟩
  refine ⟨rfl, fun hs => ⟨fun p peer hpeer => ?_, hs.made, fun p peer hpeer hinit => ?_,
    hs.timed, hs.offered⟩, fun p => ⟨rfl, fun t ht _ => ht, Nat.le_refl _, fun peer hpeer => ?_⟩⟩
  · obtain ⟨peer', hpeer', he, -⟩ := hpeers p peer hpeer
    rw [he]
    exact hs.stored p peer' hpeer'
  · obtain ⟨peer', hpeer', -, hi⟩ := hpeers p peer hpeer
    exact hs.initiated p peer' hpeer' (hi ▸ hinit)
  · obtain ⟨peer', hpeer', he, -⟩ := hpeers p peer hpeer
    exact .inl (holds_iff.2 ⟨peer', hpeer', he.symm⟩)

theorem goes_createLink (rtc : Rtc Sdp) (a : Actor Sdp) {initiator : Bool}
    (h : initiator = true → a.selfId < q) : Goes a (a.createLink rtc q initiator) := by
  unfold Actor.createLink
  refine (goes_closePeer a q).trans ?_
  have hself := (goes_closePeer a q).self
  generalize a.closePeer q = b at hself
  simp only
  split_ifs
  · have hpeers : ∀ p peer, Function.update b.peers q
        (some ⟨⟨initiator, b.epochCounter + 1, .stable⟩, .empty, some []⟩) p = some peer →
        (p = q ∧ peer.link.epoch = b.epochCounter + 1 ∧ peer.link.initiator = initiator) ∨
          b.peers p = some peer := by
      intro p peer hpeer
      by_cases hp : p = q
      · rw [hp, Function.update_self] at hpeer
        cases hpeer
        exact .inl ⟨hp, rfl, rfl⟩
      · rw [Function.update_of_ne hp] at hpeer
        exact .inr hpeer
    refine ⟨rfl, fun hs => ⟨fun p peer hpeer => ?_, fun e he => ?_, fun p peer hpeer hinit => ?_,
      fun t ht => ⟨(hs.timed t ht).1, Nat.le_succ_of_le (hs.timed t ht).2⟩, hs.offered⟩,
      fun p => ⟨rfl, fun t ht _ => ht, Nat.le_succ _, fun peer hpeer => ?_⟩⟩
    · rcases hpeers p peer hpeer with ⟨rfl, he, -⟩ | hpeer
      · simp only [he, Function.update_self]
      · have hold := hs.stored p peer hpeer
        have hle := hs.made peer.link.epoch (by rw [hold]; simp)
        have hne : peer.link.epoch ≠ b.epochCounter + 1 := by omega
        simp only [Function.update_of_ne hne, hold]
    · by_cases hnew : e = b.epochCounter + 1
      · exact Nat.le_of_eq hnew
      · simp only [Function.update_of_ne hnew] at he
        exact Nat.le_succ_of_le (hs.made e he)
    · rcases hpeers p peer hpeer with ⟨rfl, -, hi⟩ | hpeer
      · have hlt := h (hi ▸ hinit)
        rwa [← hself] at hlt
      · exact hs.initiated p peer hpeer hinit
    · rcases hpeers p peer hpeer with ⟨rfl, he, -⟩ | hpeer
      · exact .inr (by rw [he]; exact Nat.lt_succ_self _)
      · exact .inl (holds_iff.2 ⟨peer, hpeer, rfl⟩)
  · exact ⟨rfl, fun hs => ⟨hs.stored, fun e he => Nat.le_succ_of_le (hs.made e he), hs.initiated,
      fun t ht => ⟨(hs.timed t ht).1, Nat.le_succ_of_le (hs.timed t ht).2⟩, hs.offered⟩,
      fun p => ⟨rfl, fun t ht _ => ht, Nat.le_succ _, fun peer hpeer =>
        .inl (holds_iff.2 ⟨peer, hpeer, rfl⟩)⟩⟩

theorem goes_initiatePeer (rtc : Rtc Sdp) (a : Actor Sdp) (h : a.selfId < q) :
    Goes a (a.initiatePeer rtc q) := by
  have hlink : Goes a (a.createLink rtc q true) := goes_createLink rtc a fun _ => h
  have hset : Goes (a.createLink rtc q true) ((a.createLink rtc q true).modifyPeer q
      (Peer.setSignaling .haveLocalOffer)) := goes_modifyPeer _ q fun _ => ⟨rfl, rfl⟩
  unfold Actor.initiatePeer
  split_ifs
  · exact .refl a
  · exact hlink
  · refine (hlink.trans hset).trans (goes_sendSignal _ fun _ _ => ?_)
    rw [(hlink.trans hset).self]
    exact h
  · exact hlink.trans hset

theorem goes_answerOffer (rtc : Rtc Sdp) (a : Actor Sdp) (q : PlayerId) (sdp : Sdp) :
    Goes a (a.answerOffer rtc q sdp) := by
  have hlink : Goes a (a.createLink rtc q false) := goes_createLink rtc a fun h => by cases h
  have hread : Goes (a.createLink rtc q false) ((a.createLink rtc q false).modifyPeer q
      (Peer.flushCandidates ∘ Peer.setSignaling .haveRemoteOffer)) :=
    goes_modifyPeer _ q fun _ => ⟨rfl, rfl⟩
  have hset : ∀ b : Actor Sdp, Goes b (b.modifyPeer q (Peer.setSignaling .stable)) :=
    fun b => goes_modifyPeer b q fun _ => ⟨rfl, rfl⟩
  unfold Actor.answerOffer
  simp only
  split_ifs
  · exact hlink
  · exact hlink.trans hread
  · refine ((hlink.trans hread).trans (hset _)).trans (goes_sendSignal _ fun _ h => ?_)
    cases h
  · exact (hlink.trans hread).trans (hset _)

theorem goes_handleSignal (rtc : Rtc Sdp) (a : Actor Sdp) (source : PlayerId)
    (payload : SignalPayload Sdp) : Goes a (a.handleSignal rtc source payload) := by
  unfold Actor.handleSignal
  split
  · exact .refl a
  cases payload with
  | offer sdp =>
    simp only
    split_ifs
    · exact .refl a
    · exact goes_answerOffer rtc a source sdp
  | answer sdp =>
    simp only
    split_ifs
    · exact goes_modifyPeer a source fun _ => ⟨rfl, rfl⟩
    · exact .refl a
  | ice candidate =>
    cases candidate with
    | none => exact .refl a
    | some candidate =>
      simp only
      split_ifs
      · exact goes_modifyPeer a source fun _ => ⟨rfl, rfl⟩
      · exact .refl a
  | unknown => exact .refl a

theorem peers_closePeer (a : Actor Sdp) (q : PlayerId) : (a.closePeer q).peers q = none := by
  unfold Actor.closePeer
  cases hq : a.peers q with
  | none => exact hq
  | some _ => exact Function.update_self ..

@[simp] theorem epochCounter_closePeer (a : Actor Sdp) (q : PlayerId) :
    (a.closePeer q).epochCounter = a.epochCounter := by
  unfold Actor.closePeer
  cases a.peers q <;> rfl

/-- No link to the player is older than the actor's count says. -/
def Renewed (q : PlayerId) (a b : Actor Sdp) : Prop :=
  ∀ peer, b.peers q = some peer → a.epochCounter < peer.link.epoch

theorem renewed_createLink (rtc : Rtc Sdp) (a : Actor Sdp) (q : PlayerId) (initiator : Bool) :
    Renewed q a (a.createLink rtc q initiator) := by
  intro peer hpeer
  unfold Actor.createLink at hpeer
  simp only at hpeer
  split_ifs at hpeer
  · simp only [Function.update_self, Option.some.injEq] at hpeer
    subst hpeer
    simp
  · rw [peers_closePeer] at hpeer
    cases hpeer

theorem Renewed.modifyPeer {f : Peer → Peer} (h : Renewed q a b)
    (hf : ∀ peer, (f peer).link.epoch = peer.link.epoch) : Renewed q a (b.modifyPeer q f) := by
  intro peer hpeer
  simp only [Actor.modifyPeer, Function.update_self, Option.map_eq_some_iff] at hpeer
  obtain ⟨peer', hpeer', rfl⟩ := hpeer
  rw [hf]
  exact h peer' hpeer'

theorem Renewed.sendSignal {payload : SignalPayload Sdp} (h : Renewed q a b) (p : PlayerId) :
    Renewed q a (b.sendSignal p payload) := by
  unfold Actor.sendSignal
  split_ifs
  · exact h
  · exact h

theorem renewed_initiatePeer (rtc : Rtc Sdp) (a : Actor Sdp) (q : PlayerId)
    (hclosed : a.closed = false) : Renewed q a (a.initiatePeer rtc q) := by
  have hlink := renewed_createLink rtc a q true
  have hset : Renewed q a ((a.createLink rtc q true).modifyPeer q
      (Peer.setSignaling .haveLocalOffer)) := hlink.modifyPeer fun _ => rfl
  unfold Actor.initiatePeer
  rw [if_neg (by simp [hclosed])]
  simp only
  split_ifs
  · exact hlink
  · exact hset.sendSignal q
  · exact hset

def offersTo (p : PlayerId) (a : Actor Sdp) : Nat :=
  a.sent.countP fun
    | .signal q (.offer _) => q == p
    | _ => false

theorem offersTo_sendSignal (a : Actor Sdp) (p q : PlayerId) (payload : SignalPayload Sdp) :
    offersTo p (a.sendSignal q payload) ≤ offersTo p a + 1 := by
  unfold Actor.sendSignal offersTo
  split_ifs
  · exact Nat.le_succ _
  · rw [List.countP_append]
    exact Nat.add_le_add_left List.countP_le_length _

theorem sent_createLink (rtc : Rtc Sdp) (a : Actor Sdp) (q : PlayerId) (initiator : Bool) :
    (a.createLink rtc q initiator).sent = a.sent := by
  have hclose : (a.closePeer q).sent = a.sent := by
    unfold Actor.closePeer
    cases a.peers q <;> rfl
  unfold Actor.createLink
  simp only
  split_ifs <;> exact hclose

/-- One link makes one offer. -/
theorem offersTo_initiatePeer (rtc : Rtc Sdp) (a : Actor Sdp) (p q : PlayerId) :
    offersTo p (a.initiatePeer rtc q) ≤ offersTo p a + 1 := by
  have hlink : offersTo p (a.createLink rtc q true) = offersTo p a := by
    unfold offersTo
    rw [sent_createLink]
  have hset : offersTo p ((a.createLink rtc q true).modifyPeer q
      (Peer.setSignaling .haveLocalOffer)) = offersTo p a := hlink
  unfold Actor.initiatePeer
  split_ifs
  · exact Nat.le_succ _
  · exact Nat.le_succ_of_le (Nat.le_of_eq hlink)
  · refine Nat.le_trans (offersTo_sendSignal _ p q _) ?_
    rw [hset]
  · exact Nat.le_succ_of_le (Nat.le_of_eq hset)

/-- The count for `q` starts again, and with it the link. -/
structure Resets (q : PlayerId) (a b : Actor Sdp) : Prop where
  self : b.selfId = a.selfId
  sound : Sound a → Sound b
  others : ∀ p, p ≠ q → Paces p a b
  own : Paces q a b ∨ Renewed q a b
  timers : b.timers = a.timers

theorem timers_initiatePeer (rtc : Rtc Sdp) (a : Actor Sdp) (q : PlayerId) :
    (a.initiatePeer rtc q).timers = a.timers := by
  unfold Actor.initiatePeer Actor.createLink Actor.closePeer Actor.sendSignal Actor.modifyPeer
  simp only
  split_ifs <;> cases a.peers q <;> rfl

theorem resets_resetPeer (rtc : Rtc Sdp) (a : Actor Sdp) (q : PlayerId) :
    Resets q a (a.resetPeer rtc q) := by
  unfold Actor.resetPeer
  by_cases hself : q = a.selfId
  · rw [if_pos hself]
    exact ⟨rfl, id, fun p _ => paces_of_same rfl rfl rfl rfl,
      .inl (paces_of_same rfl rfl rfl rfl), rfl⟩
  rw [if_neg hself]
  have hclose := goes_closePeer a q
  have hgone := peers_closePeer a q
  have htimers : (a.closePeer q).timers = a.timers := by
    unfold Actor.closePeer
    cases a.peers q <;> rfl
  have hcounter := epochCounter_closePeer a q
  simp only
  generalize a.closePeer q = b at hclose hgone htimers hcounter ⊢
  set c : Actor Sdp := { b with rebuildCounts := Function.update b.rebuildCounts q none } with hc
  have hcsound : Sound b → Sound c := fun hs =>
    ⟨hs.stored, hs.made, hs.initiated, hs.timed, hs.offered⟩
  have hcpaces : ∀ p, p ≠ q → Paces p b c := fun p hp =>
    ⟨Function.update_of_ne hp _ _, fun _ ht _ => ht, Nat.le_refl _, fun peer hpeer =>
      .inl (holds_iff.2 ⟨peer, hpeer, rfl⟩)⟩
  split_ifs with hlt
  · have hinit := goes_initiatePeer rtc c hlt
    refine ⟨hinit.self.trans hclose.self, fun hs => hinit.sound (hcsound (hclose.sound hs)),
      fun p hp => ((hclose.paces p).trans (hcpaces p hp)).trans (hinit.paces p), .inr ?_,
      (timers_initiatePeer rtc c q).trans htimers⟩
    intro peer hpeer
    rcases (hinit.paces q).link peer hpeer with hheld | hnew
    · obtain ⟨peer', hpeer', -⟩ := holds_iff.1 hheld
      rw [hc, hgone] at hpeer'
      cases hpeer'
    · rwa [hc, hcounter] at hnew
  · refine ⟨hclose.self, fun hs => hcsound (hclose.sound hs),
      fun p hp => (hclose.paces p).trans (hcpaces p hp), .inr fun peer hpeer => ?_, htimers⟩
    simp only [hgone] at hpeer
    cases hpeer

theorem Goes.resets (h : Goes a b) (htimers : b.timers = a.timers) (h' : Resets q b c) :
    Resets q a c where
  self := h'.self.trans h.self
  sound := fun hs => h'.sound (h.sound hs)
  others := fun p hp => (h.paces p).trans (h'.others p hp)
  own := h'.own.imp (h.paces q).trans fun hnew peer hpeer =>
    Nat.lt_of_le_of_lt (h.paces q).counter (hnew peer hpeer)
  timers := h'.timers.trans htimers

theorem goes_handleError (a : Actor Sdp) (code message : String) :
    Goes a (a.handleError code message) := by
  have hflag : Goes a { a with fatalSeen := true } := goes_of_same rfl rfl rfl rfl rfl rfl rfl
  unfold Actor.handleError
  simp only
  split_ifs
  · exact ((hflag.trans (goes_teardownPeers _)).trans (goes_clearStore _)).trans (goes_emit _ _)
  · exact (hflag.trans (goes_teardownPeers _)).trans (goes_emit _ _)
  · exact hflag.trans (goes_emit _ _)
  · exact goes_emit a _

/-- The player of a join, a rejoin or a replacement. -/
def sessionOf : ServerMessage Sdp → Option PlayerId
  | .playerJoined p _ | .playerRejoined p _ | .playerReplaced p => some p
  | _ => none

/-- A message resets the link of the player that has a new session, and no other. -/
theorem handleServerMessage_cases (rtc : Rtc Sdp) (a : Actor Sdp) (msg : ServerMessage Sdp) :
    (∃ q, sessionOf msg = some q ∧ Resets q a (a.handleServerMessage rtc msg)) ∨
      Goes a (a.handleServerMessage rtc msg) := by
  have hroster : Goes a { a with roster := updateRoster a.maxPlayers a.roster msg } :=
    goes_of_same rfl rfl rfl rfl rfl rfl rfl
  have htimers : ∀ event, ({ a with
      roster := updateRoster a.maxPlayers a.roster msg }.emit event).timers = a.timers := by
    intro event
    unfold Actor.emit
    split_ifs <;> rfl
  unfold Actor.handleServerMessage
  cases msg with
  | playerJoined q players =>
    exact .inl ⟨q, rfl, (hroster.trans (goes_emit _ _)).resets (htimers _) (resets_resetPeer rtc _ q)⟩
  | playerRejoined q wasReplacement =>
    exact .inl ⟨q, rfl, (hroster.trans (goes_emit _ _)).resets (htimers _) (resets_resetPeer rtc _ q)⟩
  | playerReplaced q =>
    exact .inl ⟨q, rfl, (hroster.trans (goes_emit _ _)).resets (htimers _) (resets_resetPeer rtc _ q)⟩
  | playerLeft q reason =>
    refine .inr ?_
    simp only
    split_ifs
    · exact (hroster.trans (goes_closePeer _ q)).trans (goes_emit _ _)
    · exact hroster.trans (goes_emit _ _)
  | roomStarted =>
    refine .inr ((hroster.trans ?_).trans (goes_emit _ _))
    exact goes_of_same rfl rfl rfl rfl rfl rfl rfl
  | signal source payload => exact .inr (hroster.trans (goes_handleSignal rtc _ source payload))
  | error code message => exact .inr (hroster.trans (goes_handleError _ code message))
  | joined _ | unknown => exact .inr hroster

theorem goes_silent (h : Silent a b) : Goes a b := by
  induction h with
  | refl a => exact .refl a
  | trans _ _ ih ih' => exact ih.trans ih'
  | emit a event => exact goes_emit a event
  | hold a p r => exact goes_modifyPeer a p fun _ => ⟨rfl, rfl⟩
  | note => exact goes_of_same rfl rfl rfl rfl rfl rfl rfl

theorem goes_handleCmd (rtc : Rtc Sdp) (a : Actor Sdp) (cmd : Cmd) :
    Goes a (a.handleCmd rtc cmd) := by
  cases cmd with
  | sendReliable target data =>
    simp only [Actor.handleCmd, Actor.sendReliable]
    split_ifs
    · exact .refl a
    · exact goes_of_same rfl rfl rfl rfl rfl rfl rfl
  | sendBestEffort | broadcastBestEffort | close =>
    exact goes_silent (silent_handleCmd rtc a rfl)

theorem goes_shutdown (a : Actor Sdp) : Goes a a.shutdown := by
  unfold Actor.shutdown
  refine Goes.trans ?_ ((goes_teardownPeers _).trans (goes_clearStore _))
  refine ⟨rfl, fun hs => ⟨hs.stored, hs.made, hs.initiated, hs.timed, fun p sdp hmem => ?_⟩,
    fun p => paces_of_same rfl rfl rfl rfl⟩
  rcases List.mem_append.1 hmem with hmem | hmem
  · exact hs.offered p sdp hmem
  · cases List.mem_singleton.1 hmem

end Lobbylink.Client.Links
