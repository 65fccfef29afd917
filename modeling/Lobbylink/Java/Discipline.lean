import Lobbylink.Java.Telling

/-! What the actor of the Java client says to the other players. The calls to the WebRTC stack
are over in any order, and a link has one description to say, which nothing doubles. -/
namespace Lobbylink.Java.Discipline
open Json Messages Reliable Tasks Telling Lib.Runs
open Client.Native (PeerState Signaling MessageKind)

variable {D : Type}

/-- The own description of a link, which is an offer or an answer. -/
structure Token where
  player : Int
  epoch : Nat
  offer : Bool

/-- The player and the link that a call is for. -/
def opLink : Op → Int × Nat
  | .createOffer p e | .setLocalOffer p e _ | .setRemoteOffer p e _ | .createAnswer p e
  | .setLocalAnswer p e _ | .setRemoteAnswer p e _ | .getStats p e => (p, e)

/-- The description that a call to the stack comes to. -/
def opToken : Op → Option Token
  | .createOffer p e | .setLocalOffer p e _ => some ⟨p, e, true⟩
  | .setRemoteOffer p e _ | .createAnswer p e | .setLocalAnswer p e _ => some ⟨p, e, false⟩
  | .setRemoteAnswer .. | .getStats .. => none

def taskToken : Tasks.Task D → Option Token
  | .localOfferSet p e _ => some ⟨p, e, true⟩
  | .remoteOfferSet p e | .localAnswerSet p e _ => some ⟨p, e, false⟩
  | _ => none

def sentToken : Sent D → Option Token
  | .signal p e (.offer _) => some ⟨p, e, true⟩
  | .signal p e (.answer _) => some ⟨p, e, false⟩
  | .signal _ _ (.ice _) | .leave => none

/-- The link whose description of the other side is there when the task is posted. -/
def described : Tasks.Task D → Option (Int × Nat)
  | .remoteOfferSet p e | .answerSet p e => some (p, e)
  | _ => none

def about (e : Nat) (token : Option Token) : Bool := token.any fun t => t.epoch = e

/-- The link is the one that the description is of. -/
def Made (a : Actor D) (t : Token) : Prop :=
  ∃ link, a.links t.epoch = some link ∧ link.playerId = t.player ∧ link.initiator = t.offer

/-- The link is one that was made to the player. -/
def Linked (a : Actor D) (l : Int × Nat) : Prop :=
  ∃ link, a.links l.2 = some link ∧ link.playerId = l.1

/-- What a link has of its own, whether it is open or not. -/
def core (link : PeerLink D) : Int × Bool × Nat × Bool × Option (List (Members D)) × List (Members D) :=
  (link.playerId, link.initiator, link.epoch, link.remoteSet, link.pendingCandidates, link.added)

def Right (selfId : Int) (link : PeerLink D) : Prop :=
  if link.initiator then selfId < link.playerId else link.playerId < selfId

structure Fresh (selfId : Int) (e : Nat) (link : PeerLink D) : Prop where
  epoch : link.epoch = e
  right : Right selfId link
  remote : link.remoteSet = false
  pending : link.pendingCandidates = some []
  added : link.added = []

structure Sound (a : Actor D) : Prop where
  placed : Placed a
  epochs : ∀ e link, a.links e = some link → link.epoch = e
  right : ∀ e link, a.links e = some link → Right a.selfId link

/-- Links stay, are closed or are new; of a new link one description gets under way; nothing is
said. -/
structure Goes (a b : Actor D) : Prop where
  placed : Placed b
  selfId : b.selfId = a.selfId
  closed : b.closed = a.closed
  sent : b.sent = a.sent
  counter : a.epochCounter ≤ b.epochCounter
  peers : ∀ p e, b.peers p = some e → a.peers p = some e ∨ a.epochCounter < e
  stays : ∀ e old, a.links e = some old → ∃ link, b.links e = some link ∧ core link = core old
  links : ∀ e link, b.links e = some link → (∃ old, a.links e = some old ∧ core link = core old) ∨
    (a.epochCounter < e ∧ Fresh a.selfId e link)
  timers : ∀ t ∈ b.timers, t ∈ a.timers ∨ a.selfId < t.1
  ops : ∀ e, b.ops.countP (fun op => about e (opToken op)) ≤
    a.ops.countP (fun op => about e (opToken op)) +
      if a.epochCounter < e ∧ e ≤ b.epochCounter then 1 else 0
  made : ∀ op ∈ b.ops, op ∈ a.ops ∨ (Linked b (opLink op) ∧
    ∀ t, opToken op = some t → a.epochCounter < t.epoch ∧ Made b t)

variable {a b c : Actor D}

theorem Goes.sound (h : Goes a b) (ha : Sound a) : Sound b where
  placed := h.placed
  epochs e link hlink := by
    rcases h.links e link hlink with ⟨old, hold, hcore⟩ | ⟨-, hfresh⟩
    · simp only [core, Prod.mk.injEq] at hcore
      exact hcore.2.2.1.trans (ha.epochs e old hold)
    · exact hfresh.epoch
  right e link hlink := by
    rw [h.selfId]
    rcases h.links e link hlink with ⟨old, hold, hcore⟩ | ⟨-, hfresh⟩
    · simp only [core, Prod.mk.injEq] at hcore
      have hright := ha.right e old hold
      unfold Right at hright ⊢
      rwa [hcore.1, hcore.2.1]
    · exact hfresh.right

theorem Goes.keeps (h : Goes a b) {t : Token} (ht : Made a t) : Made b t := by
  obtain ⟨old, hold, hplayer, hoffer⟩ := ht
  obtain ⟨link, hlink, hcore⟩ := h.stays t.epoch old hold
  simp only [core, Prod.mk.injEq] at hcore
  exact ⟨link, hlink, hcore.1.trans hplayer, hcore.2.1.trans hoffer⟩

theorem Goes.linked (h : Goes a b) {l : Int × Nat} (hl : Linked a l) : Linked b l := by
  obtain ⟨old, hold, howner⟩ := hl
  obtain ⟨link, hlink, hcore⟩ := h.stays l.2 old hold
  simp only [core, Prod.mk.injEq] at hcore
  exact ⟨link, hlink, hcore.1.trans howner⟩

theorem Goes.trans (h : Goes a b) (h' : Goes b c) : Goes a c where
  placed := h'.placed
  selfId := h'.selfId.trans h.selfId
  closed := h'.closed.trans h.closed
  sent := h'.sent.trans h.sent
  counter := Nat.le_trans h.counter h'.counter
  peers p e hp := by
    rcases h'.peers p e hp with hold | hnew
    · exact h.peers p e hold
    · exact .inr (Nat.lt_of_le_of_lt h.counter hnew)
  stays e old hold := by
    obtain ⟨link, hlink, hcore⟩ := h.stays e old hold
    obtain ⟨link', hlink', hcore'⟩ := h'.stays e link hlink
    exact ⟨link', hlink', hcore'.trans hcore⟩
  links e link hlink := by
    rcases h'.links e link hlink with ⟨old, hold, hcore⟩ | ⟨hnew, hfresh⟩
    · rcases h.links e old hold with ⟨first, hfirst, hsame⟩ | ⟨hnew, hfresh⟩
      · exact .inl ⟨first, hfirst, hcore.trans hsame⟩
      · simp only [core, Prod.mk.injEq] at hcore
        obtain ⟨hplayer, hinitiator, hepoch, hremote, hpending, hadded⟩ := hcore
        refine .inr ⟨hnew, hepoch.trans hfresh.epoch, ?_, hremote.trans hfresh.remote,
          hpending.trans hfresh.pending, hadded.trans hfresh.added⟩
        have hright := hfresh.right
        unfold Right at hright ⊢
        rwa [hplayer, hinitiator]
    · refine .inr ⟨Nat.lt_of_le_of_lt h.counter hnew, ?_⟩
      rw [← h.selfId]
      exact hfresh
  timers t ht := by
    rcases h'.timers t ht with hold | hnew
    · exact h.timers t hold
    · rw [h.selfId] at hnew
      exact .inr hnew
  ops e := by
    have hfirst := h.ops e
    have hsecond := h'.ops e
    have hcounter := h.counter
    have hcounter' := h'.counter
    split_ifs at hfirst hsecond ⊢ <;> omega
  made op hop := by
    rcases h'.made op hop with hold | ⟨hlink, hmade⟩
    · rcases h.made op hold with hold | ⟨hlink, hmade⟩
      · exact .inl hold
      · refine .inr ⟨h'.linked hlink, fun t ht => ?_⟩
        obtain ⟨hnew, hmade⟩ := hmade t ht
        exact ⟨hnew, h'.keeps hmade⟩
    · refine .inr ⟨hlink, fun t ht => ?_⟩
      obtain ⟨hnew, hmade⟩ := hmade t ht
      exact ⟨Nat.lt_of_le_of_lt h.counter hnew, hmade⟩

/-- The part of the actor that the operations are about. -/
def frame (a : Actor D) : Int × Bool × List (Sent D) × Nat × (Int → Option Nat) × List (Int × Nat × Nat) ×
    List Op :=
  (a.selfId, a.closed, a.sent, a.epochCounter, a.peers, a.timers, a.ops)

theorem Goes.fewer (hb : Placed b) (hself : b.selfId = a.selfId) (hclosed : b.closed = a.closed)
    (hsent : b.sent = a.sent) (hcounter : b.epochCounter = a.epochCounter)
    (hpeers : ∀ p e, b.peers p = some e → a.peers p = some e)
    (hstays : ∀ e old, a.links e = some old → ∃ link, b.links e = some link ∧ core link = core old)
    (hlinks : ∀ e link, b.links e = some link → ∃ old, a.links e = some old ∧ core link = core old)
    (htimers : ∀ t ∈ b.timers, t ∈ a.timers ∨ a.selfId < t.1) (hops : b.ops = a.ops) : Goes a b where
  placed := hb
  selfId := hself
  closed := hclosed
  sent := hsent
  counter := Nat.le_of_eq hcounter.symm
  peers p e hp := .inl (hpeers p e hp)
  stays := hstays
  links e link hlink := .inl (hlinks e link hlink)
  timers := htimers
  ops e := by
    rw [hops]
    exact Nat.le_add_right _ _
  made op hop := .inl (hops ▸ hop)

theorem Goes.same (h : Placed a) (hframe : frame b = frame a) (hlinks : b.links = a.links) :
    Goes a b := by
  simp only [frame, Prod.mk.injEq] at hframe
  obtain ⟨hself, hclosed, hsent, hcounter, hpeers, htimers, hops⟩ := hframe
  refine Goes.fewer (h.congr hpeers hlinks hcounter hclosed) hself hclosed hsent hcounter
    (fun p e hp => hpeers ▸ hp) (fun e old hold => ⟨old, hlinks ▸ hold, rfl⟩)
    (fun e link hlink => ⟨link, hlinks ▸ hlink, rfl⟩) (fun t ht => .inl (htimers ▸ ht)) hops

theorem Goes.refl (h : Placed a) : Goes a a := .same h rfl rfl

theorem goes_modifyLink (h : Placed a) (epoch : Nat) {f : PeerLink D → PeerLink D}
    (hf : ∀ link, core (f link) = core link) (hclosed : ∀ link, (f link).closed = link.closed) :
    Goes a (a.modifyLink epoch f) := by
  have hplace (link : PeerLink D) : place (f link) = place link := by
    have hcore := hf link
    simp only [core, Prod.mk.injEq] at hcore
    simp only [place, hcore.2.2.1, hcore.1, hclosed link]
  refine Goes.fewer (h.modifyLink epoch hplace) rfl rfl rfl rfl (fun _ _ hp => hp) ?_ ?_
    (fun _ ht => .inl ht) rfl
  · intro e old hold
    by_cases he : e = epoch
    · subst he
      exact ⟨f old, by simp [Actor.modifyLink, hold], hf old⟩
    · exact ⟨old, (Function.update_of_ne he ..).trans hold, rfl⟩
  · intro e link hlink
    by_cases he : e = epoch
    · subst he
      simp only [Actor.modifyLink, Function.update_self, Option.map_eq_some_iff] at hlink
      obtain ⟨old, hold, rfl⟩ := hlink
      exact ⟨old, hold, hf old⟩
    · exact ⟨link, (Function.update_of_ne he ..).symm.trans hlink, rfl⟩

theorem goes_closePeer (h : Placed a) (p : Int) : Goes a (a.closePeer p) := by
  have hplaced := h.closePeer p
  unfold Actor.closePeer at hplaced ⊢
  cases hp : a.peers p with
  | none => exact .refl h
  | some epoch =>
    rw [hp] at hplaced
    refine Goes.fewer hplaced rfl rfl rfl rfl (fun q e hq => ?_) (fun e old hold => ?_)
      (fun e link hlink => ?_) (fun _ ht => .inl ht) rfl
    · have hne : q ≠ p := by
        rintro rfl
        simp at hq
      exact (Function.update_of_ne hne ..).symm.trans hq
    · by_cases he : e = epoch
      · subst he
        exact ⟨old.close, by simp [Actor.modifyLink, hold], rfl⟩
      · exact ⟨old, (Function.update_of_ne he ..).trans hold, rfl⟩
    · by_cases he : e = epoch
      · subst he
        simp only [Actor.modifyLink, Function.update_self, Option.map_eq_some_iff] at hlink
        obtain ⟨old, hold, rfl⟩ := hlink
        exact ⟨old, hold, rfl⟩
      · exact ⟨link, (Function.update_of_ne he ..).symm.trans hlink, rfl⟩

theorem goes_teardownPeers (h : Placed a) : Goes a a.teardownPeers := by
  refine Goes.fewer h.teardownPeers rfl rfl rfl rfl nofun (fun e old hold => ?_)
    (fun e link hlink => ?_) (fun _ ht => .inl ht) rfl
  · refine ⟨if a.peers old.playerId = some e then old.close else old, ?_, ?_⟩
    · simp [Actor.teardownPeers, hold]
    · split_ifs <;> rfl
  · simp only [Actor.teardownPeers, Option.map_eq_some_iff] at hlink
    obtain ⟨old, hold, rfl⟩ := hlink
    refine ⟨old, hold, ?_⟩
    split_ifs <;> rfl

theorem goes_emit (h : Placed a) (e : Event) : Goes a (a.emit e) := by
  unfold Actor.emit
  split_ifs
  · exact .refl h
  · exact .same h rfl rfl

theorem goes_clearStorage (h : Placed a) : Goes a a.clearStorage := by
  unfold Actor.clearStorage
  split
  · exact .refl h
  · exact .same h rfl rfl

theorem linked_of_peer (h : Placed a) {p : Int} {e : Nat} (hpeer : a.peers p = some e) :
    Linked a (p, e) := by
  obtain ⟨link, hlink, -, howner, -⟩ := h.opened p e hpeer
  exact ⟨link, hlink, howner⟩

theorem countP_call (a : Actor D) (op : Op) (e : Nat) :
    (a.call op).ops.countP (fun op => about e (opToken op)) =
      a.ops.countP (fun op => about e (opToken op)) + if about e (opToken op) then 1 else 0 := by
  unfold Actor.call
  rw [List.countP_append, List.countP_singleton]

theorem goes_call (h : Placed a) {op : Op} (htoken : opToken op = none)
    (hlink : Linked a (opLink op)) : Goes a (a.call op) where
  placed := h.congr rfl rfl rfl rfl
  selfId := rfl
  closed := rfl
  sent := rfl
  counter := Nat.le_refl _
  peers _ _ hp := .inl hp
  stays _ old hold := ⟨old, hold, rfl⟩
  links _ link hlink := .inl ⟨link, hlink, rfl⟩
  timers _ ht := .inl ht
  ops e := by
    rw [countP_call, htoken]
    exact Nat.add_le_add_left (Nat.zero_le _) _
  made op' hop' := by
    rcases List.mem_append.1 hop' with hold | hnew
    · exact .inl hold
    · obtain rfl := List.mem_singleton.1 hnew
      exact .inr ⟨hlink, fun t ht => absurd (htoken.symm.trans ht) nofun⟩

theorem goes_createLink (h : Placed a) (hopen : a.closed = false) (env : Env) {p : Int}
    (initiator : Bool) (hright : if initiator then a.selfId < p else p < a.selfId) (op : Nat → Op)
    (htoken : ∀ e, opToken (op e) = some ⟨p, e, initiator⟩) (hfor : ∀ e, opLink (op e) = (p, e)) :
    Goes a (if env.creates p then
      (a.createLink env p initiator).call (op (a.createLink env p initiator).epochCounter)
      else a.createLink env p initiator) := by
  have hplaced := h.createLink hopen env p initiator
  have hdropped := goes_closePeer h p
  unfold Actor.createLink at hplaced ⊢
  simp only at hplaced ⊢
  rw [← hdropped.selfId] at hright
  refine hdropped.trans ?_
  have hmade := hdropped.placed.made
  generalize a.closePeer p = b at hplaced hright hmade ⊢
  split_ifs at hplaced ⊢
  · refine ⟨hplaced.congr rfl rfl rfl rfl, rfl, rfl, rfl, Nat.le_succ _, fun q e hq => ?_,
      fun e old hold => ?_, fun e link hlink => ?_, fun _ ht => .inl ht, fun e => ?_,
      fun op' hop' => ?_⟩
    · by_cases hqp : q = p
      · subst hqp
        simp only [Actor.call, Function.update_self, Option.some.injEq] at hq
        exact .inr (hq ▸ Nat.lt_succ_self _)
      · exact .inl ((Function.update_of_ne hqp ..).symm.trans hq)
    · have hle := hmade e (by simp [hold])
      exact ⟨old, (Function.update_of_ne (by omega) ..).trans hold, rfl⟩
    · by_cases he : e = b.epochCounter + 1
      · subst he
        simp only [Actor.call, Function.update_self, Option.some.injEq] at hlink
        subst hlink
        exact .inr ⟨Nat.lt_succ_self _, rfl, hright, rfl, rfl, rfl⟩
      · exact .inl ⟨link, (Function.update_of_ne he ..).symm.trans hlink, rfl⟩
    · refine (Nat.le_of_eq (countP_call _ _ e)).trans (Nat.add_le_add_left ?_ _)
      simp only [htoken, about, Option.any_some, decide_eq_true_eq]
      by_cases he : b.epochCounter + 1 = e
      · rw [if_pos he, if_pos ⟨he ▸ Nat.lt_succ_self _, Nat.le_of_eq he.symm⟩]
      · rw [if_neg he]
        exact Nat.zero_le _
    · rcases List.mem_append.1 hop' with hold | hnew
      · exact .inl hold
      · obtain rfl := List.mem_singleton.1 hnew
        refine .inr ⟨?_, fun t ht => ?_⟩
        · rw [hfor]
          exact ⟨_, Function.update_self .., rfl⟩
        · obtain rfl := Option.some.inj ((htoken _).symm.trans ht)
          exact ⟨Nat.lt_succ_self _, _, Function.update_self .., rfl, rfl⟩
  · exact ⟨hplaced, rfl, rfl, rfl, Nat.le_succ _, fun _ _ hp => .inl hp,
      fun _ old hold => ⟨old, hold, rfl⟩, fun _ link hlink => .inl ⟨link, hlink, rfl⟩,
      fun _ ht => .inl ht, fun _ => Nat.le_add_right _ _, fun _ hop => .inl hop⟩

theorem goes_initiatePeer (h : Placed a) (env : Env) {p : Int} (hright : a.selfId < p) :
    Goes a (a.initiatePeer env p) := by
  unfold Actor.initiatePeer
  cases hclosed : a.closed with
  | true => exact .refl h
  | false => exact goes_createLink h hclosed env true hright (.createOffer p) (fun _ => rfl) fun _ => rfl

theorem goes_resetPeer (h : Placed a) (env : Env) (p : Int) : Goes a (a.resetPeer env p) := by
  have hdropped := goes_closePeer h p
  have hcleared : Goes a { a.closePeer p with
      rebuildCounts := Function.update (a.closePeer p).rebuildCounts p none } :=
    hdropped.trans (.same hdropped.placed rfl rfl)
  unfold Actor.resetPeer
  simp only
  split_ifs with hself hlt
  · exact .refl h
  · exact hcleared.trans (goes_initiatePeer hcleared.placed env hlt)
  · exact hcleared

theorem goes_handleError (h : Placed a) (code message : JString) :
    Goes a (a.handleError code message) := by
  have hseen : Goes a { a with fatalSeen := true } := .same h rfl rfl
  have hdown := hseen.trans (goes_teardownPeers hseen.placed)
  have hcleared := hdown.trans (goes_clearStorage hdown.placed)
  unfold Actor.handleError
  simp only
  split_ifs
  · exact hcleared.trans (goes_emit hcleared.placed _)
  · exact hdown.trans (goes_emit hdown.placed _)
  · exact hseen.trans (goes_emit hseen.placed _)
  · exact goes_emit h _

theorem goes_handlePlayerLeft (h : Placed a) (pid : Int) (reason : Client.Protocol.PlayerLeftReason) :
    Goes a (a.handlePlayerLeft pid reason) := by
  have hroster (roster : List PlayerInfo) : Goes a (a.setRoster roster) := .same h rfl rfl
  have hdropped (roster : List PlayerInfo) : Goes a ((a.setRoster roster).closePeer pid) :=
    (hroster roster).trans (goes_closePeer (hroster roster).placed pid)
  unfold Actor.handlePlayerLeft
  simp only
  split_ifs
  · exact (hdropped _).trans (goes_emit (hdropped _).placed _)
  · exact (hroster _).trans (goes_emit (hroster _).placed _)

theorem goes_handleWsClosed (h : Placed a) : Goes a a.handleWsClosed := by
  have hseen : Goes a { a with fatalSeen := true } := .same h rfl rfl
  unfold Actor.handleWsClosed
  split_ifs
  · exact hseen.trans (goes_emit hseen.placed _)
  · exact .refl h

theorem goes_handleOffer (h : Placed a) (hopen : a.closed = false) (env : Env) {source : Int}
    (hsource : source ≠ a.selfId) (sdp : Option JString) : Goes a (a.handleOffer env source sdp) := by
  unfold Actor.handleOffer
  by_cases hlt : a.selfId < source
  · rw [if_pos hlt]
    exact .refl h
  rw [if_neg hlt]
  cases sdp with
  | none => exact .refl h
  | some sdp =>
    exact goes_createLink h hopen env false (by simp only [Bool.false_eq_true, if_false]; omega)
      (fun e => .setRemoteOffer source e sdp) (fun _ => rfl) fun _ => rfl

theorem goes_handleAnswer (h : Placed a) (source : Int) (sdp : Option JString) :
    Goes a (a.handleAnswer source sdp) := by
  unfold Actor.handleAnswer
  split
  · exact .refl h
  next link hlink =>
    split_ifs
    · exact .refl h
    · split
      · exact .refl h
      · obtain ⟨hpeer, -⟩ := h.linkTo hlink
        exact goes_call h rfl (linked_of_peer h hpeer)

variable (lib : JavaNumbers D)

/-- The candidate that a message brings, and the epoch of the link that it is for. -/
def arrival (a : Actor D) (m : Members D) : Option (Nat × Members D) :=
  let source := intVal lib m "from" (-1)
  if str lib m "type" ≠ some (units "signal") ∨ a.closed ∨ source = a.selfId then none
  else ((get m (units "payload")).bind asObject).bind fun payload =>
    if str lib payload "kind" ≠ some (units "ice") then none
    else ((get payload (units "candidate")).bind asObject).bind fun candidate =>
      (a.linkTo source).bind fun link =>
        if link.closed then none else some (link.epoch, candidate)

def Actor.bring (a : Actor D) : Option (Nat × Members D) → Actor D
  | none => a
  | some (epoch, candidate) => a.modifyLink epoch (PeerLink.takeCandidate lib candidate)

theorem handleCandidate_eq (h : Placed a) (source : Int) (candidate : Option (Members D)) :
    a.handleCandidate lib source candidate =
      Actor.bring lib a (candidate.bind fun c => (a.linkTo source).bind fun link =>
        if link.closed then none else some (link.epoch, c)) := by
  unfold Actor.handleCandidate
  cases candidate with
  | none => rfl
  | some c =>
    cases hlink : a.linkTo source with
    | none => simp [Actor.bring]
    | some link =>
      obtain ⟨hpeer, -, hopen⟩ := h.linkTo hlink
      simp [hpeer, hopen, Actor.bring]

theorem handleSignal_cases (h : Placed a) (hopen : a.closed = false) (env : Env) (m : Members D)
    (hsignal : str lib m "type" = some (units "signal")) :
    let b := a.handleSignal lib env (intVal lib m "from" (-1)) ((get m (units "payload")).bind asObject)
    (arrival lib a m = none ∧ Goes a b) ∨ ∃ epoch candidate,
      arrival lib a m = some (epoch, candidate) ∧
        b = a.modifyLink epoch (PeerLink.takeCandidate lib candidate) := by
  unfold Actor.handleSignal arrival
  simp only [hsignal, hopen, ne_eq, not_true_eq_false, Bool.false_eq_true, false_or]
  by_cases hown : intVal lib m "from" (-1) = a.selfId
  · rw [if_pos hown, if_pos hown]
    exact .inl ⟨rfl, .refl h⟩
  rw [if_neg hown, if_neg hown]
  cases (get m (units "payload")).bind asObject with
  | none => exact .inl ⟨rfl, .refl h⟩
  | some payload =>
    simp only [Option.bind_some]
    by_cases hice : str lib payload "kind" = some (units "ice")
    · have hoffer : units "ice" ≠ units "offer" := by decide
      have hanswer : units "ice" ≠ units "answer" := by decide
      simp only [hice, Option.some.injEq, hoffer, hanswer, if_false, if_true, not_true_eq_false]
      rw [handleCandidate_eq lib h]
      cases ((get payload (units "candidate")).bind asObject).bind fun candidate =>
          (a.linkTo (intVal lib m "from" (-1))).bind fun link =>
            if link.closed then none else some (link.epoch, candidate) with
      | none => exact .inl ⟨rfl, .refl h⟩
      | some brought => exact .inr ⟨brought.1, brought.2, rfl, rfl⟩
    · rw [if_pos hice]
      refine .inl ⟨rfl, ?_⟩
      split_ifs
      · exact goes_handleOffer h hopen env hown _
      · exact goes_handleAnswer h _ _
      · exact .refl h

/-- A message brings a candidate for a link, or it does what the operations do. -/
theorem handleMembers_cases (h : Placed a) (hopen : a.closed = false) (env : Env) (m : Members D) :
    (arrival lib a m = none ∧ Goes a (a.handleMembers lib env m)) ∨
    ∃ epoch candidate, arrival lib a m = some (epoch, candidate) ∧
      a.handleMembers lib env m = a.modifyLink epoch (PeerLink.takeCandidate lib candidate) := by
  have hmet {b : Actor D} (hb : Goes a b) (e : Event) (p : Int) :
      Goes a ((b.emit e).resetPeer env p) := by
    have htold := hb.trans (goes_emit hb.placed e)
    exact htold.trans (goes_resetPeer htold.placed env p)
  have hroster (roster : List PlayerInfo) : Goes a (a.setRoster roster) := .same h rfl rfl
  unfold Actor.handleMembers
  by_cases hsignal : str lib m "type" = some (units "signal")
  · rw [hsignal]
    exact handleSignal_cases lib h hopen env m hsignal
  · have hnone : arrival lib a m = none := if_pos (.inl hsignal)
    refine .inl ⟨hnone, ?_⟩
    simp only [hsignal, if_false]
    split_ifs
    · exact hmet (hroster _) _ _
    · exact goes_handlePlayerLeft h _ _
    · exact hmet (hroster _) _ _
    · exact hmet (hroster _) _ _
    · have hstarted : Goes a { a with startedFlag := true } := .same h rfl rfl
      exact hstarted.trans (goes_emit hstarted.placed _)
    · exact goes_handleError h _ _
    · exact .refl h

theorem current_iff (h : Placed a) (p : Int) (epoch : Nat) :
    a.linkEpochCurrent p epoch = true ↔ a.peers p = some epoch := by
  unfold Actor.linkEpochCurrent
  cases hlink : a.linkTo p with
  | none =>
    refine ⟨fun hfalse => (by cases hfalse), fun hpeer => ?_⟩
    obtain ⟨link, hsome, -⟩ := h.opened p epoch hpeer
    rw [Actor.linkTo, hpeer, Option.bind_some, hsome] at hlink
    cases hlink
  | some link =>
    obtain ⟨hpeer, -, hopen⟩ := h.linkTo hlink
    simp [hpeer, hopen]

theorem goes_fold {α : Type} {f : Actor D → α → Actor D} {xs : List α}
    (hf : ∀ x ∈ xs, ∀ b, Goes a b → Goes b (f b x)) (h : Placed a) : Goes a (xs.foldl f a) := by
  have hrun (ys : List α) (b : Actor D) (hb : Goes a b) (hys : ∀ y ∈ ys, y ∈ xs) :
      Goes a (ys.foldl f b) := by
    induction ys generalizing b with
    | nil => exact hb
    | cons y rest ih =>
      exact ih (f b y) (hb.trans (hf y (hys y (by simp)) b hb)) fun z hz => hys z (by simp [hz])
  exact hrun xs a (.refl h) fun _ hx => hx

theorem goes_start (h : Placed a) (env : Env) :
    Goes a (a.initialTargets.foldl (fun a p => a.initiatePeer env p) a) := by
  refine goes_fold (fun p hp b hb => goes_initiatePeer hb.placed env ?_) h
  obtain ⟨slot, hslot, rfl⟩ := List.mem_map.1 hp
  have hlow := (List.mem_filter.1 hslot).2
  simp only [Bool.and_eq_true, decide_eq_true_eq] at hlow
  rw [hb.selfId]
  exact hlow.2

theorem goes_bestEffortTo (h : Placed a) (env : Env) (target : Int) (data : Bytes) :
    Goes a (a.bestEffortTo env target data) := by
  unfold Actor.bestEffortTo
  split
  · exact .refl h
  · split_ifs
    · exact .refl h
    · exact .same h rfl rfl

theorem goes_sendChannelFor (h : Placed a) (target : Int) : Goes a (a.sendChannelFor target) := by
  unfold Actor.sendChannelFor
  split
  · exact .refl h
  · exact .same h rfl rfl

theorem goes_handlePeerFailure (h : Sound a) (p : Int) (epoch : Nat) :
    Goes a (a.handlePeerFailure p epoch) := by
  unfold Actor.handlePeerFailure
  split
  · exact .refl h.placed
  next link hlink =>
    obtain ⟨hpeer, howner, -⟩ := h.placed.linkTo hlink
    obtain ⟨link', hsome, hnumber, -⟩ := h.placed.opened p link.epoch hpeer
    simp only
    split_ifs with hno hmany
    · exact .refl h.placed
    · exact .same h.placed rfl rfl
    · have hinitiator : link.initiator = true := by
        simp only [Bool.or_eq_true, Bool.not_eq_true', not_or, Bool.not_eq_false] at hno
        exact hno.1
      have hmine : a.links link.epoch = some link := by
        have hbound := hlink
        rwa [Actor.linkTo, hpeer, Option.bind_some] at hbound
      have hright := h.right link.epoch link hmine
      rw [Right, if_pos hinitiator, howner] at hright
      refine Goes.fewer (h.placed.congr rfl rfl rfl rfl) rfl rfl rfl rfl (fun _ _ hp => hp)
        (fun _ old hold => ⟨old, hold, rfl⟩) (fun _ link hlink => ⟨link, hlink, rfl⟩)
        (fun t ht => ?_) rfl
      rcases List.mem_append.1 ht with hold | hnew
      · exact .inl hold
      · rw [List.mem_singleton.1 hnew]
        exact .inr hright

theorem goes_handlePeerState (h : Sound a) (p : Int) (epoch : Nat) (state : PeerState) :
    Goes a (a.handlePeerState p epoch state) := by
  have htold := goes_emit h.placed (.peerState p state)
  unfold Actor.handlePeerState
  by_cases hcurrent : a.linkEpochCurrent p epoch = true
  · rw [if_neg (by simp [hcurrent])]
    cases state with
    | connected =>
      have hcleared : Goes a { a.emit (.peerState p .connected) with
          rebuildCounts := Function.update (a.emit (.peerState p .connected)).rebuildCounts p none } :=
        htold.trans (.same htold.placed rfl rfl)
      have hlinked := linked_of_peer h.placed ((current_iff h.placed p epoch).1 hcurrent)
      exact hcleared.trans (goes_call hcleared.placed rfl (hcleared.linked hlinked))
    | failed => exact htold.trans (goes_handlePeerFailure (htold.sound h) p epoch)
    | new | connecting | disconnected | closed => exact htold
  · rw [if_pos (by simp [hcurrent])]
    exact .refl h.placed

theorem goes_onReliableData (h : Placed a) (p : Int) (epoch : Nat) (data : Bytes) (now : Int) :
    Goes a (a.onReliableData p epoch data now) := by
  unfold Actor.onReliableData
  split
  · exact .refl h
  · split_ifs
    · exact .refl h
    · split
      · exact .refl h
      · have hread (r : Reassembler Int) : Goes a (a.modifyLink epoch fun link =>
            { link with reassembler := r }) :=
          goes_modifyLink h epoch (fun _ => rfl) fun _ => rfl
        simp only
        split
        · exact hread _
        · exact (hread _).trans (goes_emit (hread _).placed _)

theorem goes_rebuild (h : Placed a) (env : Env) {p : Int} (hright : a.selfId < p) (epoch : Nat) :
    Goes a (a.rebuild env p epoch) := by
  unfold Actor.rebuild
  split_ifs
  · exact .refl h
  · split
    · exact .refl h
    · split_ifs
      · exact goes_initiatePeer h env hright
      · exact .refl h

def taskArrival (env : Env) (a : Actor D) : Tasks.Task D → Option (Nat × Members D)
  | .serverText text =>
    if a.closed then none
    else match parse lib.toJavaLib env.calls text with
      | some (.ok (.map m)) => arrival lib a m
      | _ => none
  | _ => none

/-- What a task does: it says what it has ready, hands on to the stack, brings a candidate, ends
the game, or does what the operations do. -/
inductive Does (env : Env) (a : Actor D) (task : Tasks.Task D) : Actor D → Prop where
  | quiet {b : Actor D} : taskArrival lib env a task = none →
      (∀ p e, described task = some (p, e) → a.peers p ≠ some e) → Goes a b → Does env a task b
  | brings {epoch : Nat} {candidate : Members D} :
      taskArrival lib env a task = some (epoch, candidate) → described task = none →
      Does env a task (a.modifyLink epoch (PeerLink.takeCandidate lib candidate))
  | speaks {p : Int} {epoch : Nat} {payload : Payload D} :
      taskArrival lib env a task = none → described task = none → a.peers p = some epoch →
      sentToken (.signal p epoch payload) = taskToken task →
      Does env a task { a with sent := a.sent ++ [.signal p epoch payload] }
  | flushes {p : Int} {epoch : Nat} : task = .answerSet p epoch → a.peers p = some epoch →
      Does env a task (a.modifyLink epoch (PeerLink.flushCandidates lib))
  | answers {p : Int} {epoch : Nat} : task = .remoteOfferSet p epoch → a.peers p = some epoch →
      Does env a task ((a.modifyLink epoch (PeerLink.flushCandidates lib)).call (.createAnswer p epoch))
  | ends {b : Actor D} : task = .shutdown → a.closed = false → Goes a b → (∀ p, b.peers p = none) →
      Does env a task { b with closed := true, sent := b.sent ++ [.leave] }

theorem does_quiet {env : Env} {task : Tasks.Task D} (hnone : taskArrival lib env a task = none)
    (htask : described task = none) (hgoes : Goes a b) : Does lib env a task b :=
  .quiet hnone (fun _ _ hsome => absurd (htask.symm.trans hsome) nofun) hgoes

theorem does_stale (h : Placed a) {env : Env} {task : Tasks.Task D} {p : Int} {epoch : Nat}
    (hnone : taskArrival lib env a task = none) (htask : described task = some (p, epoch))
    (hstale : ¬a.linkEpochCurrent p epoch = true) : Does lib env a task a := by
  refine .quiet hnone (fun q e hsome => ?_) (.refl h)
  obtain ⟨rfl, rfl⟩ := Prod.mk.inj (Option.some.inj (htask.symm.trans hsome))
  exact fun hpeer => hstale ((current_iff h p epoch).2 hpeer)

theorem does_speaks (h : Placed a) (env : Env) {task : Tasks.Task D} {p : Int} {epoch : Nat}
    {payload : Payload D} (hnone : taskArrival lib env a task = none) (htask : described task = none)
    (htoken : sentToken (.signal p epoch payload) = taskToken task) :
    Does lib env a task
      (if a.linkEpochCurrent p epoch then a.sendSignal p epoch payload else a) := by
  by_cases hcurrent : a.linkEpochCurrent p epoch = true
  · have hpeer := (current_iff h p epoch).1 hcurrent
    have hopen : a.closed ≠ true := fun hclosed =>
      Option.some_ne_none epoch (hpeer.symm.trans (h.gone hclosed p))
    rw [if_pos hcurrent, Actor.sendSignal, if_neg hopen]
    exact .speaks hnone htask hpeer htoken
  · rw [if_neg hcurrent]
    exact does_quiet lib hnone htask (.refl h)

theorem doShutdown_open (hopen : a.closed = false) : a.doShutdown =
    { a.teardownPeers.clearStorage with closed := true, sent := a.sent ++ [.leave] } := by
  unfold Actor.doShutdown Actor.clearStorage
  rw [if_neg (by simp [hopen])]
  cases hpath : a.storagePath <;> simp only [Actor.teardownPeers, hpath]

theorem does_doShutdown (h : Placed a) (env : Env) : Does lib env a .shutdown a.doShutdown := by
  cases hclosed : a.closed with
  | true =>
    rw [Actor.doShutdown, if_pos hclosed]
    exact does_quiet lib rfl rfl (.refl h)
  | false =>
    have hdown := goes_teardownPeers h
    have hcleared := hdown.trans (goes_clearStorage hdown.placed)
    have hnone : ∀ p, a.teardownPeers.clearStorage.peers p = none := fun p => by
      unfold Actor.clearStorage
      split <;> rfl
    rw [doShutdown_open hclosed, ← hcleared.sent]
    exact .ends rfl hclosed hcleared hnone

theorem does_handleServerText (h : Placed a) (env : Env) (text : JString) :
    Does lib env a (.serverText text) (a.handleServerText lib env text) := by
  unfold Actor.handleServerText
  cases hclosed : a.closed with
  | true => exact does_quiet lib (by simp [taskArrival, hclosed]) rfl (.refl h)
  | false =>
    simp only [Bool.false_eq_true, if_false]
    split
    next m hparsed =>
      have harrival : taskArrival lib env a (.serverText text) = arrival lib a m := by
        simp [taskArrival, hclosed, hparsed]
      rcases handleMembers_cases lib h hclosed env m with ⟨hnone, hgoes⟩ | ⟨e, c, hsome, heq⟩
      · exact does_quiet lib (harrival.trans hnone) rfl hgoes
      · rw [heq]
        exact .brings (harrival.trans hsome) rfl
    next hother =>
      refine does_quiet lib ?_ rfl (.refl h)
      simp only [taskArrival, hclosed, Bool.false_eq_true, if_false]

theorem does_runTask (h : Sound a) (env : Env) {task : Tasks.Task D}
    (hdue : ∀ p epoch, task = .rebuild p epoch → a.selfId < p) :
    Does lib env a task (a.runTask lib env task) := by
  have hplaced := h.placed
  cases task with
  | start => exact does_quiet lib rfl rfl (goes_start hplaced env)
  | serverText text => exact does_handleServerText lib hplaced env text
  | wsClosed => exact does_quiet lib rfl rfl (goes_handleWsClosed hplaced)
  | localOfferSet p epoch sdp | localAnswerSet p epoch sdp | iceCandidate p epoch candidate =>
    exact does_speaks lib hplaced env rfl rfl rfl
  | remoteOfferSet p epoch =>
    simp only [Actor.runTask, Actor.onRemoteOfferSet]
    by_cases hcurrent : a.linkEpochCurrent p epoch = true
    · have hpeer := (current_iff hplaced p epoch).1 hcurrent
      rw [if_neg (by simp [hcurrent]), Actor.flushCandidates, hpeer]
      exact .answers rfl hpeer
    · rw [if_pos (by simp [hcurrent])]
      exact does_stale lib hplaced rfl rfl hcurrent
  | answerSet p epoch =>
    simp only [Actor.runTask]
    by_cases hcurrent : a.linkEpochCurrent p epoch = true
    · have hpeer := (current_iff hplaced p epoch).1 hcurrent
      rw [if_pos hcurrent, Actor.flushCandidates, hpeer]
      exact .flushes rfl hpeer
    · rw [if_neg hcurrent]
      exact does_stale lib hplaced rfl rfl hcurrent
  | candidatePair | bestEffortData =>
    simp only [Actor.runTask]
    split_ifs
    · exact does_quiet lib rfl rfl (goes_emit hplaced _)
    · exact does_quiet lib rfl rfl (.refl hplaced)
  | connectionChange p epoch state => exact does_quiet lib rfl rfl (goes_handlePeerState h p epoch state)
  | reliableData p epoch data now => exact does_quiet lib rfl rfl (goes_onReliableData hplaced p epoch data now)
  | rebuild p epoch => exact does_quiet lib rfl rfl (goes_rebuild hplaced env (hdue p epoch rfl) epoch)
  | submitReliable target =>
    simp only [Actor.runTask]
    split_ifs
    · exact does_quiet lib rfl rfl (.refl hplaced)
    · exact does_quiet lib rfl rfl (goes_sendChannelFor hplaced target)
  | submitBestEffort target data => exact does_quiet lib rfl rfl (goes_bestEffortTo hplaced env target data)
  | submitBroadcast data =>
    exact does_quiet lib rfl rfl (goes_fold (fun p _ b hb => goes_bestEffortTo hb.placed env p data) hplaced)
  | shutdown => exact does_doShutdown lib hplaced env

end Lobbylink.Java.Discipline
