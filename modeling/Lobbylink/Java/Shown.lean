import Lobbylink.Client.Story
import Lobbylink.Java.Accessors
import Lobbylink.Java.Tasks

/-! What the actor of the Java client has in common with the story of a client: it shows the
same links, roster, token and events, as Java writes them. -/
namespace Lobbylink.Java.Telling
open Json Messages Reliable Tasks Accessors System.Wire Lib.Runs
open Client.Protocol (PlayerId ServerMessage SignalPayload WirePlayer PlayerLeftReason JoinedMsg)
open Client.Roster (updateRoster rosterFromSnapshot applyWire)
open Client.Native (PeerState MessageKind)
open Client.Story (Session Tie Reader Happening)

variable {D : Type}

def reader : Reader (Reassembler Int) where
  empty := .empty
  take := fun r data now =>
    match Reliable.parse data with
    | .error _ => (r, none)
    | .ok frame => r.push frame now

def tieOf (link : PeerLink D) : Tie (Reassembler Int) :=
  ⟨link.epoch, link.initiator, link.reassembler⟩

def slot (p : Client.Roster.PlayerInfo) : PlayerInfo := ⟨p.id, p.occupied, p.connected⟩

def event : Client.Native.Event → Event
  | .message sender kind data => .message sender kind data
  | .playerJoined p => .playerJoined p
  | .playerLeft p reason => .playerLeft p reason
  | .playerRejoined p wasReplacement => .playerRejoined p wasReplacement
  | .playerReplaced p => .playerReplaced p
  | .started => .started
  | .peerState p state => .peerState p state
  | .candidatePair p localType remoteType => .candidatePair p localType remoteType
  | .lobbyError code message => .lobbyError (utf16 code) (utf16 message)
  | .signalingClosed code message => .signalingClosed (utf16 code) (utf16 message)

def byInt {α : Type} (f : PlayerId → Option α) (p : Int) : Option α :=
  if 0 ≤ p then f p.toNat else none

/-- The part of the actor that the story is about. -/
structure View where
  selfId : Int
  maxPlayers : Int
  roster : List PlayerInfo
  started : Bool
  ties : Int → Option (Tie (Reassembler Int))
  attempts : Nat
  failures : Int → Option Nat
  retries : List (Int × Nat × Nat)
  ended : Bool
  closed : Bool
  keeps : Bool
  token : Option JString
  told : List Event

def view (a : Actor D) : View where
  selfId := a.selfId
  maxPlayers := a.maxPlayers
  roster := a.roster
  started := a.startedFlag
  ties := fun p => (a.linkTo p).map tieOf
  attempts := a.epochCounter
  failures := a.rebuildCounts
  retries := a.timers
  ended := a.fatalSeen
  closed := a.closed
  keeps := a.storagePath.isSome
  token := a.store
  told := a.events

def written (s : Session (Reassembler Int)) : View where
  selfId := s.selfId
  maxPlayers := s.maxPlayers
  roster := s.roster.map slot
  started := s.started
  ties := byInt s.ties
  attempts := s.attempts
  failures := byInt s.failures
  retries := s.retries.map fun t => (t.1, t.2.1, t.2.2)
  ended := s.ended
  closed := s.closed
  keeps := s.keeps
  token := s.token.map utf16
  told := s.told.map event

/-- The links in their places are open, and none is still to come. -/
structure Placed (a : Actor D) : Prop where
  opened : ∀ p e, a.peers p = some e →
    ∃ link, a.links e = some link ∧ link.epoch = e ∧ link.playerId = p ∧ link.closed = false
  made : ∀ e, a.links e ≠ none → e ≤ a.epochCounter
  gone : a.closed = true → ∀ p, a.peers p = none

structure Shows (a : Actor D) (s : Session (Reassembler Int)) : Prop where
  view : view a = written s
  placed : Placed a
  ids : s.roster.map Client.Roster.PlayerInfo.id = List.range s.maxPlayers

variable {a : Actor D} {s : Session (Reassembler Int)}

theorem byInt_update {α : Type} (f : PlayerId → Option α) (p : PlayerId) (x : Option α) :
    Function.update (byInt f) p x = byInt (Function.update f p x) := by
  funext q
  unfold byInt
  by_cases hq : q = p
  · subst hq
    simp
  · rw [Function.update_of_ne hq]
    split_ifs with hpos
    · have hne : q.toNat ≠ p := fun heq => hq (by rw [← heq, Int.toNat_of_nonneg hpos])
      rw [Function.update_of_ne hne]
    · rfl

theorem byInt_natCast {α : Type} (f : PlayerId → Option α) (p : PlayerId) : byInt f p = f p := by
  simp [byInt]

theorem byInt_none {α : Type} : byInt (fun _ => none) = fun _ => (none : Option α) :=
  funext fun _ => ite_self none

theorem view_emit (h : a.closed = false) (e : Event) :
    view (a.emit e) = { view a with told := (view a).told ++ [e] } := by
  unfold Actor.emit
  rw [if_neg (by simp [h])]
  rfl

theorem linkTo_modifyLink (a : Actor D) (epoch : Nat) (f : PeerLink D → PeerLink D) (p : Int) :
    (a.modifyLink epoch f).linkTo p =
      (a.linkTo p).map fun link => if a.peers p = some epoch then f link else link := by
  unfold Actor.linkTo Actor.modifyLink
  cases hp : a.peers p with
  | none => rfl
  | some e =>
    simp only [Option.bind_some, Option.some.injEq, Function.update_apply]
    by_cases he : e = epoch
    · subst he
      simp
    · simp [he]

theorem view_modifyLink (a : Actor D) (epoch : Nat) {f : PeerLink D → PeerLink D}
    (hf : ∀ link, tieOf (f link) = tieOf link) : view (a.modifyLink epoch f) = view a := by
  have hties : (fun p => ((a.modifyLink epoch f).linkTo p).map tieOf) = (view a).ties := by
    funext p
    rw [linkTo_modifyLink, Option.map_map]
    refine congrArg (fun g => (a.linkTo p).map g) (funext fun link => ?_)
    simp only [Function.comp_apply]
    split_ifs
    · exact hf link
    · rfl
  exact congrArg (fun ties => { view a with ties := ties }) hties

theorem linkTo_update (a : Actor D) (p q : Int) :
    ({ a with peers := Function.update a.peers p none } : Actor D).linkTo q =
      if q = p then none else a.linkTo q := by
  unfold Actor.linkTo
  by_cases hq : q = p
  · simp [hq]
  · simp [hq]

theorem view_closePeer (a : Actor D) (p : Int) :
    view (a.closePeer p) = { view a with ties := Function.update (view a).ties p none } := by
  unfold Actor.closePeer
  cases hp : a.peers p with
  | none =>
    have hsame : Function.update (view a).ties p none = (view a).ties :=
      Function.update_eq_self_iff.2 (by simp [view, Actor.linkTo, hp])
    rw [hsame]
  | some epoch =>
    have hclosed := view_modifyLink a epoch (f := PeerLink.close) fun _ => rfl
    have hties : (fun q => (({ a.modifyLink epoch PeerLink.close with
        peers := Function.update a.peers p none } : Actor D).linkTo q).map tieOf) =
          Function.update (view a).ties p none := by
      funext q
      have hlink := linkTo_update (a.modifyLink epoch PeerLink.close) p q
      refine (congrArg (Option.map tieOf) hlink).trans ?_
      by_cases hq : q = p
      · subst hq
        rw [Function.update_self, if_pos rfl]
        rfl
      · rw [Function.update_of_ne hq, if_neg hq]
        exact congrFun (congrArg View.ties hclosed) q
    exact congrArg (fun ties => { view a with ties := ties }) hties

theorem view_teardownPeers (a : Actor D) :
    view a.teardownPeers = { view a with ties := fun _ => none } := rfl

theorem view_clearStorage (a : Actor D) : view a.clearStorage =
    if (view a).keeps then { view a with token := none } else view a := by
  have hkeeps : (view a).keeps = a.storagePath.isSome := rfl
  rw [hkeeps]
  unfold Actor.clearStorage
  split
  next hpath => simp [hpath]
  next hpath => exact (if_pos (congrArg Option.isSome hpath)).symm

theorem view_sendSignal (a : Actor D) (target : Int) (epoch : Nat) (payload : Payload D) :
    view (a.sendSignal target epoch payload) = view a := by
  unfold Actor.sendSignal
  split_ifs <;> rfl

theorem linkTo_closePeer (a : Actor D) (p : Int) : (a.closePeer p).linkTo p = none :=
  Option.map_eq_none_iff.1 ((congrFun (congrArg View.ties (view_closePeer a p)) p).trans
    (Function.update_self ..))

def place (link : PeerLink D) : Nat × Int × Bool := (link.epoch, link.playerId, link.closed)

theorem Placed.congr {b : Actor D} (h : Placed a) (hpeers : b.peers = a.peers)
    (hlinks : b.links = a.links) (hcounter : b.epochCounter = a.epochCounter)
    (hclosed : b.closed = a.closed) : Placed b where
  opened p e hp := by
    rw [hlinks]
    exact h.opened p e (hpeers ▸ hp)
  made e he := by
    rw [hcounter]
    exact h.made e (hlinks ▸ he)
  gone hgone p := by
    rw [hpeers]
    exact h.gone (hclosed ▸ hgone) p

theorem Placed.linkTo (h : Placed a) {p : Int} {link : PeerLink D} (hlink : a.linkTo p = some link) :
    a.peers p = some link.epoch ∧ link.playerId = p ∧ link.closed = false := by
  obtain ⟨e, he, hl⟩ := Option.bind_eq_some_iff.1 hlink
  obtain ⟨link', hl', rfl, hrest⟩ := h.opened p e he
  obtain rfl := Option.some.inj (hl.symm.trans hl')
  exact ⟨he, hrest⟩

theorem Placed.modifyLink (h : Placed a) (epoch : Nat) {f : PeerLink D → PeerLink D}
    (hf : ∀ link, place (f link) = place link) : Placed (a.modifyLink epoch f) where
  opened p e hp := by
    obtain ⟨link, hlink, hnumber, howner, hopen⟩ := h.opened p e hp
    have hplace := hf link
    simp only [place, Prod.mk.injEq] at hplace
    by_cases he : e = epoch
    · subst he
      refine ⟨f link, ?_, hplace.1.trans hnumber, hplace.2.1.trans howner, hplace.2.2.trans hopen⟩
      simp [Actor.modifyLink, hlink]
    · exact ⟨link, (Function.update_of_ne he ..).trans hlink, hnumber, howner, hopen⟩
  made e he := by
    refine h.made e fun hnone => he ?_
    by_cases heq : e = epoch
    · subst heq
      simp [Actor.modifyLink, hnone]
    · exact (Function.update_of_ne heq ..).trans hnone
  gone := h.gone

theorem Placed.closePeer (h : Placed a) (p : Int) : Placed (a.closePeer p) := by
  unfold Actor.closePeer
  cases hp : a.peers p with
  | none => exact h
  | some epoch =>
    obtain ⟨old, hold, -, howner, -⟩ := h.opened p epoch hp
    refine ⟨fun q e hq => ?_, fun e he => ?_, fun hgone q => ?_⟩
    · have hne : q ≠ p := by
        rintro rfl
        simp at hq
      obtain ⟨link, hlink, hnumber, hplayer, hopen⟩ := h.opened q e
        ((Function.update_of_ne hne ..).symm.trans hq)
      have heq : e ≠ epoch := by
        rintro rfl
        obtain rfl : link = old := Option.some.inj (hlink.symm.trans hold)
        exact hne (hplayer.symm.trans howner)
      exact ⟨link, (Function.update_of_ne heq ..).trans hlink, hnumber, hplayer, hopen⟩
    · refine h.made e fun hnone => he ?_
      by_cases heq : e = epoch
      · subst heq
        simp [Actor.modifyLink, hnone]
      · exact (Function.update_of_ne heq ..).trans hnone
    · have hempty := h.gone hgone p
      rw [hp] at hempty
      cases hempty

theorem closed_closePeer (a : Actor D) (p : Int) : (a.closePeer p).closed = a.closed :=
  congrArg View.closed (view_closePeer a p)

theorem epochCounter_closePeer (a : Actor D) (p : Int) :
    (a.closePeer p).epochCounter = a.epochCounter :=
  congrArg View.attempts (view_closePeer a p)

theorem Placed.createLink (h : Placed a) (hopen : a.closed = false) (env : Env) (p : Int)
    (initiator : Bool) : Placed (a.createLink env p initiator) := by
  have hdropped := h.closePeer p
  have hstays := (closed_closePeer a p).trans hopen
  unfold Actor.createLink
  simp only
  split_ifs
  · refine ⟨fun q e hq => ?_, fun e he => ?_, fun hgone => ?_⟩
    · by_cases hne : q = p
      · subst hne
        simp only [Function.update_self, Option.some.injEq] at hq
        subst hq
        exact ⟨_, Function.update_self .., rfl, rfl, rfl⟩
      · obtain ⟨link, hlink, hrest⟩ := hdropped.opened q e
          ((Function.update_of_ne hne ..).symm.trans hq)
        have hold := hdropped.made e (by simp [hlink])
        exact ⟨link, (Function.update_of_ne (by omega) ..).trans hlink, hrest⟩
    · by_cases heq : e = (a.closePeer p).epochCounter + 1
      · exact Nat.le_of_eq heq
      · exact Nat.le_succ_of_le
          (hdropped.made e fun hnone => he ((Function.update_of_ne heq ..).trans hnone))
    · exact absurd (hstays.symm.trans hgone) (by decide)
  · exact ⟨hdropped.opened, fun e he => Nat.le_succ_of_le (hdropped.made e he), hdropped.gone⟩

theorem linkTo_put (b : Actor D) (epoch : Nat) (p : Int) (link : PeerLink D)
    (channels : Int → Option (Option Nat)) (h : ∀ e, b.links e ≠ none → e ≠ epoch) (hb : Placed b)
    (q : Int) :
    ({ b with
      epochCounter := epoch
      peers := Function.update b.peers p (some epoch)
      links := Function.update b.links epoch (some link)
      sendChannels := channels } : Actor D).linkTo q = if q = p then some link else b.linkTo q := by
  unfold Actor.linkTo
  by_cases hq : q = p
  · subst hq
    simp
  · simp only [Function.update_of_ne hq, if_neg hq]
    cases he : b.peers q with
    | none => rfl
    | some e =>
      obtain ⟨old, hold, -⟩ := hb.opened q e he
      exact Function.update_of_ne (h e (by simp [hold])) ..

theorem view_createLink (h : Placed a) (env : Env) (p : Int) (initiator : Bool) :
    view (a.createLink env p initiator) = { view a with
      attempts := (view a).attempts + 1
      ties := Function.update (view a).ties p (if env.creates p then
        some ⟨(view a).attempts + 1, initiator, reader.empty⟩ else none) } := by
  have hdropped := view_closePeer a p
  have hcounter := epochCounter_closePeer a p
  have hnew : ∀ e, (a.closePeer p).links e ≠ none → e ≠ (a.closePeer p).epochCounter + 1 :=
    fun e he => Nat.ne_of_lt (Nat.lt_succ_of_le ((h.closePeer p).made e he))
  unfold Actor.createLink
  simp only
  split_ifs
  · have hties := funext fun q => congrArg (Option.map tieOf) (linkTo_put (a.closePeer p) _ p
      ⟨p, initiator, (a.closePeer p).epochCounter + 1, false, .stable, false, .empty, some [], []⟩
      (Function.update (a.closePeer p).sendChannels p
        (((a.closePeer p).sendChannels p).map fun _ => some ((a.closePeer p).epochCounter + 1)))
      hnew (h.closePeer p) q)
    refine (congrArg (fun ties => { view (a.closePeer p) with
      attempts := (a.closePeer p).epochCounter + 1, ties := ties }) (hties.trans ?_)).trans (b := {
        view (a.closePeer p) with
        attempts := (a.closePeer p).epochCounter + 1
        ties := Function.update (view (a.closePeer p)).ties p
          (some ⟨(a.closePeer p).epochCounter + 1, initiator, reader.empty⟩) }) ?_
    · funext q
      by_cases hq : q = p
      · subst hq
        rw [if_pos rfl, Function.update_self]
        rfl
      · rw [if_neg hq, Function.update_of_ne hq]
        rfl
    · rw [hdropped, hcounter, Function.update_idem]
      rfl
  · refine Eq.trans (b := { view (a.closePeer p) with
      attempts := (a.closePeer p).epochCounter + 1 }) rfl ?_
    rw [hdropped, hcounter]
    rfl

theorem Placed.emit (h : Placed a) (e : Event) : Placed (a.emit e) := by
  unfold Actor.emit
  split_ifs
  · exact h
  · exact h.congr rfl rfl rfl rfl

theorem Placed.teardownPeers (h : Placed a) : Placed a.teardownPeers where
  opened p e hp := by cases hp
  made e he := h.made e fun hnone => he (by simp [Actor.teardownPeers, hnone])
  gone _ _ := rfl

theorem Placed.clearStorage (h : Placed a) : Placed a.clearStorage := by
  unfold Actor.clearStorage
  split
  · exact h
  · exact h.congr rfl rfl rfl rfl

theorem Shows.ite {a' : Actor D} {s' : Session (Reassembler Int)} {c d : Prop} [Decidable c]
    [Decidable d] (hcd : c ↔ d) (hyes : d → Shows a s) (hno : ¬d → Shows a' s') :
    Shows (if c then a else a') (if d then s else s') := by
  by_cases hd : d
  · rw [if_pos (hcd.2 hd), if_pos hd]
    exact hyes hd
  · rw [if_neg fun hc => hd (hcd.1 hc), if_neg hd]
    exact hno hd

theorem Shows.closed (h : Shows a s) : a.closed = s.closed := congrArg View.closed h.view

theorem Shows.selfId (h : Shows a s) : a.selfId = s.selfId := congrArg View.selfId h.view

theorem Shows.roster (h : Shows a s) : a.roster = s.roster.map slot := congrArg View.roster h.view

theorem Shows.linkTo (h : Shows a s) (p : PlayerId) : (a.linkTo p).map tieOf = s.ties p :=
  (congrFun (congrArg View.ties h.view) p).trans (byInt_natCast s.ties p)

theorem Shows.emit (h : Shows a s) (hopen : s.closed = false) (e : Client.Native.Event) :
    Shows (a.emit (event e)) (s.tell e) where
  view := by
    rw [view_emit (h.closed.trans hopen), h.view]
    simp [written, Session.tell]
  placed := h.placed.emit _
  ids := h.ids

theorem Shows.call (h : Shows a s) (op : Op) : Shows (a.call op) s :=
  ⟨h.view, h.placed.congr rfl rfl rfl rfl, h.ids⟩

theorem Shows.sendSignal (h : Shows a s) (target : Int) (epoch : Nat) (payload : Payload D) :
    Shows (a.sendSignal target epoch payload) s where
  view := (view_sendSignal a target epoch payload).trans h.view
  placed := by
    unfold Actor.sendSignal
    split_ifs
    · exact h.placed
    · exact h.placed.congr rfl rfl rfl rfl
  ids := h.ids

theorem Shows.modifyLink (h : Shows a s) (epoch : Nat) {f : PeerLink D → PeerLink D}
    (htie : ∀ link, tieOf (f link) = tieOf link) (hplace : ∀ link, place (f link) = place link) :
    Shows (a.modifyLink epoch f) s :=
  ⟨(view_modifyLink a epoch htie).trans h.view, h.placed.modifyLink epoch hplace, h.ids⟩

theorem Shows.closePeer (h : Shows a s) (p : PlayerId) : Shows (a.closePeer p) (s.drop p) where
  view := by
    rw [view_closePeer, h.view]
    simp only [written, Session.drop, byInt_update]
  placed := h.placed.closePeer p
  ids := h.ids

theorem Shows.teardownPeers (h : Shows a s) : Shows a.teardownPeers s.dropAll where
  view := by
    rw [view_teardownPeers, h.view]
    simp only [written, Session.dropAll, byInt_none]
  placed := h.placed.teardownPeers
  ids := h.ids

theorem Shows.clearStorage (h : Shows a s) : Shows a.clearStorage s.forget where
  view := by
    rw [view_clearStorage, h.view]
    unfold Session.forget
    rw [apply_ite written]
    rfl
  placed := h.placed.clearStorage
  ids := by
    unfold Session.forget
    split_ifs
    · exact h.ids
    · exact h.ids

theorem Shows.createLink (h : Shows a s) (hopen : s.closed = false) (env : Env) (p : PlayerId)
    (initiator : Bool) :
    Shows (a.createLink env p initiator) (s.renew reader p initiator (env.creates p)) where
  view := by
    rw [view_createLink h.placed, h.view]
    simp only [written, Session.renew, byInt_update]
  placed := h.placed.createLink (h.closed.trans hopen) env p initiator
  ids := h.ids

theorem Shows.initiatePeer (h : Shows a s) (hopen : s.closed = false) (env : Env) (p : PlayerId) :
    Shows (a.initiatePeer env p) (s.renew reader p true (env.creates p)) := by
  have hmade := h.createLink hopen env p true
  unfold Actor.initiatePeer
  rw [if_neg (by simp [h.closed, hopen])]
  simp only
  split_ifs
  · exact hmade.call _
  · exact hmade

theorem Shows.counted (h : Shows a s) (p : PlayerId) (count : Option Nat) :
    Shows { a with rebuildCounts := Function.update a.rebuildCounts p count }
      { s with failures := Function.update s.failures p count } where
  view := by
    have hcounts : a.rebuildCounts = byInt s.failures := congrArg View.failures h.view
    rw [hcounts, byInt_update]
    exact congrArg (fun v => { v with failures := byInt (Function.update s.failures p count) }) h.view
  placed := h.placed.congr rfl rfl rfl rfl
  ids := h.ids

theorem Shows.scheduled (h : Shows a s) (p : PlayerId) (epoch delay : Nat) :
    Shows { a with timers := a.timers ++ [((p : Int), epoch, delay)] }
      { s with retries := s.retries ++ [(p, epoch, delay)] } where
  view := by
    have htimers : a.timers = s.retries.map fun t => ((t.1 : Int), t.2.1, t.2.2) :=
      congrArg View.retries h.view
    rw [htimers]
    refine (congrArg (fun v => { v with
      retries := s.retries.map (fun t : PlayerId × Nat × Nat => ((t.1 : Int), t.2.1, t.2.2)) ++ [((p : Int), epoch, delay)] })
      h.view).trans ?_
    simp [written]
  placed := h.placed.congr rfl rfl rfl rfl
  ids := h.ids

theorem Shows.resetPeer (h : Shows a s) (hopen : s.closed = false) (env : Env) (p : PlayerId) :
    Shows (a.resetPeer env p) (s.meet reader p (env.creates p)) := by
  have hcleared := (h.closePeer p).counted p none
  unfold Actor.resetPeer Session.meet
  refine Shows.ite (by rw [h.selfId, Nat.cast_inj]) (fun _ => h) fun _ => ?_
  refine Shows.ite ?_ (fun _ => hcleared.initiatePeer hopen env p) fun _ => hcleared
  exact (iff_of_eq (congrArg (· < (p : Int)) hcleared.selfId)).trans Nat.cast_lt

variable {roster : List Client.Roster.PlayerInfo} {n : Nat}

theorem id_eq (h : roster.map Client.Roster.PlayerInfo.id = List.range n) {i : Nat}
    {p : Client.Roster.PlayerInfo} (hp : roster[i]? = some p) : p.id = i := by
  have hi := congrArg (fun ids => ids[i]?) h
  simp only [List.getElem?_map, hp, Option.map_some] at hi
  exact (List.getElem?_eq_some_iff.1 hi.symm).2.symm.trans (List.getElem_range ..)

theorem set_slot (roster : List Client.Roster.PlayerInfo) (i : PlayerId) {f : Client.Roster.PlayerInfo → Client.Roster.PlayerInfo} {q : PlayerInfo}
    (hq : ∀ p, roster[i]? = some p → slot (f p) = q) :
    (roster.map slot).set i q = (roster.modify i f).map slot := by
  refine List.ext_getElem? fun j => ?_
  simp only [List.getElem?_set, List.getElem?_map, List.getElem?_modify, List.length_map]
  cases hj : roster[j]? with
  | none =>
    have hge := List.getElem?_eq_none_iff.1 hj
    split_ifs
    · omega
    · rfl
    · rfl
  | some p =>
    have hlt := (List.getElem?_eq_some_iff.1 hj).1
    by_cases hij : i = j
    · subst hij
      simp [hlt, hq p hj]
    · simp [hij]

theorem setSlot_eq (h : roster.map Client.Roster.PlayerInfo.id = List.range n) (i : PlayerId)
    (occupied connected : Bool) : setSlot (roster.map slot) i occupied connected =
      (roster.modify i fun p => { p with occupied := occupied, connected := connected }).map slot := by
  have hset := set_slot roster i (f := fun p => { p with occupied := occupied, connected := connected })
    (q := ⟨i, occupied, connected⟩) fun p hp => by
      simp only [slot, id_eq h hp]
  unfold setSlot
  rw [← hset]
  split_ifs with hlt
  · rfl
  · refine (List.set_eq_of_length_le ?_).symm
    simp only [List.length_map] at hlt ⊢
    omega

theorem applyPlayer_eq (lib : JavaNumbers D)
    (h : roster.map Client.Roster.PlayerInfo.id = List.range n) {v : Value D} {w : WirePlayer}
    (hw : wirePlayer v = some w) :
    applyPlayer lib (roster.map slot) v = (applyWire roster w).map slot := by
  obtain ⟨o, ho, hid, hoccupied, hconnected⟩ := members_of_wirePlayer lib hw
  unfold applyPlayer applyWire
  rw [ho]
  simp only [hid, hoccupied, hconnected]
  exact setSlot_eq h w.id w.occupied w.connected

theorem fromSnapshot_eq (lib : JavaNumbers D) (n : Nat) {vs : List (Value D)} {l : List WirePlayer}
    (h : vs.mapM wirePlayer = some l) :
    fromSnapshot lib n (some vs) = (rosterFromSnapshot n l).map slot := by
  have hfold (roster : List Client.Roster.PlayerInfo)
      (hids : roster.map Client.Roster.PlayerInfo.id = List.range n) :
      vs.foldl (applyPlayer lib) (roster.map slot) = (l.foldl applyWire roster).map slot := by
    induction vs generalizing l roster with
    | nil =>
      obtain rfl := Option.some.inj h
      rfl
    | cons v rest ih =>
      rw [List.mapM_cons] at h
      obtain ⟨w, hw, hrest⟩ := Option.bind_eq_some_iff.1 h
      obtain ⟨ws, hws, hl⟩ := Option.bind_eq_some_iff.1 hrest
      obtain rfl := Option.some.inj hl
      rw [List.foldl_cons, List.foldl_cons, applyPlayer_eq lib hids hw]
      exact ih hws _ ((Client.Roster.ids_applyWire roster w).trans hids)
  have hempty := Client.Roster.ids_rosterFromSnapshot n []
  have hstart : ((List.range (n : Int).toNat).map fun (i : Nat) => PlayerInfo.mk i false false) =
      (rosterFromSnapshot n []).map slot := by
    simp [rosterFromSnapshot, slot]
  unfold fromSnapshot
  rw [hstart]
  exact hfold _ hempty

end Lobbylink.Java.Telling
