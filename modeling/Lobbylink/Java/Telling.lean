import Lobbylink.Java.RoundTrip
import Lobbylink.Java.Shown

/-! The Java client goes through the story of a client, for the messages that the Rust client
can read: each of its tasks is in the story what it does to the actor. -/
namespace Lobbylink.Java.Telling
open Json Messages Reliable Tasks Accessors System.Wire Lib.Runs
open Client.Protocol (PlayerId ServerMessage SignalPayload WirePlayer PlayerLeftReason JoinedMsg)
open Client.Roster (updateRoster rosterFromSnapshot applyWire)
open Client.Native (PeerState MessageKind)
open Client.Story (Session Tie Reader Happening)

variable {D : Type} {a : Actor D} {s : Session (Reassembler Int)}

theorem isFatalCode_eq (code : String) :
    isFatalCode (utf16 code) = Client.Protocol.isFatalCode code := by
  simp only [isFatalCode, Client.Protocol.isFatalCode,
    utf16_eq_units "replaced" rfl, utf16_eq_units "session-superseded" rfl,
    utf16_eq_units "room-expired" rfl, utf16_eq_units "slow-consumer" rfl]
  rw [Bool.eq_iff_iff]
  simp [or_assoc]

theorem isGameOverCode_eq (code : String) :
    isGameOverCode (utf16 code) = Client.Protocol.isGameOverCode code := by
  simp only [isGameOverCode, Client.Protocol.isGameOverCode,
    utf16_eq_units "replaced" rfl, utf16_eq_units "session-superseded" rfl,
    utf16_eq_units "room-expired" rfl]
  rw [Bool.eq_iff_iff]
  simp [or_assoc]

theorem closed_forget : s.forget.closed = s.closed := Client.Story.closed_forget s

theorem Shows.handleError (h : Shows a s) (hopen : s.closed = false) (code message : String) :
    Shows (a.handleError (utf16 code) (utf16 message)) (s.refuse code message) := by
  have hseen : Shows { a with fatalSeen := true } { s with ended := true } :=
    ⟨congrArg (fun v => { v with ended := true }) h.view, h.placed.congr rfl rfl rfl rfl, h.ids⟩
  unfold Actor.handleError Session.refuse
  simp only [isFatalCode_eq, isGameOverCode_eq]
  refine Shows.ite Iff.rfl (fun _ => ?_) fun _ => h.emit hopen (.lobbyError code message)
  refine Shows.emit (e := .signalingClosed code message) (Shows.ite Iff.rfl (fun _ => ?_)
    fun _ => hseen) ?_
  · have hcode := utf16_eq_units "session-superseded" rfl (s := code)
    by_cases hold : code = "session-superseded"
    · rw [if_neg (not_not.2 (hcode.2 hold)), if_pos hold]
      exact hseen.teardownPeers
    · rw [if_pos (mt hcode.1 hold), if_neg hold]
      exact hseen.teardownPeers.clearStorage
  · split_ifs
    · exact hopen
    · exact closed_forget.trans hopen
    · exact hopen

theorem leftReason_eq (reason : String) :
    leftReason (utf16 reason) = PlayerLeftReason.fromWire reason := by
  simp only [leftReason, PlayerLeftReason.fromWire, utf16_eq_units "explicit-leave" rfl]

variable (lib : JavaNumbers D)

def Kept (f : PeerLink D → PeerLink D) : Prop :=
  ∀ link, tieOf (f link) = tieOf link ∧ place (f link) = place link

theorem kept_addCandidate (candidate : Members D) :
    Kept fun link => link.addCandidate lib candidate := by
  intro link
  unfold PeerLink.addCandidate
  split <;> exact ⟨rfl, rfl⟩

theorem kept_flushCandidates : Kept (PeerLink.flushCandidates lib : PeerLink D → PeerLink D) := by
  intro link
  have hfold (pending : List (Members D)) (link : PeerLink D) :
      tieOf (pending.foldl (PeerLink.addCandidate lib) link) = tieOf link ∧
        place (pending.foldl (PeerLink.addCandidate lib) link) = place link := by
    induction pending generalizing link with
    | nil => exact ⟨rfl, rfl⟩
    | cons candidate rest ih =>
      have hadd := kept_addCandidate lib candidate link
      exact ⟨(ih _).1.trans hadd.1, (ih _).2.trans hadd.2⟩
  unfold PeerLink.flushCandidates
  split
  · exact ⟨rfl, rfl⟩
  · exact hfold _ _

theorem kept_takeCandidate (candidate : Members D) : Kept (PeerLink.takeCandidate lib candidate) := by
  intro link
  unfold PeerLink.takeCandidate
  split
  · exact ⟨rfl, rfl⟩
  · exact kept_addCandidate lib candidate link

theorem Shows.modifyKept (h : Shows a s) (epoch : Nat) {f : PeerLink D → PeerLink D} (hf : Kept f) :
    Shows (a.modifyLink epoch f) s :=
  h.modifyLink epoch (fun link => (hf link).1) fun link => (hf link).2

theorem Shows.handleAnswer (h : Shows a s) (source : Int) (sdp : Option JString) :
    Shows (a.handleAnswer source sdp) s := by
  unfold Actor.handleAnswer
  split
  · exact h
  · split_ifs
    · exact h
    · split
      · exact h
      · exact h.call _

theorem Shows.handleCandidate (h : Shows a s) (source : Int) (candidate : Option (Members D)) :
    Shows (a.handleCandidate lib source candidate) s := by
  unfold Actor.handleCandidate
  split
  · split_ifs
    · exact h
    · exact h.modifyKept _ (kept_takeCandidate lib _)
  · exact h

theorem Shows.handleOffer (h : Shows a s) (hopen : s.closed = false) (env : Env)
    {source : PlayerId} (hsource : source ≠ s.selfId) (sdp : JString) :
    Shows (a.handleOffer env source (some sdp))
      (if s.selfId ≤ source then s else s.renew reader source false (env.creates source)) := by
  have hmade := h.createLink hopen env source false
  unfold Actor.handleOffer
  refine Shows.ite ?_ (fun _ => h) fun _ => ?_
  · rw [h.selfId, Nat.cast_lt]
    exact ⟨Nat.le_of_lt, fun hle => Nat.lt_of_le_of_ne hle hsource.symm⟩
  · simp only
    split_ifs
    · exact hmade.call _
    · exact hmade

/-- What is in a payload that `serde` can read. -/
theorem payload_eq {raw : Value D → String} {m : Members D} {payload : SignalPayload String}
    (h : signalPayload raw (.map m) = some payload) : ∃ kind : String,
      str lib m "kind" = some (utf16 kind) ∧
      (kind = "offer" → ∃ sdp, payload = .offer sdp ∧ str lib m "sdp" = some (utf16 sdp)) ∧
      (kind ≠ "offer" → ∀ sdp, payload ≠ .offer sdp) := by
  simp only [signalPayload, members, Option.bind_eq_bind, Option.bind_some,
    Option.bind_eq_some_iff] at h
  obtain ⟨kind, ⟨v, hv, hkind⟩, h⟩ := h
  refine ⟨kind, str_of_string lib (Option.bind_eq_some_iff.2 ⟨v, hv, hkind⟩), ?_, ?_⟩
  · rintro rfl
    rw [if_pos rfl] at h
    obtain ⟨sdp, hsdp, hp⟩ := Option.bind_eq_some_iff.1 h
    exact ⟨sdp, (Option.some.inj hp).symm, str_of_string lib hsdp⟩
  · intro hne sdp
    rintro rfl
    rw [if_neg hne] at h
    split_ifs at h
    · obtain ⟨_, _, hp⟩ := Option.bind_eq_some_iff.1 h
      cases hp
    · split at h <;> cases h
    · cases h

variable {raw : Value D → String}

theorem Shows.handleSignal (h : Shows a s) (hopen : s.closed = false) (env : Env)
    {m : Members D} (source : PlayerId) {payload : SignalPayload String}
    (hpayload : signalPayload raw (.map m) = some payload) :
    Shows (a.handleSignal lib env source (some m))
      (s.hear reader (.signal source payload) fun p => env.creates p) := by
  obtain ⟨kind, hkind, hoffer, hother⟩ := payload_eq lib hpayload
  have hself : (a.closed = true ∨ (source : Int) = a.selfId) ↔ source = s.selfId := by
    rw [h.closed, hopen, h.selfId, Nat.cast_inj]
    simp
  unfold Actor.handleSignal
  simp only [hkind, Option.some.injEq, utf16_eq_units "offer" rfl,
    utf16_eq_units "answer" rfl, utf16_eq_units "ice" rfl]
  by_cases hk : kind = "offer"
  · obtain ⟨sdp, rfl, hsdp⟩ := hoffer hk
    have hheard : s.hear reader (.signal source (.offer sdp)) (fun p => env.creates p) =
      if s.selfId ≤ source then s else s.renew reader source false (env.creates source) := rfl
    rw [hheard, if_pos hk, hsdp]
    by_cases hsource : source = s.selfId
    · rw [if_pos (hself.2 hsource), if_pos (Nat.le_of_eq hsource.symm)]
      exact h
    · rw [if_neg (mt hself.1 hsource)]
      exact h.handleOffer hopen env hsource (utf16 sdp)
  · have hheard : s.hear reader (.signal source payload) (fun p => env.creates p) = s := by
      cases payload with
      | offer sdp => exact absurd rfl (hother hk sdp)
      | answer | ice | unknown => rfl
    rw [hheard]
    split_ifs
    · exact h
    · exact h.handleAnswer _ _
    · exact h.handleCandidate lib _ _
    · exact h

theorem Shows.setRoster (h : Shows a s) {roster : List Client.Roster.PlayerInfo}
    {written : List PlayerInfo} (hroster : written = roster.map slot)
    (hids : roster.map Client.Roster.PlayerInfo.id = List.range s.maxPlayers) :
    Shows (a.setRoster written) { s with roster := roster } where
  view := by
    subst hroster
    exact congrArg (fun v => { v with roster := roster.map slot }) h.view
  placed := h.placed.congr rfl rfl rfl rfl
  ids := hids

theorem Shows.heard (h : Shows a s) (msg : ServerMessage String) {written : List PlayerInfo}
    (hroster : written = (updateRoster s.maxPlayers s.roster msg).map slot) :
    Shows (a.setRoster written) { s with roster := updateRoster s.maxPlayers s.roster msg } :=
  h.setRoster hroster (Client.Roster.ids_updateRoster s.maxPlayers s.roster msg h.ids)

theorem playerLeft_slots (h : Shows a s) (p : PlayerId) (reason : String) :
    (match slotOf a.roster p with
      | none => a.roster
      | some slot => a.roster.set (p : Int).toNat ⟨p,
          if PlayerLeftReason.fromWire reason = .explicitLeave then false else slot.occupied, false⟩) =
      (updateRoster s.maxPlayers s.roster (.playerLeft p reason : ServerMessage String)).map slot := by
  have hslot : slotOf a.roster p = (s.roster[p]?).map slot := by
    rw [slotOf, if_pos (Int.natCast_nonneg p), Int.toNat_natCast, h.roster, List.getElem?_map]
  rw [hslot, h.roster, Int.toNat_natCast]
  simp only [updateRoster]
  cases hp : s.roster[p]? with
  | none =>
    have hge := List.getElem?_eq_none_iff.1 hp
    cases PlayerLeftReason.fromWire reason <;> simp [List.modify_eq_self hge]
  | some q =>
    have hid := id_eq h.ids hp
    cases PlayerLeftReason.fromWire reason with
    | explicitLeave =>
      refine set_slot s.roster p fun q' hq' => ?_
      rw [hp] at hq'
      cases hq'
      simp [slot, hid]
    | disconnected =>
      refine set_slot s.roster p fun q' hq' => ?_
      rw [hp] at hq'
      cases hq'
      simp [slot, hid]

theorem Shows.met (h : Shows a s) (hopen : s.closed = false) (env : Env)
    (e : Client.Native.Event) (p : PlayerId) : Shows ((a.emit (event e)).resetPeer env p)
      ((s.tell e).meet reader p (env.creates p)) := (h.emit hopen e).resetPeer hopen env p

theorem Shows.handlePlayerLeft (h : Shows a s) (hopen : s.closed = false) (p : PlayerId)
    (reason : String) (makes : PlayerId → Bool) :
    Shows (a.handlePlayerLeft p (leftReason (utf16 reason)))
      (s.hear reader (.playerLeft p reason : ServerMessage String) makes) := by
  have hheard := h.heard (.playerLeft p reason) (playerLeft_slots h p reason)
  unfold Actor.handlePlayerLeft Session.hear
  rw [leftReason_eq]
  refine Shows.emit (Shows.ite Iff.rfl (fun _ => hheard.closePeer p) fun _ => hheard) ?_
    (.playerLeft p (PlayerLeftReason.fromWire reason))
  split_ifs <;> exact hopen

theorem Shows.handleMembers (h : Shows a s) (hopen : s.closed = false) (env : Env)
    {m : Members D} {msg : ServerMessage String} (hmsg : serverMessage raw (.map m) = some msg) :
    Shows (a.handleMembers lib env m) (s.hear reader msg fun p => env.creates p) := by
  have hplaces : a.maxPlayers = s.maxPlayers := congrArg View.maxPlayers h.view
  simp only [serverMessage, members, Option.bind_eq_bind, Option.bind_some,
    Option.bind_eq_some_iff] at hmsg
  obtain ⟨type, htype, hmsg⟩ := hmsg
  have hstr := str_of_string lib (Option.bind_eq_some_iff.2 htype)
  unfold Actor.handleMembers
  simp only [hstr, Option.some.injEq, utf16_eq_units "player-joined" rfl,
    utf16_eq_units "player-left" rfl, utf16_eq_units "player-rejoined" rfl,
    utf16_eq_units "player-replaced" rfl, utf16_eq_units "room-started" rfl,
    utf16_eq_units "signal" rfl, utf16_eq_units "error" rfl]
  split_ifs at hmsg with hjoined hplayer hleft hrejoined hreplaced hstarted hsignal herror
  · subst hjoined
    obtain ⟨joined, -, hmsg⟩ := Option.bind_eq_some_iff.1 hmsg
    obtain rfl := Option.some.inj hmsg
    simp only [String.reduceEq, if_false]
    exact h
  · obtain ⟨p, hp, hmsg⟩ := Option.bind_eq_some_iff.1 hmsg
    obtain ⟨l, hl, hmsg⟩ := Option.bind_eq_some_iff.1 hmsg
    obtain rfl := Option.some.inj hmsg
    obtain ⟨vs, hvs, hread⟩ := asArray_of_players hl
    rw [if_pos hplayer, intVal_of_playerId lib hp, hvs, hplaces, fromSnapshot_eq lib _ hread]
    exact (h.heard (.playerJoined p l) rfl).met hopen env (.playerJoined p) p
  · obtain ⟨p, hp, hmsg⟩ := Option.bind_eq_some_iff.1 hmsg
    obtain ⟨reason, hreason, hmsg⟩ := Option.bind_eq_some_iff.1 hmsg
    obtain rfl := Option.some.inj hmsg
    rw [if_neg hplayer, if_pos hleft, intVal_of_playerId lib hp, strOr_of_string lib hreason]
    exact h.handlePlayerLeft hopen p reason _
  · obtain ⟨p, hp, hmsg⟩ := Option.bind_eq_some_iff.1 hmsg
    obtain ⟨was, hwas, hmsg⟩ := Option.bind_eq_some_iff.1 hmsg
    obtain rfl := Option.some.inj hmsg
    rw [if_neg hplayer, if_neg hleft, if_pos hrejoined, intVal_of_playerId lib hp,
      bool_of_boolean hwas, h.roster, setSlot_eq h.ids]
    exact (h.heard (.playerRejoined p was) rfl).met hopen env (.playerRejoined p was) p
  · obtain ⟨p, hp, hmsg⟩ := Option.bind_eq_some_iff.1 hmsg
    obtain rfl := Option.some.inj hmsg
    rw [if_neg hplayer, if_neg hleft, if_neg hrejoined, if_pos hreplaced,
      intVal_of_playerId lib hp, h.roster, setSlot_eq h.ids]
    exact (h.heard (.playerReplaced p) rfl).met hopen env (.playerReplaced p) p
  · obtain rfl := Option.some.inj hmsg
    rw [if_neg hplayer, if_neg hleft, if_neg hrejoined, if_neg hreplaced, if_pos hstarted]
    have hshown : Shows { a with startedFlag := true } { s with started := true } :=
      ⟨congrArg (fun v => { v with started := true }) h.view, h.placed.congr rfl rfl rfl rfl, h.ids⟩
    exact hshown.emit hopen .started
  · obtain ⟨source, hsource, hmsg⟩ := Option.bind_eq_some_iff.1 hmsg
    obtain ⟨payload, hpayload, hmsg⟩ := Option.bind_eq_some_iff.1 hmsg
    obtain rfl := Option.some.inj hmsg
    obtain ⟨v, hv, hread⟩ := Option.bind_eq_some_iff.1 hpayload
    have hget : get m (units "payload") = some v := hv
    rw [if_neg hplayer, if_neg hleft, if_neg hrejoined, if_neg hreplaced, if_neg hstarted,
      if_pos hsignal, intVal_of_playerId lib hsource, hget]
    cases v with
    | map o => exact h.handleSignal lib hopen env source hread
    | null | bool | long | double | string | list => cases hread
  · obtain ⟨code, hcode, hmsg⟩ := Option.bind_eq_some_iff.1 hmsg
    obtain ⟨message, hmessage, hmsg⟩ := Option.bind_eq_some_iff.1 hmsg
    obtain rfl := Option.some.inj hmsg
    rw [if_neg hplayer, if_neg hleft, if_neg hrejoined, if_neg hreplaced, if_neg hstarted,
      if_neg hsignal, if_pos herror, strOr_of_string lib hcode, strOr_of_string lib hmessage]
    exact h.handleError hopen code message
  · obtain rfl := Option.some.inj hmsg
    rw [if_neg hplayer, if_neg hleft, if_neg hrejoined, if_neg hreplaced, if_neg hstarted,
      if_neg hsignal, if_neg herror]
    exact h

theorem Shows.current (h : Shows a s) (p : PlayerId) (epoch : Nat) :
    a.linkEpochCurrent p epoch = (s.tie p epoch).isSome := by
  have htie := h.linkTo p
  unfold Actor.linkEpochCurrent Session.tie
  rw [← htie]
  cases hlink : a.linkTo p with
  | none => rfl
  | some link =>
    have hopen := (h.placed.linkTo hlink).2.2
    by_cases hepoch : link.epoch = epoch <;> simp [hepoch, hopen, tieOf]

theorem Shows.stranger (h : Shows a s) {p : Int} (hp : p < 0) : a.linkTo p = none := by
  have htie := congrFun (congrArg View.ties h.view) p
  exact Option.map_eq_none_iff.1 (htie.trans (if_neg (by omega)))

theorem Shows.handlePeerFailure (h : Shows a s) (hopen : s.closed = false) (p : PlayerId)
    {link : PeerLink D} (hlink : a.linkTo p = some link) :
    Shows (a.handlePeerFailure p link.epoch) (s.fail p (tieOf link)) := by
  have hcount : a.rebuildCounts p = s.failures p :=
    (congrFun (congrArg View.failures h.view) p).trans (byInt_natCast s.failures p)
  have hcounted := h.counted p (some ((s.failures p).getD 0 + 1))
  unfold Actor.handlePeerFailure Session.fail
  simp only [hlink, hcount]
  by_cases hinitiator : link.initiator = true
  · rw [if_neg (by simp [hinitiator, h.closed, hopen]),
      if_pos (show (tieOf link).initiator = true from hinitiator)]
    by_cases hmany : (s.failures p).getD 0 + 1 ≤ maxPeerRebuilds
    · rw [if_neg (Nat.not_lt.2 hmany), if_pos (c := _ ≤ Client.Native.maxPeerRebuilds) hmany]
      exact hcounted.scheduled p link.epoch _
    · rw [if_pos (Nat.not_le.1 hmany), if_neg (c := _ ≤ Client.Native.maxPeerRebuilds) hmany,
        List.append_nil]
      exact hcounted
  · rw [if_pos (by simp [hinitiator]), if_neg (show ¬(tieOf link).initiator = true from hinitiator)]
    exact h

theorem linkTo_emit (a : Actor D) (e : Event) (p : Int) : (a.emit e).linkTo p = a.linkTo p := by
  unfold Actor.emit
  split_ifs <;> rfl

theorem Shows.handlePeerState (h : Shows a s) (hopen : s.closed = false) (p : PlayerId)
    (epoch : Nat) (state : PeerState) :
    Shows (a.handlePeerState p epoch state) (s.report p epoch state) := by
  have htold := h.emit hopen (.peerState p state)
  unfold Actor.handlePeerState Session.report
  rw [h.current]
  cases htie : s.tie p epoch with
  | none => exact h
  | some tie =>
    obtain ⟨hp, hepoch⟩ := Option.filter_eq_some_iff.1 htie
    obtain ⟨link, hlink, rfl⟩ := Option.map_eq_some_iff.1 ((h.linkTo p).trans hp)
    obtain rfl : link.epoch = epoch := of_decide_eq_true hepoch
    cases state with
    | connected => exact (htold.counted p none).call _
    | failed => exact htold.handlePeerFailure hopen p ((linkTo_emit a _ _).trans hlink)
    | new | connecting | disconnected | closed => exact htold

theorem Shows.held (h : Shows a s) (p : PlayerId) {link : PeerLink D}
    (hlink : a.linkTo p = some link) (r : Reassembler Int) :
    Shows (a.modifyLink link.epoch fun link => { link with reassembler := r })
      { s with ties := Function.update s.ties p (some { tieOf link with held := r }) } where
  view := by
    obtain ⟨hpeer, hplayer, -⟩ := h.placed.linkTo hlink
    have hview : (Telling.view a).ties = byInt s.ties := congrArg View.ties h.view
    have hties : (fun q => ((a.modifyLink link.epoch fun link =>
        { link with reassembler := r }).linkTo q).map tieOf) =
          byInt (Function.update s.ties p (some { tieOf link with held := r })) := by
      rw [← byInt_update, ← hview]
      funext q
      rw [linkTo_modifyLink]
      by_cases hq : q = p
      · subst hq
        rw [Function.update_self, hlink, Option.map_some, if_pos hpeer]
        rfl
      · have hne : a.peers q ≠ some link.epoch := fun hpeer' => by
          have hsame : a.linkTo q = some link := by
            rw [← hlink, Actor.linkTo, Actor.linkTo, hpeer', hpeer]
          exact hq ((h.placed.linkTo hsame).2.1.symm.trans hplayer)
        rw [Function.update_of_ne hq]
        simp [Telling.view, hne]
    refine (congrArg (fun ties => { Telling.view a with ties := ties }) hties).trans ?_
    exact congrArg (fun v => { v with
      ties := byInt (Function.update s.ties p (some { tieOf link with held := r })) }) h.view
  placed := h.placed.modifyLink _ fun _ => rfl
  ids := h.ids

theorem Shows.onReliableData (h : Shows a s) (hopen : s.closed = false) (p : PlayerId)
    (epoch : Nat) (data : Bytes) (now : Int) :
    Shows (a.onReliableData p epoch data now) (s.receive reader p epoch data now) := by
  have htie : s.tie p epoch = ((a.linkTo p).filter fun link => link.epoch = epoch).map tieOf := by
    unfold Session.tie
    rw [← h.linkTo p, Option.filter_map]
    rfl
  unfold Actor.onReliableData Session.receive
  rw [htie]
  cases hlink : a.linkTo p with
  | none => exact h
  | some link =>
    simp only
    by_cases hepoch : link.epoch = epoch
    · subst hepoch
      have hheld := h.held p hlink
      rw [if_neg (not_not.2 rfl), Option.filter_some_pos (p := fun l : PeerLink D =>
        decide (l.epoch = link.epoch)) (decide_eq_true rfl)]
      simp only [Option.map_some]
      cases hparsed : Reliable.parse data with
      | error reason =>
        have htake : reader.take (tieOf link).held data now = (link.reassembler, none) := by
          simp only [reader, hparsed]
          rfl
        have hsame : Function.update s.ties p (some (tieOf link)) = s.ties :=
          Function.update_eq_self_iff.2 (by rw [← h.linkTo p, hlink]; rfl)
        have hkept : Shows a { s with ties := Function.update s.ties p (some (tieOf link)) } := by
          rw [hsame]
          exact h
        rw [htake]
        exact hkept
      | ok frame =>
        have htake : reader.take (tieOf link).held data now = link.reassembler.push frame now := by
          simp only [reader, hparsed]
          rfl
        simp only [htake]
        cases (link.reassembler.push frame now).2 with
        | none => exact hheld _
        | some message => exact (hheld _).emit hopen (.message p .reliable message)
    · rw [if_pos hepoch, Option.filter_some_neg (p := fun l : PeerLink D =>
        decide (l.epoch = epoch)) (by simpa using hepoch)]
      exact h

theorem Shows.rebuild (h : Shows a s) (hopen : s.closed = false) (env : Env) (p : PlayerId)
    (epoch : Nat) :
    Shows (a.rebuild env p epoch) (s.retry reader p epoch env.failed (env.creates p)) := by
  have hslot : slotOf a.roster p = (s.roster[p]?).map slot := by
    rw [slotOf, if_pos (Int.natCast_nonneg p), Int.toNat_natCast, h.roster, List.getElem?_map]
  unfold Actor.rebuild Session.retry
  rw [h.current, hslot]
  by_cases hcan : ((s.tie p epoch).isSome && env.failed) = true
  · obtain ⟨htie, hfailed⟩ := Bool.and_eq_true_iff.1 hcan
    rw [if_neg (by simp [h.closed, hopen, htie, hfailed]), hcan]
    unfold Session.present
    cases hp : s.roster[p]? with
    | none => exact h
    | some q => exact Shows.ite Iff.rfl (fun _ => h.initiatePeer hopen env p) fun _ => h
  · have hskip : (a.closed || !(s.tie p epoch).isSome || !env.failed) = true := by
      rw [Bool.or_assoc, ← Bool.not_and, Bool.eq_false_of_not_eq_true hcan]
      exact Bool.or_true _
    rw [if_pos hskip, Bool.eq_false_of_not_eq_true hcan]
    exact h

theorem Shows.handleWsClosed (h : Shows a s) (hopen : s.closed = false) :
    Shows a.handleWsClosed (s.take reader (.lost : Happening String)) := by
  have hended : a.fatalSeen = s.ended := congrArg View.ended h.view
  have hseen : Shows { a with fatalSeen := true } { s with ended := true } :=
    ⟨congrArg (fun v => { v with ended := true }) h.view, h.placed.congr rfl rfl rfl rfl, h.ids⟩
  unfold Actor.handleWsClosed Session.take
  rw [if_neg (c := s.closed = true) (by simp [hopen])]
  cases hcase : s.ended with
  | true =>
    rw [if_neg (by simp [hended, hcase])]
    exact h
  | false =>
    rw [if_pos (by simp [h.closed, hopen, hended, hcase])]
    exact hseen.emit hopen (.signalingClosed "connection-lost"
      "signaling connection lost; existing peer channels stay up")

theorem initialTargets_eq (h : Shows a s) :
    a.initialTargets = s.targets.map fun p : PlayerId => (p : Int) := by
  unfold Actor.initialTargets Session.targets
  rw [h.roster, h.selfId, List.filter_map, List.map_map, List.map_map]
  refine congrArg (List.map _) (List.filter_congr fun p _ => ?_)
  have hlt : (s.selfId : Int) < p.id ↔ s.selfId < p.id := Nat.cast_lt
  have hne : s.selfId < p.id → p.id ≠ s.selfId := fun h heq => Nat.lt_irrefl _ (heq ▸ h)
  rw [Bool.eq_iff_iff]
  simp only [slot, Function.comp_apply, Bool.and_eq_true, decide_eq_true_eq, hlt, ne_eq, Nat.cast_inj]
  tauto

theorem Shows.start (h : Shows a s) (hopen : s.closed = false) (env : Env) :
    Shows (a.initialTargets.foldl (fun a p => a.initiatePeer env p) a)
      (s.begin reader fun p => env.creates p) := by
  rw [initialTargets_eq h]
  unfold Session.begin
  generalize s.targets = targets
  induction targets generalizing a s with
  | nil => exact h
  | cons p rest ih => exact ih (h.initiatePeer hopen env p) hopen

theorem Shows.doShutdown (h : Shows a s) (hopen : s.closed = false) :
    Shows a.doShutdown s.leave := by
  have hdone : Shows { a with closed := true, sent := a.sent ++ [Sent.leave] }.teardownPeers
      { s with closed := true }.dropAll :=
    ⟨congrArg (fun v => { v with closed := true }) h.teardownPeers.view,
      ⟨fun _ _ hp => (by cases hp), h.teardownPeers.placed.made, fun _ _ => rfl⟩, h.ids⟩
  unfold Actor.doShutdown Session.leave
  rw [if_neg (by simp [h.closed, hopen])]
  exact hdone.clearStorage

/-- What a task is in the story. Nothing comes from a player with a negative id. -/
def happening (lib : JavaNumbers D) (raw : Value D → String) (env : Env) :
    Tasks.Task D → Option (Happening String)
  | .start => some (.begun fun p => env.creates p)
  | .serverText text =>
    match parse lib.toJavaLib env.calls text with
    | some (.ok v) => (serverMessage raw v).map (.message · fun p => env.creates p)
    | _ => none
  | .wsClosed => some .lost
  | .connectionChange p epoch state => p.toNat?.map (.state · epoch state)
  | .reliableData p epoch data now => p.toNat?.map (.frame · epoch data now)
  | .bestEffortData p epoch data => p.toNat?.map (.datagram · epoch data)
  | .candidatePair p epoch localType remoteType => p.toNat?.map (.pair · epoch localType remoteType)
  | .rebuild p epoch => p.toNat?.map (.retry · epoch env.failed fun p => env.creates p)
  | .shutdown => some .leave
  | .localOfferSet .. | .remoteOfferSet .. | .answerSet .. | .localAnswerSet .. | .iceCandidate ..
  | .submitReliable _ | .submitBestEffort .. | .submitBroadcast _ => none

/-- The objects that the client reads are messages that `serde` can read. -/
def Readable (lib : JavaNumbers D) (raw : Value D → String) (env : Env) :
    Tasks.Task D → Prop
  | .serverText text => ∀ m, parse lib.toJavaLib env.calls text = some (.ok (.map m)) →
      (serverMessage raw (.map m)).isSome
  | _ => True

theorem linkEpochCurrent_none {p : Int} (h : a.linkTo p = none) (epoch : Nat) :
    a.linkEpochCurrent p epoch = false := by
  simp [Actor.linkEpochCurrent, h]

theorem Shows.linked (h : Shows a s) (p : Int) (f : Int → Actor D)
    (g : PlayerId → Happening String) (hyes : ∀ q : PlayerId, Shows (f q) (s.take reader (g q)))
    (hno : a.linkTo p = none → f p = a) :
    Shows (f p) ((p.toNat?.map g).elim s (s.take reader)) := by
  by_cases hp : 0 ≤ p
  · obtain ⟨q, rfl⟩ := Int.eq_ofNat_of_zero_le hp
    exact hyes q
  · have hnone : p.toNat? = none := by
      cases p with
      | ofNat q => exact absurd (Int.natCast_nonneg q) hp
      | negSucc q => rfl
    rw [hnone, hno (h.stranger (by omega))]
    exact h

theorem Shows.bestEffortTo (h : Shows a s) (env : Env) (target : Int) (data : Bytes) :
    Shows (a.bestEffortTo env target data) s := by
  unfold Actor.bestEffortTo
  split
  · exact h
  · split_ifs
    · exact h
    · exact ⟨h.view, h.placed.congr rfl rfl rfl rfl, h.ids⟩

theorem Shows.submit (h : Shows a s) (env : Env) (targets : List Int) (data : Bytes) :
    Shows (targets.foldl (fun a p => a.bestEffortTo env p data) a) s := by
  induction targets generalizing a with
  | nil => exact h
  | cons p rest ih => exact ih (h.bestEffortTo env p data)

theorem Shows.sendChannelFor (h : Shows a s) (target : Int) : Shows (a.sendChannelFor target) s := by
  unfold Actor.sendChannelFor
  split
  · exact h
  · exact ⟨h.view, h.placed.congr rfl rfl rfl rfl, h.ids⟩

theorem Shows.flushCandidates (h : Shows a s) (p : Int) : Shows (a.flushCandidates lib p) s := by
  unfold Actor.flushCandidates
  split
  · exact h
  · exact h.modifyKept _ (kept_flushCandidates lib)

theorem Shows.runTask (h : Shows a s) (hopen : s.closed = false) (env : Env) {task : Tasks.Task D}
    (hread : Readable lib raw env task) :
    Shows (a.runTask lib env task) ((happening lib raw env task).elim s (s.take reader)) := by
  have hnot : ¬s.closed = true := by simp [hopen]
  cases task with
  | start =>
    simp only [happening, Option.elim_some, Session.take, if_neg hnot]
    exact h.start hopen env
  | serverText text =>
    simp only [happening, Tasks.Actor.runTask, Actor.handleServerText]
    rw [if_neg (by simp [h.closed, hopen])]
    cases hparsed : parse lib.toJavaLib env.calls text with
    | none => exact h
    | some result =>
      cases result with
      | error thrown => exact h
      | ok v =>
        cases v with
        | map m =>
          obtain ⟨msg, hmsg⟩ := Option.isSome_iff_exists.1 (hread m hparsed)
          simp only [hmsg, Option.map_some, Option.elim_some, Session.take, if_neg hnot]
          exact h.handleMembers lib hopen env hmsg
        | null | bool | long | double | string | list => exact h
  | wsClosed => exact h.handleWsClosed hopen
  | localOfferSet p epoch sdp | localAnswerSet p epoch sdp | iceCandidate p epoch sdp =>
    simp only [happening, Option.elim_none, Tasks.Actor.runTask]
    split_ifs
    · exact h.sendSignal _ _ _
    · exact h
  | remoteOfferSet p epoch =>
    simp only [happening, Option.elim_none, Tasks.Actor.runTask, Actor.onRemoteOfferSet]
    split_ifs
    · exact h
    · exact (h.flushCandidates lib p).call _
  | answerSet p epoch =>
    simp only [happening, Option.elim_none, Tasks.Actor.runTask]
    split_ifs
    · exact h.flushCandidates lib p
    · exact h
  | candidatePair p epoch localType remoteType =>
    refine h.linked p (fun p => if a.linkEpochCurrent p epoch then
      a.emit (.candidatePair p localType remoteType) else a) _ (fun q => ?_) fun hnone => ?_
    · simp only [Session.take, if_neg hnot, h.current]
      exact Shows.ite Iff.rfl (fun _ => h.emit hopen (.candidatePair q localType remoteType)) fun _ => h
    · exact if_neg (by simp [linkEpochCurrent_none hnone])
  | connectionChange p epoch state =>
    refine h.linked p (fun p => a.handlePeerState p epoch state) _ (fun q => ?_) fun hnone => ?_
    · simp only [Session.take, if_neg hnot]
      exact h.handlePeerState hopen q epoch state
    · exact if_pos (by simp [linkEpochCurrent_none hnone])
  | reliableData p epoch data now =>
    refine h.linked p (fun p => a.onReliableData p epoch data now) _ (fun q => ?_) fun hnone => ?_
    · simp only [Session.take, if_neg hnot]
      exact h.onReliableData hopen q epoch data now
    · simp only [Actor.onReliableData, hnone]
  | bestEffortData p epoch data =>
    refine h.linked p (fun p => if a.linkEpochCurrent p epoch then
      a.emit (.message p .bestEffort data) else a) _ (fun q => ?_) fun hnone => ?_
    · simp only [Session.take, if_neg hnot, h.current]
      exact Shows.ite Iff.rfl (fun _ => h.emit hopen (.message q .bestEffort data)) fun _ => h
    · exact if_neg (by simp [linkEpochCurrent_none hnone])
  | rebuild p epoch =>
    refine h.linked p (fun p => a.rebuild env p epoch) _ (fun q => ?_) fun hnone => ?_
    · simp only [Session.take, if_neg hnot]
      exact h.rebuild hopen env q epoch
    · exact if_pos (by simp [linkEpochCurrent_none hnone])
  | submitReliable target =>
    simp only [happening, Option.elim_none, Tasks.Actor.runTask]
    split_ifs
    · exact h
    · exact h.sendChannelFor target
  | submitBestEffort target data => exact h.bestEffortTo env target data
  | submitBroadcast data => exact h.submit env _ data
  | shutdown =>
    simp only [happening, Option.elim_some, Session.take, if_neg hnot]
    exact h.doShutdown hopen

theorem runTask_closed (h : Placed a) (hclosed : a.closed = true) (env : Env)
    (task : Tasks.Task D) : a.runTask lib env task = a := by
  have hnone (p : Int) : a.linkTo p = none := by rw [Actor.linkTo, h.gone hclosed p]; rfl
  have hcurrent (p : Int) (epoch : Nat) := linkEpochCurrent_none (hnone p) epoch
  have hsame (targets : List Int) {f : Actor D → Int → Actor D} (hf : ∀ p, f a p = a) :
      targets.foldl f a = a := by
    induction targets with
    | nil => rfl
    | cons p rest ih => rw [List.foldl_cons, hf, ih]
  have hbest (p : Int) (data : Bytes) : a.bestEffortTo env p data = a := by
    simp only [Actor.bestEffortTo, hnone]
  cases task with
  | start => exact hsame _ fun p => if_pos hclosed
  | serverText text => exact if_pos hclosed
  | wsClosed => exact if_neg (by simp [hclosed])
  | remoteOfferSet p epoch | connectionChange p epoch state | rebuild p epoch =>
    exact if_pos (by simp [hcurrent])
  | localOfferSet p epoch | answerSet p epoch | localAnswerSet p epoch | candidatePair p epoch
  | iceCandidate p epoch | bestEffortData p epoch => exact if_neg (by simp [hcurrent])
  | reliableData p epoch data now => simp only [Actor.runTask, Actor.onReliableData, hnone]
  | submitReliable target => exact if_pos hclosed
  | submitBestEffort target data => exact hbest target data
  | submitBroadcast data => exact hsame _ fun p => hbest p data
  | shutdown => exact if_pos hclosed

theorem Shows.take (h : Shows a s) (env : Env) {task : Tasks.Task D}
    (hread : Readable lib raw env task) :
    Shows (a.runTask lib env task) ((happening lib raw env task).elim s (s.take reader)) := by
  cases hclosed : s.closed with
  | false => exact h.runTask lib hclosed env hread
  | true =>
    have hdone (what : Happening String) : s.take reader what = s := if_pos hclosed
    rw [runTask_closed lib h.placed (h.closed.trans hclosed)]
    cases happening lib raw env task with
    | none => exact h
    | some what =>
      show Shows a (s.take reader what)
      rw [hdone]
      exact h

def told (lib : JavaNumbers D) (raw : Value D → String) : Label D → Option (Happening String)
  | .run env task => happening lib raw env task
  | .post _ | .finish .. => none

/-- The texts that a step reads are messages that `serde` can read. -/
def ReadableStep (lib : JavaNumbers D) (raw : Value D → String) : Label D → Prop
  | .run env task => Readable lib raw env task
  | .post _ | .finish .. => True

theorem kept_describe (signaling : Client.Native.Signaling) (remote : Bool) :
    Kept (PeerLink.describe signaling remote : PeerLink D → PeerLink D) := fun _ => ⟨rfl, rfl⟩

theorem Shows.finish (h : Shows a s) (op : Op) (outcome : Outcome) :
    Shows ({ a with ops := a.ops.erase op }.finish op outcome).1 s := by
  have hover : Shows { a with ops := a.ops.erase op } s :=
    ⟨h.view, h.placed.congr rfl rfl rfl rfl, h.ids⟩
  unfold Actor.finish
  split
  · exact hover.call _
  · exact hover.modifyKept _ (kept_describe _ _)
  · exact hover.modifyKept _ (kept_describe _ _)
  · exact hover.call _
  · exact hover.modifyKept _ (kept_describe _ _)
  · exact hover.modifyKept _ (kept_describe _ _)
  · exact hover
  · exact hover

theorem Shows.step {σ τ : State D} {l : Label D} (h : Shows σ.actor s)
    (hstep : Tasks.step lib σ l τ) (hread : ReadableStep lib raw l) :
    Shows τ.actor ((told lib raw l).elim s (s.take reader)) := by
  cases l with
  | post task =>
    obtain ⟨-, -, rfl⟩ := hstep
    exact h
  | finish op outcome =>
    obtain ⟨-, rfl⟩ := hstep
    exact h.finish op outcome
  | run env task =>
    obtain ⟨rest, -, rfl⟩ := hstep
    exact h.take lib env hread

theorem Shows.steps {σ τ : State D} {ls : List (Label D)} {storagePath : Option JString}
    {joined : Joined} (h : Shows σ.actor s)
    (steps : Steps (Tasks.system lib storagePath joined) σ ls τ)
    (hread : ∀ l ∈ ls, ReadableStep lib raw l) :
    Shows τ.actor (s.run reader (ls.filterMap (told lib raw))) := by
  induction steps with
  | refl => exact h
  | @snoc ls τ υ l _ hstep ih =>
    rw [Client.Story.run_snoc]
    exact (ih fun m hm => hread m (List.mem_append_left _ hm)).step lib hstep (hread l (by simp))

theorem shows_new {m : Members D} {joined : JoinedMsg} (h : System.Wire.joined m = some joined)
    (storagePath : Option JString) : Shows (Actor.new storagePath (Joined.read lib m) : Actor D)
      (Session.new joined storagePath.isSome) := by
  simp only [System.Wire.joined, Option.bind_eq_bind, Option.bind_eq_some_iff] at h
  obtain ⟨code, hcode, selfId, hself, maxPlayers, hmax, started, hstarted, token, htoken, players,
    hplayers, hjoined⟩ := h
  obtain rfl := Option.some.inj hjoined
  obtain ⟨vs, hvs, hread⟩ := asArray_of_players (Option.bind_eq_some_iff.2 hplayers)
  have hmaxPlayers := intVal_of_playerId lib (Option.bind_eq_some_iff.2 hmax) 0
  have hread : Joined.read lib m = ⟨selfId, maxPlayers, started, utf16 token,
      (rosterFromSnapshot maxPlayers players).map slot⟩ := by
    simp only [Joined.read, hmaxPlayers, intVal_of_playerId lib (Option.bind_eq_some_iff.2 hself),
      bool_of_booleanOr hstarted, strOr_of_string lib (Option.bind_eq_some_iff.2 htoken), hvs,
      fromSnapshot_eq lib _ hread]
  rw [hread]
  refine ⟨?_, ⟨fun _ _ hp => (by cases hp), fun _ he => absurd rfl he, fun _ _ => rfl⟩,
    Client.Roster.ids_rosterFromSnapshot ..⟩
  cases storagePath <;> simp [view, written, Session.new, Actor.new, Actor.linkTo, byInt_none]

/-- Whatever the order of its tasks and of the calls to the WebRTC stack, the actor has gone
through the story of what its tasks were, and has told its user the same. -/
theorem java_run {m : Members D} {joined : JoinedMsg} (h : System.Wire.joined m = some joined)
    (storagePath : Option JString) {ls : List (Label D)} {σ : State D}
    (run : Run (Tasks.system lib storagePath (Joined.read lib m)) ls σ)
    (hread : ∀ l ∈ ls, ReadableStep lib raw l) :
    Shows σ.actor
      ((Session.new joined storagePath.isSome).run reader (ls.filterMap (told lib raw))) := by
  obtain ⟨first, rfl, steps⟩ := run.steps
  exact (shows_new lib h storagePath).steps lib steps hread

def plainNumbers : JavaNumbers Empty where
  toJavaLib := RoundTrip.plainLib
  intValue := Empty.elim

def slotMembers (id : Int64) : Value Empty :=
  .map [(units "id", .long id), (units "occupied", .bool true),
    (units "connected", .bool true)]

def joinedMembers : Members Empty :=
  [(units "type", .string (units "joined")),
    (units "code", .string (units "ROOM")),
    (units "selfId", .long 0), (units "maxPlayers", .long 2),
    (units "resumeToken", .string (units "t")),
    (units "players", .list [slotMembers 0, slotMembers 1])]

def joinedMsg : JoinedMsg := ⟨"ROOM", 0, 2, false, "t", [⟨0, true, true⟩, ⟨1, true, true⟩]⟩

theorem joined_read : System.Wire.joined joinedMembers = some joinedMsg := by
  with_unfolding_all rfl

def startEnv : Env := ⟨0, fun _ => true, false, fun _ => true⟩

def callEnv : Env := ⟨30, fun _ => true, false, fun _ => true⟩

def failedEnv : Env := ⟨0, fun _ => true, true, fun _ => true⟩

def after (σ : State D) : Label D → State D
  | .post task => { σ with exec := σ.exec ++ [task] }
  | .finish op outcome =>
    let ended := { σ.actor with ops := σ.actor.ops.erase op }.finish op outcome
    ⟨ended.1, σ.exec ++ ended.2⟩
  | .run env task => ⟨σ.actor.runTask lib env task, σ.exec.tail⟩

def Takes (σ : State D) : Label D → Prop
  | .post task => task.continues = false ∧ task.Due σ.actor
  | .finish op _ => op ∈ σ.actor.ops
  | .run _ task => σ.exec = task :: σ.exec.tail

theorem step_after {σ : State D} {l : Label D} (h : Takes σ l) : Tasks.step lib σ l (after lib σ l) := by
  cases l with
  | post task => exact ⟨h.1, h.2, rfl⟩
  | finish op outcome => exact ⟨h, rfl⟩
  | run env task => exact ⟨_, h, rfl⟩

theorem run_after {storagePath : Option JString} {joined : Joined} {labels : List (Label D)} {σ : State D}
    (run : Run (Tasks.system lib storagePath joined) labels σ) {l : Label D} (h : Takes σ l) :
    Run (Tasks.system lib storagePath joined) (labels ++ [l]) (after lib σ l) :=
  run.step (step_after lib h)

theorem run_text {storagePath : Option JString} {joined : Joined} {labels : List (Label D)} {a : Actor D}
    (run : Run (Tasks.system lib storagePath joined) labels ⟨a, []⟩) {env : Env} {text : JString}
    {m : Members D} (hparse : parse lib.toJavaLib env.calls text = some (.ok (.map m)))
    (hopen : a.closed = false) : Run (Tasks.system lib storagePath joined)
      (labels ++ [.post (.serverText text)] ++ [.run env (.serverText text)])
      ⟨a.handleMembers lib env m, []⟩ := by
  have hposted := run_after _ run (l := .post (.serverText text)) ⟨rfl, trivial⟩
  have htaken : a.handleMembers lib env m = a.runTask lib env (.serverText text) := by
    simp only [Actor.runTask, Actor.handleServerText, hopen, hparse]
    rfl
  exact hposted.step ⟨[], rfl, congrArg (State.mk · []) htaken⟩

theorem readable_text {env : Env} {text : JString} {m : Members D}
    (hparse : parse lib.toJavaLib env.calls text = some (.ok (.map m)))
    (hmsg : (serverMessage raw (.map m)).isSome) : ReadableStep lib raw (.run env (.serverText text)) := by
  intro m' hm'
  obtain rfl : m = m' := by simpa using hparse.symm.trans hm'
  exact hmsg

theorem told_text {env : Env} {text : JString} {m : Members D}
    (hparse : parse lib.toJavaLib env.calls text = some (.ok (.map m))) :
    told lib raw (.run env (.serverText text)) =
      (serverMessage raw (.map m)).map (.message · fun p => env.creates p) := by
  simp only [told, happening, hparse]

def leftText : JString :=
  units "\x7b\"type\":\"player-left\",\"playerId\":1,\"reason\":\"disconnected\"\x7d"

def leftMembers : Members Empty :=
  [(units "type", .string (units "player-left")), (units "playerId", .long 1),
    (units "reason", .string (units "disconnected"))]

set_option maxRecDepth 100000 in
theorem parse_leftText :
    parse plainNumbers.toJavaLib callEnv.calls leftText = some (.ok (.map leftMembers)) := by
  with_unfolding_all rfl

def frameOne : Bytes := [0x4C, 1, 0, 0, 0, 0, 0, 0, 0, 0, 0, 0, 0, 1, 0, 0, 0, 1, 7]

/-- The link fails and is made again, carries a message, and the other player leaves. -/
def linkLabels : List (Label Empty) :=
  [.post .start, .run startEnv .start, .post (.connectionChange 1 1 .failed),
    .run startEnv (.connectionChange 1 1 .failed), .post (.rebuild 1 1), .run failedEnv (.rebuild 1 1),
    .post (.connectionChange 1 2 .connected), .run startEnv (.connectionChange 1 2 .connected),
    .post (.reliableData 1 2 frameOne 0), .run startEnv (.reliableData 1 2 frameOne 0)]

def linkState : State Empty :=
  linkLabels.foldl (after plainNumbers) ⟨Actor.new none (Joined.read plainNumbers joinedMembers), []⟩

def talkLabels : List (Label Empty) :=
  linkLabels ++ [.post (.serverText leftText), .run callEnv (.serverText leftText)]

def talkState : State Empty := ⟨linkState.actor.handleMembers plainNumbers callEnv leftMembers, []⟩

theorem link_run : Run (Tasks.system plainNumbers none (Joined.read plainNumbers joinedMembers))
    linkLabels linkState := by
  have hstart : Run (Tasks.system plainNumbers none (Joined.read plainNumbers joinedMembers)) []
      ⟨Actor.new none (Joined.read plainNumbers joinedMembers), []⟩ := .init rfl
  have hbegun := run_after _ (run_after _ hstart (l := .post .start) ⟨rfl, trivial⟩)
    (l := .run startEnv .start) rfl
  have hfailed := run_after _ (run_after _ hbegun
    (l := .post (.connectionChange 1 1 .failed)) ⟨rfl, trivial⟩)
    (l := .run startEnv (.connectionChange 1 1 .failed)) rfl
  have hagain := run_after _ (run_after _ hfailed (l := .post (.rebuild 1 1)) ⟨rfl, 1000, .head _⟩)
    (l := .run failedEnv (.rebuild 1 1)) rfl
  have hworks := run_after _ (run_after _ hagain
    (l := .post (.connectionChange 1 2 .connected)) ⟨rfl, trivial⟩)
    (l := .run startEnv (.connectionChange 1 2 .connected)) rfl
  exact run_after _ (run_after _ hworks (l := .post (.reliableData 1 2 frameOne 0)) ⟨rfl, trivial⟩)
    (l := .run startEnv (.reliableData 1 2 frameOne 0)) rfl

theorem talk_run : Run (Tasks.system plainNumbers none (Joined.read plainNumbers joinedMembers))
    talkLabels talkState := run_text plainNumbers link_run parse_leftText rfl

theorem talk_readable : ∀ l ∈ talkLabels, ReadableStep plainNumbers (fun _ => "") l := by
  have hlinks : ∀ l ∈ linkLabels, ReadableStep plainNumbers (fun _ => "") l := by
    simp [linkLabels, ReadableStep, Readable]
  intro l hl
  rcases List.mem_append.1 hl with hl | hl
  · exact hlinks l hl
  · rcases List.mem_pair.1 hl with rfl | rfl
    · trivial
    · exact readable_text plainNumbers parse_leftText rfl

theorem java_run_start : talkState.actor.events =
      [.peerState 1 .failed, .peerState 1 .connected, .message 1 .reliable [7],
        .playerLeft 1 .disconnected] ∧
    Shows talkState.actor ((Session.new joinedMsg false).run reader
      (talkLabels.filterMap (told plainNumbers fun _ => ""))) :=
  ⟨rfl, java_run plainNumbers joined_read none talk_run talk_readable⟩

end Lobbylink.Java.Telling
