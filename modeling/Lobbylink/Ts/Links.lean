import Lobbylink.Ts.Telling

/-! What any step of the game does to the links: they stay with their players, and a closed one
stays closed. -/
namespace Lobbylink.Ts.Links
open Client.Protocol Client.Roster Reliable Game Telling
open Client.Native (PeerState Event)

variable {Sdp : Type} {g g' : P2PGame Sdp}

def Lasts (link link' : PeerLink) : Prop :=
  link'.playerId = link.playerId ∧ link'.initiator = link.initiator ∧
    (link.closed = true → link'.closed = true)

theorem Lasts.refl (link : PeerLink) : Lasts link link := ⟨rfl, rfl, id⟩

theorem Lasts.trans {a b c : PeerLink} (h : Lasts a b) (h' : Lasts b c) : Lasts a c :=
  ⟨h'.1.trans h.1, h'.2.1.trans h.2.1, h'.2.2 ∘ h.2.2⟩

theorem lasts_close (link : PeerLink) : Lasts link link.close := by
  unfold PeerLink.close
  split_ifs
  · exact .refl link
  · exact ⟨rfl, rfl, fun _ => rfl⟩

theorem lasts_kept {f : PeerLink → PeerLink} (hf : Kept f) (link : PeerLink) : Lasts link (f link) :=
  ⟨(hf link).1, (hf link).2.1, fun hclosed => (hf link).2.2.1.trans hclosed⟩

def Grows (g g' : P2PGame Sdp) : Prop :=
  ∀ n link, g.links n = some link → ∃ link', g'.links n = some link' ∧ Lasts link link'

theorem Grows.refl (g : P2PGame Sdp) : Grows g g := fun _ link h => ⟨link, h, .refl link⟩

theorem Grows.trans {a b c : P2PGame Sdp} (h : Grows a b) (h' : Grows b c) : Grows a c := by
  intro n link hlink
  obtain ⟨mid, hmid, hfirst⟩ := h n link hlink
  obtain ⟨last, hlast, hsecond⟩ := h' n mid hmid
  exact ⟨last, hlast, hfirst.trans hsecond⟩

theorem Grows.same (h : g'.links = g.links) : Grows g g' := fun n link hlink =>
  ⟨link, (congrFun h n).trans hlink, .refl link⟩

theorem Grows.ite {c : Prop} [Decidable c] {a b : P2PGame Sdp} (hyes : c → Grows g a)
    (hno : ¬c → Grows g b) : Grows g (if c then a else b) := by
  split_ifs with hc
  · exact hyes hc
  · exact hno hc

theorem Grows.made (h : Grows g g') {p : PlayerId} {n : Nat} (hmade : g.Made p n) : g'.Made p n := by
  obtain ⟨link, hlink, howner⟩ := hmade
  obtain ⟨link', hlink', hlasts⟩ := h n link hlink
  exact ⟨link', hlink', hlasts.1.trans howner⟩

theorem grows_modifyLink (n : Nat) {f : PeerLink → PeerLink} (hf : ∀ link, Lasts link (f link)) :
    Grows g (g.modifyLink n f) := by
  intro m link hlink
  rw [links_modifyLink, hlink]
  split_ifs
  · exact ⟨f link, rfl, hf link⟩
  · exact ⟨link, rfl, .refl link⟩

theorem grows_emit (g : P2PGame Sdp) (ev : Event) : Grows g (g.emit ev) := by
  unfold P2PGame.emit
  exact .ite (fun _ => .refl g) fun _ => .same rfl

theorem grows_closePeer (g : P2PGame Sdp) (p : PlayerId) : Grows g (g.closePeer p) := by
  unfold P2PGame.closePeer
  split
  · exact .refl g
  · rename_i n _
    exact (grows_modifyLink n lasts_close).trans (.same rfl)

theorem grows_teardownPeers (g : P2PGame Sdp) : Grows g g.teardownPeers := by
  intro n link hlink
  refine ⟨if g.peers link.playerId = some n then link.close else link, ?_, ?_⟩
  · exact congrArg (Option.map _) hlink
  · split_ifs
    · exact lasts_close link
    · exact .refl link

theorem grows_createLink (h : Placed g) (env : Env) (p : PlayerId) (initiator : Bool) :
    Grows g (g.createLink env p initiator) := by
  have hplaced := h.closePeer p
  refine (grows_closePeer g p).trans ?_
  unfold P2PGame.createLink
  generalize g.closePeer p = b at hplaced ⊢
  refine .ite (fun _ n link hlink => ?_) fun _ => .same rfl
  have hle := hplaced.made n (by simp [hlink])
  have hne : n ≠ b.made + 1 := by omega
  exact ⟨link, (Function.update_of_ne hne ..).trans hlink, .refl link⟩

theorem grows_initiatePeer (h : Placed g) (env : Env) (p : PlayerId) :
    Grows g (g.initiatePeer env p) := by
  have hcreated := grows_createLink h env p true
  unfold P2PGame.initiatePeer
  exact .ite (fun _ => .refl g) fun _ => .ite (fun _ => hcreated.trans (.same rfl)) fun _ => hcreated

theorem grows_resetPeer (h : Placed g) (env : Env) (p : PlayerId) : Grows g (g.resetPeer env p) := by
  have hcleared : Placed { g.closePeer p with
      rebuildCounts := Function.update (g.closePeer p).rebuildCounts p none } :=
    (h.closePeer p).congr rfl
  have hclosed : Grows g { g.closePeer p with
      rebuildCounts := Function.update (g.closePeer p).rebuildCounts p none } :=
    (grows_closePeer g p).trans (.same rfl)
  unfold P2PGame.resetPeer
  exact .ite (fun _ => .refl g) fun _ => .ite (fun _ => hclosed.trans (grows_initiatePeer hcleared env p))
    fun _ => hclosed

theorem grows_handleOffer (h : Placed g) (env : Env) (source : PlayerId) (sdp : Sdp) :
    Grows g (g.handleOffer env source sdp) := by
  have hcreated := grows_createLink h env source false
  unfold P2PGame.handleOffer
  exact .ite (fun _ => .refl g) fun _ => .ite (fun _ => hcreated.trans (.same rfl)) fun _ => hcreated

theorem grows_handleAnswer (g : P2PGame Sdp) (source : PlayerId) (sdp : Sdp) :
    Grows g (g.handleAnswer source sdp) := by
  unfold P2PGame.handleAnswer
  split
  · exact .ite (fun _ => .refl g) fun _ => .same rfl
  · exact .refl g

theorem grows_handleCandidate (g : P2PGame Sdp) (source : PlayerId) (cand : Option String) :
    Grows g (g.handleCandidate source cand) := by
  unfold P2PGame.handleCandidate
  split
  · exact .ite (fun _ => .refl g) fun _ => grows_modifyLink _ (lasts_kept (kept_takeCandidate cand))
  · exact .refl g

theorem grows_handleSignal (h : Placed g) (env : Env) (source : PlayerId) (payload : SignalPayload Sdp) :
    Grows g (g.handleSignal env source payload) := by
  unfold P2PGame.handleSignal
  refine .ite (fun _ => .refl g) fun _ => ?_
  cases payload with
  | offer sdp => exact grows_handleOffer h env source sdp
  | answer sdp => exact grows_handleAnswer g source sdp
  | ice cand => exact grows_handleCandidate g source cand
  | unknown => exact .refl g

theorem grows_handleError (g : P2PGame Sdp) (code message : String) :
    Grows g (g.handleError code message) := by
  have hseen : Grows g { g with fatalSeen := true } := .same rfl
  have htorn := hseen.trans (grows_teardownPeers _)
  unfold P2PGame.handleError
  refine .ite (fun _ => ?_) fun _ => grows_emit g _
  refine Grows.trans ?_ (grows_emit _ _)
  exact .ite (fun _ => .ite (fun _ => htorn.trans (.same rfl)) fun _ => htorn) fun _ => hseen

theorem grows_handleServerMessage (h : Placed g) (env : Env) (msg : ServerMessage Sdp) :
    Grows g (g.handleServerMessage env msg) := by
  have hreset (roster : List PlayerInfo) (ev : Event) (p : PlayerId) :
      Grows g ((({ g with roster := roster } : P2PGame Sdp).emit ev).resetPeer env p) := by
    have hplaced : Placed ({ g with roster := roster } : P2PGame Sdp) := h.congr rfl
    have hset : Grows g { g with roster := roster } := .same rfl
    exact (hset.trans (grows_emit _ ev)).trans (grows_resetPeer (hplaced.emit ev) env p)
  cases msg with
  | playerJoined p players => exact hreset _ _ p
  | playerRejoined p | playerReplaced p => exact hreset _ _ p
  | playerLeft p reason =>
    refine Grows.trans ?_ (grows_emit _ _)
    have hset (f : PlayerInfo → PlayerInfo) : Grows g (g.setSlot p f) := .same rfl
    exact .ite (fun _ => (hset _).trans (grows_closePeer _ p)) fun _ => hset _
  | roomStarted =>
    have hstarted : Grows g { g with startedFlag := true } := .same rfl
    exact hstarted.trans (grows_emit _ _)
  | signal source payload => exact grows_handleSignal h env source payload
  | error code message => exact grows_handleError g code message
  | joined | unknown => exact .refl g

theorem grows_onConnectionState (g : P2PGame Sdp) (p : PlayerId) (n : Nat) (state : PeerState) :
    Grows g (g.onConnectionState p n state) := by
  unfold P2PGame.onConnectionState
  refine .ite (fun _ => .refl g) fun _ => ?_
  refine (grows_emit g (.peerState p state)).trans ?_
  cases state with
  | connected => exact .same rfl
  | failed =>
    simp only [P2PGame.handlePeerFailure]
    split
    · exact .refl _
    · exact .ite (fun _ => .refl _) fun _ => .ite (fun _ => .same rfl) fun _ => .same rfl
  | new | connecting | disconnected | closed => exact .refl _

theorem grows_rebuild (h : Placed g) (env : Env) (p : PlayerId) (n : Nat) :
    Grows g (g.rebuild env p n) := by
  unfold P2PGame.rebuild
  refine .ite (fun _ => .refl g) fun _ => ?_
  split
  · exact .refl g
  · exact .ite (fun _ => .refl g) fun _ => grows_initiatePeer h env p

theorem grows_onReliableData (g : P2PGame Sdp) (p : PlayerId) (n : Nat) (data : ChannelData)
    (now : Int) : Grows g (g.onReliableData p n data now) := by
  unfold P2PGame.onReliableData
  split
  · split
    · exact .refl g
    · have hread (r : Reassembler Int) :
          Grows g (g.modifyLink n fun link => { link with reassembler := r }) :=
        grows_modifyLink n fun link => ⟨rfl, rfl, id⟩
      simp only
      split
      · exact hread _
      · exact (hread _).trans (grows_emit _ _)
  · exact .refl g

theorem grows_sendSignal (g : P2PGame Sdp) (target : PlayerId) (n : Nat) (payload : SignalPayload Sdp) :
    Grows g (g.sendSignal target n payload) := by
  unfold P2PGame.sendSignal
  exact .ite (fun _ => .same rfl) fun _ => .refl g

theorem grows_settle (g : P2PGame Sdp) (op : Op Sdp) (outcome : Outcome Sdp) :
    Grows g (g.settle op outcome) := by
  have hdescribe (state) (remote) (n : Nat) : Grows g (g.modifyLink n (PeerLink.describe state remote)) :=
    grows_modifyLink n (lasts_kept (kept_describe state remote))
  unfold P2PGame.settle
  split
  · exact .ite (fun _ => .same rfl) fun _ => .refl g
  · exact (hdescribe _ _ _).trans (.ite (fun _ => grows_sendSignal _ _ _ _) fun _ => .refl _)
  · refine (hdescribe _ _ _).trans (.ite (fun _ => ?_) fun _ => .refl _)
    exact (grows_modifyLink _ (lasts_kept kept_flushCandidates)).trans (.same rfl)
  · exact .ite (fun _ => .same rfl) fun _ => .refl g
  · exact (hdescribe _ _ _).trans (.ite (fun _ => grows_sendSignal _ _ _ _) fun _ => .refl _)
  · exact (hdescribe _ _ _).trans (grows_modifyLink _ (lasts_kept kept_flushCandidates))
  · exact .ite (fun _ => grows_emit g _) fun _ => .refl g
  · exact .refl g

theorem grows_close (g : P2PGame Sdp) : Grows g g.close := by
  unfold P2PGame.close
  refine .ite (fun _ => .refl g) fun _ => ?_
  exact Grows.trans (.same rfl) ((grows_teardownPeers _).trans (.same rfl))

theorem links_bestEffortTo (env : Env) (g : P2PGame Sdp) (p : PlayerId) (bytes : Bytes) :
    (g.bestEffortTo env p bytes).links = g.links := by
  unfold P2PGame.bestEffortTo
  split
  · rfl
  · split_ifs <;> rfl

theorem links_broadcast (env : Env) (targets : List PlayerInfo) (g : P2PGame Sdp) (bytes : Bytes) :
    (targets.foldl (fun g p => g.bestEffortTo env p.id bytes) g).links = g.links := by
  induction targets generalizing g with
  | nil => rfl
  | cons p rest ih => exact (ih _).trans (links_bestEffortTo env g p.id bytes)

theorem grows_orStay {called : Except LobbyError (P2PGame Sdp)}
    (hcalled : ∀ g', called = .ok g' → g'.links = g.links) : Grows g (g.orStay called) := by
  cases called with
  | error _ => exact .refl g
  | ok g' => exact .same (hcalled g' rfl)

theorem grows_sendBestEffort (env : Env) (target : Int) (bytes : Bytes) :
    Grows g (g.orStay (g.sendBestEffort env target bytes)) := by
  refine grows_orStay fun g' hsent => ?_
  unfold P2PGame.sendBestEffort at hsent
  cases htarget : g.checkTarget target with
  | error _ => simp [htarget, bind, Except.bind] at hsent
  | ok _ =>
    cases hsize : checkSize bytes with
    | error _ => simp [htarget, hsize, bind, Except.bind] at hsent
    | ok _ =>
      simp only [htarget, hsize, bind, Except.bind, pure, Except.pure, Except.ok.injEq] at hsent
      subst hsent
      exact links_bestEffortTo env g _ bytes

theorem grows_broadcastBestEffort (env : Env) (bytes : Bytes) :
    Grows g (g.orStay (g.broadcastBestEffort env bytes)) := by
  refine grows_orStay fun g' hsent => ?_
  unfold P2PGame.broadcastBestEffort at hsent
  cases hsize : checkSize bytes with
  | error _ => simp [hsize, bind, Except.bind] at hsent
  | ok _ =>
    simp only [hsize, bind, Except.bind, pure, Except.pure, Except.ok.injEq] at hsent
    subst hsent
    exact links_broadcast env _ g bytes

theorem placed_start (env : Env) (storage : Option (Option String)) (joined : JoinedMsg) :
    Placed (P2PGame.start env storage joined : P2PGame Sdp) := by
  have hnew : Placed (P2PGame.new storage joined : P2PGame Sdp) :=
    ⟨nofun, nofun, fun _ hn => absurd rfl hn, fun hgone => absurd hgone Bool.false_ne_true, nofun⟩
  have hall (targets : List PlayerId) (g : P2PGame Sdp) (h : Placed g) (hopen : g.closedFlag = false) :
      Placed (targets.foldl (fun g p => g.initiatePeer env p) g) := by
    induction targets generalizing g with
    | nil => exact h
    | cons p rest ih =>
      have hshows : Shows g (Telling.story g) := ⟨rfl, h⟩
      have hnext := hshows.initiatePeer hopen env p
      exact ih _ hnext.placed (hnext.closed.trans hopen)
  exact hall _ _ hnew rfl

variable [DecidableEq Sdp]

theorem grows_take (h : Placed g) (l : Label Sdp) : Grows g (g.take l) := by
  cases l with
  | message env msg => exact grows_handleServerMessage h env msg
  | wsDown => exact .same rfl
  | wsClose =>
    have hseen : Grows g { g with fatalSeen := true } := .same rfl
    exact .ite (fun _ => .refl g) fun _ => hseen.trans (grows_emit _ _)
  | iceCandidate p n cand =>
    cases cand with
    | none => exact .refl g
    | some cand => exact .ite (fun _ => grows_sendSignal g p n _) fun _ => .refl g
  | connectionState p n state => exact grows_onConnectionState g p n state
  | reliableData p n data now => exact grows_onReliableData g p n data now
  | bestEffortData p n data =>
    simp only [P2PGame.take, P2PGame.onBestEffortData]
    split
    · exact .refl g
    · exact grows_emit g _
  | rebuild env p n => exact grows_rebuild h env p n
  | settle op outcome =>
    have hover : Grows g { g with ops := g.ops.erase op } := .same rfl
    exact hover.trans (grows_settle _ op outcome)
  | sendBestEffort env target bytes => exact grows_sendBestEffort env target bytes
  | broadcastBestEffort env bytes => exact grows_broadcastBestEffort env bytes
  | close => exact grows_close g

/-- Links keep their places, whatever the server's snapshots are like. -/
theorem placed_take (h : Placed g) {l : Label Sdp} (henabled : g.Enabled l) : Placed (g.take l) := by
  have hshows : Shows g (Telling.story g) := ⟨rfl, h⟩
  cases l with
  | message env msg =>
    cases msg with
    | playerJoined p players =>
      have hopen : (Telling.story g).closed = false := by
        cases hclosed : g.closedFlag with
        | false => exact hclosed
        | true => exact absurd ((h.gone hclosed).1.symm.trans henabled) Bool.false_ne_true
      have hset : Shows ({ g with roster := copyPlayers players } : P2PGame Sdp)
          { Telling.story g with roster := copyPlayers players } := ⟨rfl, h.congr rfl⟩
      exact ((hset.emit hopen (.playerJoined p)).resetPeer hopen env p).placed
    | _ => exact (hshows.step henabled trivial).placed
  | _ => exact (hshows.step henabled trivial).placed

end Lobbylink.Ts.Links
