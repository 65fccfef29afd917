import Lobbylink.Client.Story
import Lobbylink.Ts.Game

/-! The game of the browser client goes through the story of a client: its links, its roster,
its token and its events are those of what happened to it. -/
namespace Lobbylink.Ts.Telling
open Client.Protocol Client.Roster Reliable Game Lib.Runs
open Client.Native (PeerState Signaling Event)
open Client.Story (Session Tie Reader Happening)

variable {Sdp : Type}

def reader : Reader (Reassembler Int) where
  empty := .empty
  take := fun r data now =>
    match parseFrame data with
    | .error _ => (r, none)
    | .ok frame => r.push frame now

def tieOf (n : Nat) (link : PeerLink) : Tie (Reassembler Int) := ⟨n, link.initiator, link.reassembler⟩

def tieTo (g : P2PGame Sdp) (p : PlayerId) : Option (Tie (Reassembler Int)) :=
  (g.peers p).bind fun n => (g.links n).map (tieOf n)

def story (g : P2PGame Sdp) : Session (Reassembler Int) where
  selfId := g.selfId
  maxPlayers := g.maxPlayers
  roster := g.roster
  started := g.startedFlag
  ties := tieTo g
  attempts := g.made
  failures := g.rebuildCounts
  retries := g.timers
  ended := g.fatalSeen
  closed := g.closedFlag
  keeps := g.storage.isSome
  token := g.storage.join
  told := g.emitted

/-- The links in their places are those that are not closed, and none is still to come; a promise
is for a link to its player. -/
structure Placed (g : P2PGame Sdp) : Prop where
  opened : ∀ p n, g.peers p = some n →
    ∃ link, g.links n = some link ∧ link.playerId = p ∧ link.closed = false
  live : ∀ n link, g.links n = some link → link.closed = false → g.peers link.playerId = some n
  made : ∀ n, g.links n ≠ none → n ≤ g.made
  gone : g.closedFlag = true → g.wsOpen = false ∧ ∀ p, g.peers p = none
  awaited : ∀ op ∈ g.ops, g.Made (opLink op).1 (opLink op).2

variable {g : P2PGame Sdp}

/-- The part of the game that the places of links are about. -/
def frame (g : P2PGame Sdp) :
    (PlayerId → Option Nat) × (Nat → Option PeerLink) × Nat × Bool × Bool × List (Op Sdp) :=
  (g.peers, g.links, g.made, g.closedFlag, g.wsOpen, g.ops)

theorem Placed.congr {b : P2PGame Sdp} (h : Placed g) (hframe : frame b = frame g) : Placed b := by
  simp only [frame, Prod.mk.injEq] at hframe
  obtain ⟨hpeers, hlinks, hmade, hclosed, hopen, hops⟩ := hframe
  refine ⟨?_, ?_, ?_, ?_, ?_⟩
  · rw [hpeers, hlinks]
    exact h.opened
  · rw [hpeers, hlinks]
    exact h.live
  · rw [hlinks, hmade]
    exact h.made
  · rw [hclosed, hopen, hpeers]
    exact h.gone
  · rw [hops]
    unfold P2PGame.Made
    rw [hlinks]
    exact h.awaited

theorem story_emit (h : g.closedFlag = false) (ev : Event) : story (g.emit ev) = (story g).tell ev := by
  unfold P2PGame.emit
  rw [if_neg (by simp [h])]
  rfl

/-- What the client does with a link without the story. -/
def Kept (f : PeerLink → PeerLink) : Prop :=
  ∀ link, (f link).playerId = link.playerId ∧ (f link).initiator = link.initiator ∧
    (f link).closed = link.closed ∧ (f link).reassembler = link.reassembler

theorem links_modifyLink (n m : Nat) (f : PeerLink → PeerLink) :
    (g.modifyLink n f).links m = if m = n then (g.links m).map f else g.links m := by
  unfold P2PGame.modifyLink
  split_ifs with h
  · rw [h]
    exact Function.update_self ..
  · exact Function.update_of_ne h ..

theorem made_modifyLink (n : Nat) {f : PeerLink → PeerLink}
    (hf : ∀ link, (f link).playerId = link.playerId) {p : PlayerId} {m : Nat} (h : g.Made p m) :
    (g.modifyLink n f).Made p m := by
  obtain ⟨link, hlink, howner⟩ := h
  unfold P2PGame.Made
  rw [links_modifyLink, hlink]
  split_ifs
  · exact ⟨f link, rfl, (hf link).trans howner⟩
  · exact ⟨link, rfl, howner⟩

theorem story_modifyLink (n : Nat) {f : PeerLink → PeerLink} (hf : Kept f) :
    story (g.modifyLink n f) = story g := by
  have hties : tieTo (g.modifyLink n f) = tieTo g := by
    funext p
    refine congrArg (fun bound => (g.peers p).bind bound) (funext fun m => ?_)
    rw [links_modifyLink]
    split_ifs
    · rw [Option.map_map]
      refine congrArg (fun tie => (g.links m).map tie) (funext fun link => ?_)
      simp only [Function.comp_apply, tieOf, (hf link).2.1, (hf link).2.2.2]
    · rfl
  exact congrArg (fun ties => { story g with ties := ties }) hties

theorem Placed.modifyLink (h : Placed g) (n : Nat) {f : PeerLink → PeerLink}
    (hf : ∀ link, (f link).playerId = link.playerId ∧ (f link).closed = link.closed) :
    Placed (g.modifyLink n f) where
  opened p m hp := by
    obtain ⟨link, hlink, howner, hopen⟩ := h.opened p m hp
    rw [links_modifyLink, hlink]
    split_ifs
    · exact ⟨f link, rfl, (hf link).1.trans howner, (hf link).2.trans hopen⟩
    · exact ⟨link, rfl, howner, hopen⟩
  live m link hlink hopen := by
    rw [links_modifyLink] at hlink
    split_ifs at hlink
    · obtain ⟨old, hold, rfl⟩ := Option.map_eq_some_iff.1 hlink
      rw [(hf old).1]
      exact h.live m old hold ((hf old).2.symm.trans hopen)
    · exact h.live m link hlink hopen
  made m hm := by
    refine h.made m fun hnone => hm ?_
    rw [links_modifyLink, hnone]
    split_ifs <;> rfl
  gone := h.gone
  awaited op hop := made_modifyLink n (fun link => (hf link).1) (h.awaited op hop)

theorem close_playerId (link : PeerLink) : link.close.playerId = link.playerId := by
  unfold PeerLink.close
  split_ifs <;> rfl

theorem close_closed (link : PeerLink) : link.close.closed = true := by
  unfold PeerLink.close
  split_ifs with h
  · exact h
  · rfl

theorem story_closePeer (h : Placed g) (p : PlayerId) : story (g.closePeer p) = (story g).drop p := by
  unfold P2PGame.closePeer
  cases hp : g.peers p with
  | none =>
    have hsame : Function.update (tieTo g) p none = tieTo g :=
      Function.update_eq_self_iff.2 (by simp [tieTo, hp])
    exact congrArg (fun ties => { story g with ties := ties }) hsame.symm
  | some n =>
    have hties : tieTo { g.modifyLink n PeerLink.close with
        peers := Function.update g.peers p none } = Function.update (tieTo g) p none := by
      funext q
      by_cases hq : q = p
      · subst hq
        simp [tieTo]
      · simp only [tieTo, Function.update_of_ne hq]
        refine Option.bind_congr fun m hm => ?_
        have hne : m ≠ n := by
          rintro rfl
          obtain ⟨link, hlink, howner, -⟩ := h.opened q m hm
          obtain ⟨link', hlink', howner', -⟩ := h.opened p m hp
          obtain rfl := Option.some.inj (hlink.symm.trans hlink')
          exact hq (howner.symm.trans howner')
        exact congrArg (Option.map (tieOf m)) ((links_modifyLink n m _).trans (if_neg hne))
    exact congrArg (fun ties => { story g with ties := ties }) hties

theorem Placed.closePeer (h : Placed g) (p : PlayerId) : Placed (g.closePeer p) := by
  unfold P2PGame.closePeer
  cases hp : g.peers p with
  | none => exact h
  | some n =>
    obtain ⟨old, hold, howner, -⟩ := h.opened p n hp
    refine ⟨fun q m hq => ?_, fun m link hlink hopen => ?_, fun m hm => ?_, fun hgone => ?_,
      fun op hop => ?_⟩
    · have hne : q ≠ p := by
        rintro rfl
        simp at hq
      have hq' : g.peers q = some m := (Function.update_of_ne hne ..).symm.trans hq
      obtain ⟨link, hlink, hplayer, hopen⟩ := h.opened q m hq'
      have hother : m ≠ n := by
        rintro rfl
        obtain rfl := Option.some.inj (hlink.symm.trans hold)
        exact hne (hplayer.symm.trans howner)
      exact ⟨link, (links_modifyLink n m _).trans ((if_neg hother).trans hlink), hplayer, hopen⟩
    · have hlink' := (links_modifyLink (g := g) n m PeerLink.close).symm.trans hlink
      split_ifs at hlink'
      · obtain ⟨link', -, rfl⟩ := Option.map_eq_some_iff.1 hlink'
        exact absurd ((close_closed link').symm.trans hopen) (by decide)
      · have hstill := h.live m link hlink' hopen
        have hne : link.playerId ≠ p := by
          intro heq
          rw [heq, hp] at hstill
          exact absurd (Option.some.inj hstill).symm ‹_›
        exact (Function.update_of_ne hne ..).trans hstill
    · refine h.made m fun hnone => hm ((links_modifyLink n m _).trans ?_)
      rw [hnone]
      split_ifs <;> rfl
    · exact absurd ((h.gone hgone).2 p) (by simp [hp])
    · exact made_modifyLink n close_playerId (h.awaited op hop)

theorem story_teardownPeers (g : P2PGame Sdp) : story g.teardownPeers = (story g).dropAll := rfl

theorem Placed.teardownPeers (h : Placed g) : Placed g.teardownPeers where
  opened p n hp := by cases hp
  live n link hlink hopen := by
    obtain ⟨old, hold, rfl⟩ := Option.map_eq_some_iff.1 hlink
    split_ifs at hopen with hpeer
    · exact absurd ((close_closed old).symm.trans hopen) (by decide)
    · exact absurd (h.live n old hold hopen) hpeer
  made n hn := h.made n fun hnone => hn (by simp [P2PGame.teardownPeers, hnone])
  gone hgone := ⟨(h.gone hgone).1, fun _ => rfl⟩
  awaited op hop := by
    obtain ⟨link, hlink, howner⟩ := h.awaited op hop
    refine ⟨if g.peers link.playerId = some (opLink op).2 then link.close else link, ?_, ?_⟩
    · simp [P2PGame.teardownPeers, hlink]
    · split_ifs
      · exact (close_playerId link).trans howner
      · exact howner

theorem story_clearToken (g : P2PGame Sdp) : story g.clearToken = (story g).forget := by
  unfold Session.forget
  cases hstorage : g.storage <;> simp [story, P2PGame.clearToken, hstorage] <;> rfl

theorem Placed.clearToken (h : Placed g) : Placed g.clearToken := h.congr rfl

theorem Placed.emit (h : Placed g) (ev : Event) : Placed (g.emit ev) := by
  unfold P2PGame.emit
  split_ifs
  · exact h
  · exact h.congr rfl

theorem closedFlag_closePeer (g : P2PGame Sdp) (p : PlayerId) :
    (g.closePeer p).closedFlag = g.closedFlag := by
  unfold P2PGame.closePeer
  split <;> rfl

theorem renew_drop (s : Session (Reassembler Int)) (p : PlayerId) (initiator made : Bool) :
    (s.drop p).renew reader p initiator made = s.renew reader p initiator made := by
  simp only [Session.renew, Session.drop, Function.update_idem]

theorem story_createLink (h : Placed g) (env : Env) (p : PlayerId) (initiator : Bool) :
    story (g.createLink env p initiator) =
      (story g).renew reader p initiator (env.creates p) := by
  rw [← renew_drop, ← story_closePeer h]
  have hplaced := h.closePeer p
  have hnone : (g.closePeer p).peers p = none := by
    unfold P2PGame.closePeer
    split
    · assumption
    · exact Function.update_self ..
  unfold P2PGame.createLink
  generalize g.closePeer p = b at hplaced hnone ⊢
  simp only
  split_ifs with hmakes
  · have hties : tieTo { b with
        made := b.made + 1
        peers := Function.update b.peers p (some (b.made + 1))
        links := Function.update b.links (b.made + 1)
          (some ⟨p, initiator, false, .stable, false, .empty, some [], []⟩) } =
        Function.update (tieTo b) p (some ⟨b.made + 1, initiator, reader.empty⟩) := by
      funext q
      by_cases hq : q = p
      · subst hq
        simp [tieTo, tieOf, reader]
      · simp only [tieTo, Function.update_of_ne hq]
        refine Option.bind_congr fun n hn => ?_
        obtain ⟨link, hlink, -⟩ := hplaced.opened q n hn
        have hle := hplaced.made n (by simp [hlink])
        rw [Function.update_of_ne (by omega)]
    rw [Session.renew, if_pos hmakes]
    exact congrArg (fun ties => { story b with attempts := b.made + 1, ties := ties }) hties
  · have hsame : Function.update (tieTo b) p none = tieTo b :=
      Function.update_eq_self_iff.2 (by simp [tieTo, hnone])
    rw [Session.renew, if_neg hmakes]
    exact congrArg (fun ties => { story b with attempts := b.made + 1, ties := ties }) hsame.symm

theorem Placed.createLink (h : Placed g) (hopen : g.closedFlag = false) (env : Env) (p : PlayerId)
    (initiator : Bool) : Placed (g.createLink env p initiator) := by
  have hplaced := h.closePeer p
  have hstays := (closedFlag_closePeer g p).trans hopen
  have hnone : (g.closePeer p).peers p = none := by
    unfold P2PGame.closePeer
    split
    · assumption
    · exact Function.update_self ..
  unfold P2PGame.createLink
  generalize g.closePeer p = b at hplaced hnone hstays ⊢
  simp only
  split_ifs
  · refine ⟨fun q n hq => ?_, fun n link hlink hlive => ?_, fun n hn => ?_, fun hgone => ?_,
      fun op hop => ?_⟩
    · by_cases hqp : q = p
      · subst hqp
        simp only [Function.update_self, Option.some.injEq] at hq
        subst hq
        exact ⟨_, Function.update_self .., rfl, rfl⟩
      · obtain ⟨link, hlink, hrest⟩ := hplaced.opened q n ((Function.update_of_ne hqp ..).symm.trans hq)
        have hle := hplaced.made n (by simp [hlink])
        exact ⟨link, (Function.update_of_ne (by omega) ..).trans hlink, hrest⟩
    · by_cases hn : n = b.made + 1
      · subst hn
        simp only [Function.update_self, Option.some.injEq] at hlink
        subst hlink
        exact Function.update_self ..
      · have hstill := hplaced.live n link ((Function.update_of_ne hn ..).symm.trans hlink) hlive
        have hne : link.playerId ≠ p := fun heq => by
          rw [heq, hnone] at hstill
          cases hstill
        exact (Function.update_of_ne hne ..).trans hstill
    · by_cases heq : n = b.made + 1
      · exact Nat.le_of_eq heq
      · exact Nat.le_succ_of_le
          (hplaced.made n fun hnone => hn ((Function.update_of_ne heq ..).trans hnone))
    · exact absurd (hstays.symm.trans hgone) (by decide)
    · obtain ⟨link, hlink, howner⟩ := hplaced.awaited op hop
      have hle := hplaced.made (opLink op).2 fun hnone => Option.some_ne_none link (hlink.symm.trans hnone)
      exact ⟨link, (Function.update_of_ne (by omega) ..).trans hlink, howner⟩
  · exact ⟨hplaced.opened, hplaced.live, fun n hn => Nat.le_succ_of_le (hplaced.made n hn),
      hplaced.gone, hplaced.awaited⟩

structure Shows (g : P2PGame Sdp) (s : Session (Reassembler Int)) : Prop where
  story : story g = s
  placed : Placed g

variable {s : Session (Reassembler Int)} {g' : P2PGame Sdp} {s' : Session (Reassembler Int)}

theorem Shows.ite {c d : Prop} [Decidable c] [Decidable d] (hcd : c ↔ d) (hyes : d → Shows g s)
    (hno : ¬d → Shows g' s') : Shows (if c then g else g') (if d then s else s') := by
  by_cases hd : d
  · rw [if_pos (hcd.2 hd), if_pos hd]
    exact hyes hd
  · rw [if_neg fun hc => hd (hcd.1 hc), if_neg hd]
    exact hno hd

theorem Shows.closed (h : Shows g s) : g.closedFlag = s.closed := congrArg Session.closed h.story

theorem Shows.selfId (h : Shows g s) : g.selfId = s.selfId := congrArg Session.selfId h.story

theorem Shows.emit (h : Shows g s) (hopen : s.closed = false) (ev : Event) :
    Shows (g.emit ev) (s.tell ev) where
  story := by rw [story_emit (h.closed.trans hopen), h.story]
  placed := h.placed.emit ev

theorem Shows.closePeer (h : Shows g s) (p : PlayerId) : Shows (g.closePeer p) (s.drop p) where
  story := by rw [story_closePeer h.placed, h.story]
  placed := h.placed.closePeer p

theorem Shows.teardownPeers (h : Shows g s) : Shows g.teardownPeers s.dropAll where
  story := by rw [story_teardownPeers, h.story]
  placed := h.placed.teardownPeers

theorem Shows.clearToken (h : Shows g s) : Shows g.clearToken s.forget where
  story := by rw [story_clearToken, h.story]
  placed := h.placed.clearToken

theorem Shows.createLink (h : Shows g s) (hopen : s.closed = false) (env : Env) (p : PlayerId)
    (initiator : Bool) :
    Shows (g.createLink env p initiator) (s.renew reader p initiator (env.creates p)) where
  story := by rw [story_createLink h.placed, h.story]
  placed := h.placed.createLink (h.closed.trans hopen) env p initiator

theorem Placed.await (h : Placed g) {op : Op Sdp} (hop : g.Made (opLink op).1 (opLink op).2) :
    Placed (g.await op) where
  opened := h.opened
  live := h.live
  made := h.made
  gone := h.gone
  awaited op' hop' := by
    rcases List.mem_append.1 hop' with hold | hnew
    · exact h.awaited op' hold
    · rwa [List.mem_singleton.1 hnew]

theorem Shows.await (h : Shows g s) {op : Op Sdp} (hop : g.Made (opLink op).1 (opLink op).2) :
    Shows (g.await op) s :=
  ⟨h.story, h.placed.await hop⟩

theorem made_createLink {env : Env} {p : PlayerId} (hmakes : env.creates p = true) (initiator : Bool) :
    (g.createLink env p initiator).Made p (g.createLink env p initiator).made := by
  unfold P2PGame.createLink
  simp only [hmakes, if_true]
  exact ⟨_, Function.update_self .., rfl⟩

theorem Shows.initiatePeer (h : Shows g s) (hopen : s.closed = false) (env : Env) (p : PlayerId) :
    Shows (g.initiatePeer env p) (s.renew reader p true (env.creates p)) := by
  have hmade := h.createLink hopen env p true
  unfold P2PGame.initiatePeer
  rw [if_neg (by simp [h.closed, hopen])]
  simp only
  split_ifs with hmakes
  · exact hmade.await (made_createLink hmakes true)
  · exact hmade

theorem Shows.counted (h : Shows g s) (p : PlayerId) (count : Option Nat) :
    Shows { g with rebuildCounts := Function.update g.rebuildCounts p count }
      { s with failures := Function.update s.failures p count } where
  story := by
    obtain rfl := h.story
    rfl
  placed := h.placed.congr rfl

theorem Shows.resetPeer (h : Shows g s) (hopen : s.closed = false) (env : Env) (p : PlayerId) :
    Shows (g.resetPeer env p) (s.meet reader p (env.creates p)) := by
  have hcleared := (h.closePeer p).counted p none
  unfold P2PGame.resetPeer Session.meet
  refine Shows.ite (by rw [h.selfId]) (fun _ => h) fun _ => ?_
  refine Shows.ite ?_ (fun _ => hcleared.initiatePeer hopen env p) fun _ => hcleared
  exact iff_of_eq (congrArg (· < p) hcleared.selfId)

def Full (maxPlayers : Nat) (players : List WirePlayer) : Prop :=
  players.map (·.id) = List.range maxPlayers

theorem copyPlayers_eq {n : Nat} {players : List WirePlayer} (h : Full n players) :
    copyPlayers players = rosterFromSnapshot n players := by
  have hlen : players.length = n := by
    have hlength := congrArg List.length h
    rwa [List.length_map, List.length_range] at hlength
  have hids : ∀ (i : Nat) (p : WirePlayer), players[i]? = some p → p.id = i := by
    intro i p hp
    have hi := congrArg (fun ids => ids[i]?) h
    simp only [List.getElem?_map, hp, Option.map_some] at hi
    exact (List.getElem?_eq_some_iff.1 hi.symm).2.symm.trans (List.getElem_range ..)
  have hmarks := mark_rosterFromSnapshot players hids
  have hroster := ids_rosterFromSnapshot n players
  rw [hlen] at hmarks
  refine List.ext_getElem? fun i => ?_
  have hmark := hmarks i
  have hid := congrArg (fun ids => ids[i]?) (hroster.trans h.symm)
  simp only [List.getElem?_map] at hid
  unfold copyPlayers
  rw [List.getElem?_map]
  unfold mark at hmark
  cases hp : players[i]? with
  | none =>
    rw [hp, Option.map_none, Option.map_eq_none_iff] at hid
    rw [hid]
    rfl
  | some p =>
    rw [hp, Option.map_some, Option.map_eq_some_iff] at hid
    obtain ⟨slot, hslot, hsame⟩ := hid
    rw [hslot, hp] at hmark
    rw [hslot, Option.map_some, ← hsame]
    simp only [Prod.mk.injEq] at hmark
    rw [← hmark.1, ← hmark.2]

theorem mem_fatalCodes (code : String) : code ∈ fatalCodes ↔ isFatalCode code = true := by
  simp [fatalCodes, isFatalCode, or_assoc]

theorem mem_gameOverCodes (code : String) : code ∈ gameOverCodes ↔ isGameOverCode code = true := by
  simp [gameOverCodes, isGameOverCode, or_assoc]

theorem Shows.handleError (h : Shows g s) (hopen : s.closed = false) (code message : String) :
    Shows (g.handleError code message) (s.refuse code message) := by
  have hseen : Shows { g with fatalSeen := true } { s with ended := true } :=
    ⟨by rw [← h.story]; rfl, h.placed.congr rfl⟩
  unfold P2PGame.handleError Session.refuse
  refine Shows.ite (mem_fatalCodes code) (fun _ => ?_) fun _ => h.emit hopen _
  simp only
  by_cases hover : isGameOverCode code = true
  · rw [if_pos ((mem_gameOverCodes code).2 hover), if_pos hover]
    by_cases hsuperseded : code = "session-superseded"
    · rw [if_neg (by simp [hsuperseded]), if_pos hsuperseded]
      exact hseen.teardownPeers.emit hopen _
    · rw [if_pos hsuperseded, if_neg hsuperseded]
      exact hseen.teardownPeers.clearToken.emit ((Client.Story.closed_forget _).trans hopen) _
  · rw [if_neg fun hmem => hover ((mem_gameOverCodes code).1 hmem), if_neg hover]
    exact hseen.emit hopen _

theorem Shows.modifyKept (h : Shows g s) (n : Nat) {f : PeerLink → PeerLink} (hf : Kept f) :
    Shows (g.modifyLink n f) s :=
  ⟨(story_modifyLink n hf).trans h.story, h.placed.modifyLink n fun link => ⟨(hf link).1, (hf link).2.2.1⟩⟩

theorem kept_addCandidate (cand : Option String) : Kept fun link => link.addCandidate cand :=
  fun _ => ⟨rfl, rfl, rfl, rfl⟩

theorem kept_takeCandidate (cand : Option String) : Kept (PeerLink.takeCandidate cand) := by
  intro link
  unfold PeerLink.takeCandidate
  split_ifs <;> exact ⟨rfl, rfl, rfl, rfl⟩

theorem foldl_addCandidate (queued : List (Option String)) (link : PeerLink) :
    queued.foldl PeerLink.addCandidate link = { link with added := link.added ++ queued } := by
  induction queued generalizing link with
  | nil => simp
  | cons cand rest ih =>
    rw [List.foldl_cons, ih]
    simp [PeerLink.addCandidate]

theorem kept_flushCandidates : Kept PeerLink.flushCandidates := by
  intro link
  unfold PeerLink.flushCandidates
  split
  · exact ⟨rfl, rfl, rfl, rfl⟩
  · rw [foldl_addCandidate]
    exact ⟨rfl, rfl, rfl, rfl⟩

theorem kept_describe (state : Signaling) (remote : Bool) : Kept (PeerLink.describe state remote) :=
  fun _ => ⟨rfl, rfl, rfl, rfl⟩

theorem Shows.handleOffer (h : Shows g s) (hopen : s.closed = false) (env : Env) {source : PlayerId}
    (hown : source ≠ s.selfId) (sdp : Sdp) : Shows (g.handleOffer env source sdp)
      (if s.selfId ≤ source then s else s.renew reader source false (env.creates source)) := by
  have hmade := h.createLink hopen env source false
  unfold P2PGame.handleOffer
  refine Shows.ite ?_ (fun _ => h) fun _ => ?_
  · rw [h.selfId]
    exact ⟨Nat.le_of_lt, fun hle => Nat.lt_of_le_of_ne hle (Ne.symm hown)⟩
  · simp only
    split_ifs with hmakes
    · exact hmade.await (made_createLink hmakes false)
    · exact hmade

theorem Shows.handleAnswer (h : Shows g s) (source : PlayerId) (sdp : Sdp) :
    Shows (g.handleAnswer source sdp) s := by
  unfold P2PGame.handleAnswer
  split
  next n link hpeer hlink =>
    split_ifs
    · exact h
    · obtain ⟨link', hlink', howner, -⟩ := h.placed.opened source n hpeer
      exact h.await ⟨link', hlink', howner⟩
  · exact h

theorem Shows.handleCandidate (h : Shows g s) (source : PlayerId) (cand : Option String) :
    Shows (g.handleCandidate source cand) s := by
  unfold P2PGame.handleCandidate
  split
  · split_ifs
    · exact h
    · exact h.modifyKept _ (kept_takeCandidate cand)
  · exact h

theorem Shows.handleSignal (h : Shows g s) (hopen : s.closed = false) (env : Env) (source : PlayerId)
    (payload : SignalPayload Sdp) : Shows (g.handleSignal env source payload)
      (s.hear reader (.signal source payload) env.creates) := by
  have hnot : ¬g.closedFlag = true := by simp [h.closed, hopen]
  unfold P2PGame.handleSignal Session.hear
  by_cases hown : source = g.selfId
  · rw [if_pos (.inr hown)]
    have hle : s.selfId ≤ source := by rw [hown, h.selfId]
    cases payload with
    | offer sdp =>
      simp only [if_pos hle]
      exact h
    | answer | ice | unknown => exact h
  · rw [if_neg (by simp [hnot, hown])]
    cases payload with
    | offer sdp => exact h.handleOffer hopen env (h.selfId ▸ hown) sdp
    | answer sdp => exact h.handleAnswer source sdp
    | ice cand => exact h.handleCandidate source cand
    | unknown => exact h

theorem Shows.heard (h : Shows g s) (msg : ServerMessage Sdp) :
    Shows { g with roster := updateRoster g.maxPlayers g.roster msg }
      { s with roster := updateRoster s.maxPlayers s.roster msg } := by
  obtain rfl := h.story
  exact ⟨rfl, h.placed.congr rfl⟩

def FullMessage (maxPlayers : Nat) : ServerMessage Sdp → Prop
  | .playerJoined _ players => Full maxPlayers players
  | _ => True

theorem Shows.handlePlayerLeft (h : Shows g s) (hopen : s.closed = false) (env : Env)
    (playerId : PlayerId) (reason : String) :
    Shows (g.handleServerMessage env (.playerLeft playerId reason))
      (s.hear reader (.playerLeft playerId reason : ServerMessage Sdp) env.creates) := by
  have hleft := h.heard (.playerLeft playerId reason)
  unfold P2PGame.handleServerMessage Session.hear P2PGame.setSlot
  by_cases hreason : reason = "explicit-leave"
  · simp only [updateRoster, PlayerLeftReason.fromWire, if_pos hreason] at hleft ⊢
    exact (hleft.closePeer playerId).emit hopen _
  · simp only [updateRoster, PlayerLeftReason.fromWire, if_neg hreason, reduceCtorEq, if_false] at hleft ⊢
    exact hleft.emit hopen _

theorem Shows.handleServerMessage (h : Shows g s) (hopen : s.closed = false) (env : Env)
    {msg : ServerMessage Sdp} (hfull : FullMessage s.maxPlayers msg) :
    Shows (g.handleServerMessage env msg) (s.hear reader msg env.creates) := by
  cases msg with
  | playerJoined playerId players =>
    have hheard : Shows { g with roster := copyPlayers players }
        { s with roster := rosterFromSnapshot s.maxPlayers players } := by
      rw [copyPlayers_eq hfull]
      obtain rfl := h.story
      exact ⟨rfl, h.placed.congr rfl⟩
    exact (hheard.emit hopen _).resetPeer hopen env playerId
  | playerLeft playerId reason => exact h.handlePlayerLeft hopen env playerId reason
  | playerRejoined playerId wasReplacement =>
    exact ((h.heard (.playerRejoined playerId wasReplacement)).emit hopen _).resetPeer hopen env playerId
  | playerReplaced playerId =>
    exact ((h.heard (.playerReplaced playerId)).emit hopen _).resetPeer hopen env playerId
  | roomStarted =>
    have hstarted : Shows { g with startedFlag := true } { s with started := true } :=
      ⟨by rw [← h.story]; rfl, h.placed.congr rfl⟩
    exact hstarted.emit hopen _
  | signal source payload => exact h.handleSignal hopen env source payload
  | error code message => exact h.handleError hopen code message
  | joined | unknown => exact h

theorem Shows.onClose (h : Shows g s) (hopen : s.closed = false) :
    Shows g.onClose (s.take reader (.lost : Happening Sdp)) := by
  have hended : g.fatalSeen = s.ended := congrArg Session.ended h.story
  have hlost : Shows { g with fatalSeen := true } { s with ended := true } :=
    ⟨by rw [← h.story]; rfl, h.placed.congr rfl⟩
  unfold P2PGame.onClose Session.take
  rw [if_neg (by simp [hopen] : ¬s.closed = true)]
  exact Shows.ite (by simp [h.closed, hopen, hended]) (fun _ => h) fun _ => hlost.emit hopen _

theorem Shows.tie (h : Shows g s) {p : PlayerId} {n : Nat} (hmade : g.Made p n) :
    s.tie p n = if g.live n then (g.links n).map (tieOf n) else none := by
  obtain ⟨link, hlink, howner⟩ := hmade
  have hties : s.ties = tieTo g := (congrArg Session.ties h.story).symm
  simp only [Session.tie, P2PGame.live, hties, tieTo, hlink]
  cases hclosed : link.closed with
  | false =>
    have hpeer := h.placed.live n link hlink hclosed
    rw [howner] at hpeer
    simp [hpeer, hlink, tieOf]
  | true =>
    cases hpeer : g.peers p with
    | none => simp
    | some m =>
      obtain ⟨other, hother, -, hopen⟩ := h.placed.opened p m hpeer
      have hne : m ≠ n := by
        rintro rfl
        obtain rfl := Option.some.inj (hother.symm.trans hlink)
        exact absurd (hclosed.symm.trans hopen) (by decide)
      simp [hother, tieOf, hne]

theorem Shows.scheduled (h : Shows g s) (p : PlayerId) (n delay : Nat) :
    Shows { g with timers := g.timers ++ [(p, n, delay)] }
      { s with retries := s.retries ++ [(p, n, delay)] } where
  story := by
    obtain rfl := h.story
    rfl
  placed := h.placed.congr rfl

theorem Shows.handlePeerFailure (h : Shows g s) (hopen : s.closed = false) (p : PlayerId) {n : Nat}
    {link : PeerLink} (hlink : g.links n = some link) :
    Shows (g.handlePeerFailure p n) (s.fail p (tieOf n link)) := by
  have hcounts : g.rebuildCounts = s.failures := congrArg Session.failures h.story
  unfold P2PGame.handlePeerFailure Session.fail
  rw [hlink]
  by_cases hinitiator : link.initiator = true
  · have hgoes : ¬(!link.initiator || g.closedFlag) = true := by simp [hinitiator, h.closed, hopen]
    have htie : (tieOf n link).initiator = true := hinitiator
    have hmax : Client.Native.maxPeerRebuilds = maxPeerRebuilds := rfl
    have hcounted := h.counted p (some ((s.failures p).getD 0 + 1))
    rw [hcounts] at hcounted ⊢
    rw [if_pos htie, hmax]
    simp only [if_neg hgoes]
    by_cases hmany : (s.failures p).getD 0 + 1 > maxPeerRebuilds
    · rw [if_pos hmany, if_neg (Nat.not_le_of_lt hmany), List.append_nil]
      exact hcounted
    · rw [if_neg hmany, if_pos (Nat.le_of_not_lt hmany)]
      exact hcounted.scheduled p n _
  · have hstays : (!link.initiator || g.closedFlag) = true := by simp [hinitiator]
    have htie : ¬(tieOf n link).initiator = true := hinitiator
    rw [if_neg htie]
    simp only [if_pos hstays]
    exact h

theorem links_emit (ev : Event) (n : Nat) : (g.emit ev).links n = g.links n := by
  unfold P2PGame.emit
  split_ifs <;> rfl

theorem Shows.onConnectionState (h : Shows g s) (hopen : s.closed = false) {p : PlayerId} {n : Nat}
    (hmade : g.Made p n) (state : PeerState) :
    Shows (g.onConnectionState p n state) (s.report p n state) := by
  have htie := h.tie hmade
  obtain ⟨link, hlink, howner⟩ := hmade
  unfold P2PGame.onConnectionState Session.report
  rw [htie]
  cases hlive : g.live n with
  | false => exact h
  | true =>
    have htold := h.emit hopen (.peerState p state)
    rw [if_pos rfl, hlink]
    cases state with
    | connected => exact (htold.counted p none).await ⟨link, (links_emit _ n).trans hlink, howner⟩
    | failed => exact htold.handlePeerFailure hopen p ((links_emit _ n).trans hlink)
    | new | connecting | disconnected | closed => exact htold

theorem Shows.held (h : Shows g s) {p : PlayerId} {n : Nat} (hpeer : g.peers p = some n)
    {link : PeerLink} (hlink : g.links n = some link) (r : Reassembler Int) :
    Shows (g.modifyLink n fun link => { link with reassembler := r })
      { s with ties := Function.update s.ties p (some { tieOf n link with held := r }) } where
  story := by
    have hties : tieTo (g.modifyLink n fun link => { link with reassembler := r }) =
        Function.update (tieTo g) p (some { tieOf n link with held := r }) := by
      funext q
      by_cases hq : q = p
      · subst hq
        have hbound : (g.modifyLink n fun link => { link with reassembler := r }).peers q = some n :=
          hpeer
        rw [Function.update_self, tieTo, hbound, Option.bind_some, links_modifyLink, if_pos rfl, hlink]
        rfl
      · rw [Function.update_of_ne hq]
        refine Option.bind_congr fun m hm => ?_
        have hne : m ≠ n := by
          rintro rfl
          obtain ⟨mine, hmine, howner, -⟩ := h.placed.opened q m hm
          obtain ⟨other, hother, howner', -⟩ := h.placed.opened p m hpeer
          obtain rfl := Option.some.inj (hmine.symm.trans hother)
          exact hq (howner.symm.trans howner')
        exact congrArg (Option.map (tieOf m)) ((links_modifyLink n m _).trans (if_neg hne))
    obtain rfl := h.story
    exact congrArg (fun ties => { Telling.story g with ties := ties }) hties
  placed := h.placed.modifyLink n fun _ => ⟨rfl, rfl⟩

theorem peer_of_live (h : Placed g) {p : PlayerId} {n : Nat} (hmade : g.Made p n)
    (hlive : g.live n = true) : g.peers p = some n := by
  obtain ⟨link, hlink, howner⟩ := hmade
  have hopen : link.closed = false := by simpa [P2PGame.live, hlink] using hlive
  exact howner ▸ h.live n link hlink hopen

theorem Shows.onReliableData (h : Shows g s) (hopen : s.closed = false) {p : PlayerId} {n : Nat}
    (hmade : g.Made p n) (hlive : g.live n = true) {data : ChannelData} {bytes : Bytes}
    (hbytes : channelBytes data = some bytes) (now : Int) :
    Shows (g.onReliableData p n data now) (s.receive reader p n bytes now) := by
  have htie := h.tie hmade
  have hpeer := peer_of_live h.placed hmade hlive
  obtain ⟨link, hlink, -⟩ := hmade
  rw [hlive, if_pos rfl, hlink, Option.map_some] at htie
  unfold P2PGame.onReliableData Session.receive
  rw [hbytes, hlink, htie]
  simp only [reader]
  cases hparse : parseFrame bytes with
  | error reason =>
    have hsame : Function.update s.ties p (some { tieOf n link with held := link.reassembler }) = s.ties := by
      have hheld : s.ties p = some (tieOf n link) := by
        have hties : s.ties = tieTo g := (congrArg Session.ties h.story).symm
        rw [hties, tieTo, hpeer, Option.bind_some, hlink, Option.map_some]
      exact Function.update_eq_self_iff.2 hheld.symm
    simp only [tieOf] at hsame ⊢
    rw [hsame]
    exact h
  | ok frame =>
    have hread := h.held hpeer hlink (link.reassembler.push frame now).1
    simp only [tieOf] at hread ⊢
    cases (link.reassembler.push frame now).2 with
    | none => exact hread
    | some message => exact hread.emit hopen _

theorem Shows.onBestEffortData (h : Shows g s) (hopen : s.closed = false) {p : PlayerId} {n : Nat}
    (hmade : g.Made p n) (hlive : g.live n = true) {data : ChannelData} {bytes : Bytes}
    (hbytes : channelBytes data = some bytes) :
    Shows (g.onBestEffortData p data) (s.take reader (.datagram p n bytes : Happening Sdp)) := by
  have htie := h.tie hmade
  obtain ⟨link, hlink, -⟩ := hmade
  rw [hlive, if_pos rfl, hlink, Option.map_some] at htie
  unfold P2PGame.onBestEffortData Session.take
  rw [hbytes, if_neg (by simp [hopen])]
  simp only [htie, Option.isSome_some, if_true]
  exact h.emit hopen _

theorem Shows.rebuild (h : Shows g s) (hopen : s.closed = false) (env : Env) (p : PlayerId) (n : Nat) :
    Shows (g.rebuild env p n) (s.retry reader p n env.failed (env.creates p)) := by
  have hroster : g.roster = s.roster := congrArg Session.roster h.story
  have hties : s.ties = tieTo g := (congrArg Session.ties h.story).symm
  have hcurrent : (s.tie p n).isSome = decide (g.peers p = some n) := by
    rw [Session.tie, hties, tieTo]
    cases hpeer : g.peers p with
    | none => simp
    | some m =>
      obtain ⟨link, hlink, -⟩ := h.placed.opened p m hpeer
      rw [Option.bind_some, hlink, Option.map_some]
      by_cases hm : m = n <;> simp [tieOf, hm]
  unfold P2PGame.rebuild Session.retry Session.present
  rw [hcurrent, hroster]
  cases s.roster[p]? with
  | none =>
    rw [Bool.and_false, if_neg Bool.false_ne_true]
    split_ifs <;> exact h
  | some slot =>
    by_cases hgoes : (decide (g.peers p = some n) && env.failed && (slot.occupied && slot.connected)) = true
    · rw [if_pos hgoes]
      simp only [Bool.and_eq_true, decide_eq_true_eq] at hgoes
      obtain ⟨⟨hpeer, hfailed⟩, hoccupied, hconnected⟩ := hgoes
      have hnow : ¬(g.closedFlag = true ∨ g.peers p ≠ some n ∨ (!env.failed) = true) := by
        simp [h.closed, hopen, hpeer, hfailed]
      have hthere : ¬(!slot.occupied || !slot.connected) = true := by simp [hoccupied, hconnected]
      simp only [if_neg hnow, if_neg hthere]
      exact h.initiatePeer hopen env p
    · rw [if_neg hgoes]
      simp only
      split_ifs with hnow hthere
      · exact h
      · exact h
      · simp only [not_or, not_not, Bool.not_eq_true, Bool.not_eq_false', Bool.or_eq_false_iff] at hnow hthere
        simp [hnow, hthere] at hgoes

theorem Shows.sendSignal (h : Shows g s) (target : PlayerId) (n : Nat) (payload : SignalPayload Sdp) :
    Shows (g.sendSignal target n payload) s := by
  unfold P2PGame.sendSignal
  split_ifs
  · exact ⟨h.story, h.placed.congr rfl⟩
  · exact h

theorem Shows.onIceCandidate (h : Shows g s) (p : PlayerId) (n : Nat) (cand : Option String) :
    Shows (g.onIceCandidate p n cand) s := by
  unfold P2PGame.onIceCandidate
  split
  · exact h
  · split_ifs
    · exact h.sendSignal p n _
    · exact h

theorem Shows.bestEffortTo (h : Shows g s) (env : Env) (target : PlayerId) (bytes : Bytes) :
    Shows (g.bestEffortTo env target bytes) s := by
  unfold P2PGame.bestEffortTo
  split
  · exact h
  · split_ifs
    · exact ⟨h.story, h.placed.congr rfl⟩
    · exact h

theorem Shows.orStay (h : Shows g s) {called : Except LobbyError (P2PGame Sdp)}
    (hcalled : ∀ g', called = .ok g' → Shows g' s) : Shows (g.orStay called) s := by
  cases called with
  | error _ => exact h
  | ok g' => exact hcalled g' rfl

theorem Shows.sendBestEffort (h : Shows g s) (env : Env) (target : Int) (bytes : Bytes) :
    Shows (g.orStay (g.sendBestEffort env target bytes)) s := by
  refine h.orStay fun g' hsent => ?_
  unfold P2PGame.sendBestEffort at hsent
  cases htarget : g.checkTarget target with
  | error _ => simp [htarget, bind, Except.bind] at hsent
  | ok _ =>
    cases hsize : checkSize bytes with
    | error _ => simp [htarget, hsize, bind, Except.bind] at hsent
    | ok _ =>
      simp only [htarget, hsize, bind, Except.bind, pure, Except.pure, Except.ok.injEq] at hsent
      subst hsent
      exact h.bestEffortTo env _ bytes

theorem Shows.broadcastBestEffort (h : Shows g s) (env : Env) (bytes : Bytes) :
    Shows (g.orStay (g.broadcastBestEffort env bytes)) s := by
  have hall (targets : List PlayerInfo) (b : P2PGame Sdp) (hb : Shows b s) :
      Shows (targets.foldl (fun g p => g.bestEffortTo env p.id bytes) b) s := by
    induction targets generalizing b with
    | nil => exact hb
    | cons p rest ih => exact ih _ (hb.bestEffortTo env p.id bytes)
  refine h.orStay fun g' hsent => ?_
  unfold P2PGame.broadcastBestEffort at hsent
  cases hsize : checkSize bytes with
  | error _ => simp [hsize, bind, Except.bind] at hsent
  | ok _ =>
    simp only [hsize, bind, Except.bind, pure, Except.pure, Except.ok.injEq] at hsent
    subst hsent
    exact hall _ g h

theorem Shows.close (h : Shows g s) : Shows g.close (s.take reader (.leave : Happening Sdp)) := by
  have hclosed := h.closed
  unfold P2PGame.close Session.take
  refine Shows.ite (by rw [hclosed]) (fun _ => h) fun _ => ?_
  have hdown : Shows ({ g with
      closedFlag := true
      sent := if g.wsOpen then g.sent ++ [Sent.leave] else g.sent
      wsOpen := false } : P2PGame Sdp).teardownPeers { s with closed := true }.dropAll := by
    obtain rfl := h.story
    have hdown := h.placed.teardownPeers
    exact ⟨rfl, nofun, hdown.live, hdown.made, fun _ => ⟨rfl, fun _ => rfl⟩, hdown.awaited⟩
  exact hdown.clearToken

/-- What has happened, when a callback or the page's call is over. -/
def told : Label Sdp → Option (Happening Sdp)
  | .message env msg => some (.message msg env.creates)
  | .wsClose => some .lost
  | .connectionState p n state => some (.state p n state)
  | .reliableData p n data now => (channelBytes data).map (.frame p n · now)
  | .bestEffortData p n data => (channelBytes data).map (.datagram p n ·)
  | .rebuild env p n => some (.retry p n env.failed env.creates)
  | .settle (.getStats p n) (.pair localType remoteType) => some (.pair p n localType remoteType)
  | .close => some .leave
  | _ => none

def FullStep (maxPlayers : Nat) : Label Sdp → Prop
  | .message _ msg => FullMessage maxPlayers msg
  | _ => True

theorem dead_of_closed (h : Placed g) (hclosed : g.closedFlag = true) {p : PlayerId} {n : Nat}
    (hmade : g.Made p n) : g.live n = false := by
  by_contra hlive
  have hpeer := peer_of_live h hmade (by simpa using hlive)
  exact Option.some_ne_none n (hpeer.symm.trans ((h.gone hclosed).2 p))

theorem Shows.pair (h : Shows g s) {p : PlayerId} {n : Nat} (hmade : g.Made p n)
    (localType remoteType : String) :
    Shows (if g.live n then g.emit (.candidatePair p localType remoteType) else g)
      (s.take reader (.pair p n localType remoteType : Happening Sdp)) := by
  have htie := h.tie hmade
  cases hclosed : s.closed with
  | true =>
    rw [dead_of_closed h.placed (h.closed.trans hclosed) hmade, Session.take, if_pos hclosed]
    exact h
  | false =>
    obtain ⟨link, hlink, -⟩ := hmade
    simp only [Session.take, hclosed, Bool.false_eq_true, if_false]
    rw [htie, hlink]
    cases g.live n with
    | true => exact h.emit hclosed _
    | false => exact h

theorem Shows.over (h : Shows g s) [DecidableEq Sdp] (op : Op Sdp) :
    Shows { g with ops := g.ops.erase op } s :=
  ⟨h.story, h.placed.opened, h.placed.live, h.placed.made, h.placed.gone,
    fun op' hop' => h.placed.awaited op' (List.mem_of_mem_erase hop')⟩

theorem Shows.settle (h : Shows g s) {op : Op Sdp} (hop : g.Made (opLink op).1 (opLink op).2)
    (outcome : Outcome Sdp) :
    Shows (g.settle op outcome) ((told (.settle op outcome)).elim s (s.take reader)) := by
  have hset (n : Nat) (state : Signaling) (remote : Bool) :
      Shows (g.modifyLink n (PeerLink.describe state remote)) s :=
    h.modifyKept n (kept_describe state remote)
  cases op with
  | createOffer p n | createAnswer p n =>
    cases outcome with
    | created sdp =>
      simp only [P2PGame.settle]
      split_ifs
      · exact h.await hop
      · exact h
    | set | pair | failed => exact h
  | setLocalOffer p n offer | setLocalAnswer p n offer =>
    cases outcome with
    | set sdp =>
      simp only [P2PGame.settle]
      split_ifs
      · exact (hset n _ false).sendSignal p n _
      · exact hset n _ false
    | created | pair | failed => exact h
  | setRemoteOffer p n sdp =>
    cases outcome with
    | set _ =>
      simp only [P2PGame.settle]
      split_ifs
      · have hflushed := (hset n .haveRemoteOffer true).modifyKept n kept_flushCandidates
        have hdescribed := made_modifyLink n (fun link => (kept_describe .haveRemoteOffer true link).1) hop
        exact hflushed.await (made_modifyLink n (fun link => (kept_flushCandidates link).1) hdescribed)
      · exact hset n _ true
    | created | pair | failed => exact h
  | setRemoteAnswer p n sdp =>
    cases outcome with
    | set _ => exact (hset n .stable true).modifyKept n kept_flushCandidates
    | created | pair | failed => exact h
  | getStats p n =>
    cases outcome with
    | pair localType remoteType => exact h.pair hop localType remoteType
    | created | set | failed => exact h

theorem Shows.onReliable (h : Shows g s) (hopen : s.closed = false) {p : PlayerId} {n : Nat}
    (hmade : g.Made p n) (hlive : g.live n = true) (data : ChannelData) (now : Int) :
    Shows (g.onReliableData p n data now)
      (((channelBytes data).map (.frame p n · now : Bytes → Happening Sdp)).elim s (s.take reader)) := by
  cases hbytes : channelBytes data with
  | none =>
    simp only [P2PGame.onReliableData, hbytes]
    exact h
  | some bytes =>
    have htaken := h.onReliableData hopen hmade hlive hbytes now
    simpa [Session.take, hopen] using htaken

theorem Shows.onBestEffort (h : Shows g s) (hopen : s.closed = false) {p : PlayerId} {n : Nat}
    (hmade : g.Made p n) (hlive : g.live n = true) (data : ChannelData) :
    Shows (g.onBestEffortData p data)
      (((channelBytes data).map (.datagram p n · : Bytes → Happening Sdp)).elim s (s.take reader)) := by
  cases hbytes : channelBytes data with
  | none =>
    simp only [P2PGame.onBestEffortData, hbytes]
    exact h
  | some bytes => exact h.onBestEffortData hopen hmade hlive hbytes

theorem Shows.wsDown (h : Shows g s) : Shows { g with wsOpen := false } s :=
  ⟨h.story, h.placed.opened, h.placed.live, h.placed.made,
    fun hgone => ⟨rfl, (h.placed.gone hgone).2⟩, h.placed.awaited⟩

/-- Nothing happens to a client that has been closed. -/
theorem elim_closed (hclosed : s.closed = true) (happening : Option (Happening Sdp)) :
    happening.elim s (s.take reader) = s := by
  cases happening with
  | none => rfl
  | some happening => exact if_pos hclosed

theorem shows_new {joined : JoinedMsg} (hfull : Full joined.maxPlayers joined.players)
    (storage : Option (Option String)) :
    Shows (P2PGame.new storage joined : P2PGame Sdp) (Session.new joined storage.isSome) where
  story := by
    unfold Session.new
    rw [← copyPlayers_eq hfull]
    cases storage <;> rfl
  placed := ⟨nofun, nofun, fun _ hn => absurd rfl hn, fun hgone => absurd hgone Bool.false_ne_true, nofun⟩

theorem Shows.initialTargets (h : Shows g s) : g.initialTargets = s.targets := by
  have hroster : g.roster = s.roster := congrArg Session.roster h.story
  unfold P2PGame.initialTargets Session.targets
  rw [hroster, h.selfId]
  refine congrArg (List.map _) (List.filter_congr fun p _ => ?_)
  by_cases hlt : s.selfId < p.id
  · simp [hlt, Nat.ne_of_gt hlt]
  · simp [hlt]

theorem Shows.initiate (env : Env) (targets : List PlayerId) (h : Shows g s) (hopen : s.closed = false) :
    Shows (targets.foldl (fun g p => g.initiatePeer env p) g)
      (targets.foldl (fun s p => s.renew reader p true (env.creates p)) s) := by
  induction targets generalizing g s with
  | nil => exact h
  | cons p rest ih => exact ih (h.initiatePeer hopen env p) hopen

theorem shows_start {joined : JoinedMsg} (hfull : Full joined.maxPlayers joined.players)
    (env : Env) (storage : Option (Option String)) :
    Shows (P2PGame.start env storage joined : P2PGame Sdp)
      ((Session.new joined storage.isSome).take reader (.begun env.creates : Happening Sdp)) := by
  have hnew : Shows (P2PGame.new storage joined : P2PGame Sdp) _ := shows_new hfull storage
  unfold P2PGame.start
  simp only
  rw [hnew.initialTargets]
  exact hnew.initiate env _ rfl

theorem maxPlayers_take (s : Session (Reassembler Int)) (happening : Happening Sdp) :
    (s.take reader happening).maxPlayers = s.maxPlayers := by
  have hforget (s : Session (Reassembler Int)) : s.forget.maxPlayers = s.maxPlayers := by
    unfold Session.forget
    split_ifs <;> rfl
  have hmeet (s : Session (Reassembler Int)) (p : PlayerId) (made : Bool) :
      (s.meet reader p made).maxPlayers = s.maxPlayers := by
    simp only [Session.meet]
    split_ifs <;> rfl
  have hbegin (targets : List PlayerId) (makes : PlayerId → Bool) (s : Session (Reassembler Int)) :
      (targets.foldl (fun s p => s.renew reader p true (makes p)) s).maxPlayers = s.maxPlayers := by
    induction targets generalizing s with
    | nil => rfl
    | cons p rest ih => exact ih _
  unfold Session.take
  by_cases hclosed : s.closed = true
  · rw [if_pos hclosed]
  · rw [if_neg hclosed]
    cases happening with
    | begun makes => exact hbegin _ makes s
    | message msg makes =>
      cases msg with
      | playerJoined p | playerRejoined p | playerReplaced p => exact hmeet _ p _
      | playerLeft p reason =>
        simp only [Session.hear]
        split_ifs <;> rfl
      | signal source payload =>
        cases payload with
        | offer sdp =>
          simp only [Session.hear]
          split_ifs <;> rfl
        | answer | ice | unknown => rfl
      | error code message =>
        simp only [Session.hear, Session.refuse]
        split_ifs
        · rfl
        · exact hforget _
        · rfl
        · rfl
      | roomStarted | joined | unknown => rfl
    | lost | datagram | pair =>
      simp only
      split_ifs <;> rfl
    | state p number state =>
      simp only [Session.report]
      split
      · rfl
      · cases state with
        | failed =>
          simp only [Session.fail]
          split_ifs <;> rfl
        | new | connecting | connected | disconnected | closed => rfl
    | frame p number data now =>
      simp only [Session.receive]
      split
      · rfl
      · split <;> rfl
    | retry p number failed makes =>
      simp only [Session.retry]
      split_ifs <;> rfl
    | leave => exact hforget _

variable [DecidableEq Sdp]

theorem Shows.still (h : Shows g s) (hclosed : s.closed = true) {l : Label Sdp} (henabled : g.Enabled l) :
    Shows (g.take l) s := by
  have hflag : g.closedFlag = true := h.closed.trans hclosed
  have hshut := (h.placed.gone hflag).1
  cases l with
  | message env msg => exact absurd (hshut.symm.trans henabled) Bool.false_ne_true
  | wsDown => exact h.wsDown
  | wsClose =>
    rw [P2PGame.take, P2PGame.onClose, if_pos (.inl hflag)]
    exact h
  | iceCandidate p n cand => exact h.onIceCandidate p n cand
  | connectionState p n state =>
    rw [P2PGame.take, P2PGame.onConnectionState, dead_of_closed h.placed hflag henabled]
    exact h
  | reliableData p n | bestEffortData p n =>
    have hdead := dead_of_closed h.placed hflag henabled.1
    exact absurd (hdead.symm.trans henabled.2) Bool.false_ne_true
  | rebuild env p n =>
    rw [P2PGame.take, P2PGame.rebuild, if_pos (.inl hflag)]
    exact h
  | settle op outcome =>
    have hsettled := (h.over op).settle (h.placed.awaited op henabled) outcome
    rwa [elim_closed hclosed] at hsettled
  | sendBestEffort env target bytes => exact h.sendBestEffort env target bytes
  | broadcastBestEffort env bytes => exact h.broadcastBestEffort env bytes
  | close =>
    rw [P2PGame.take, P2PGame.close, if_pos hflag]
    exact h

/-- One step of the client is the part of the story that it tells. -/
theorem Shows.step {l : Label Sdp} (h : Shows g s) (henabled : g.Enabled l)
    (hfull : FullStep s.maxPlayers l) : Shows (g.take l) ((told l).elim s (s.take reader)) := by
  cases hclosed : s.closed with
  | true =>
    rw [elim_closed hclosed]
    exact h.still hclosed henabled
  | false =>
    have hnot : ¬s.closed = true := by simp [hclosed]
    cases l with
    | message env msg =>
      simp only [told, Option.elim_some, Session.take, if_neg hnot]
      exact h.handleServerMessage hclosed env hfull
    | wsDown => exact h.wsDown
    | wsClose => exact h.onClose hclosed
    | iceCandidate p n cand => exact h.onIceCandidate p n cand
    | connectionState p n state =>
      simp only [told, Option.elim_some, Session.take, if_neg hnot]
      exact h.onConnectionState hclosed henabled state
    | reliableData p n data now => exact h.onReliable hclosed henabled.1 henabled.2 data now
    | bestEffortData p n data => exact h.onBestEffort hclosed henabled.1 henabled.2 data
    | rebuild env p n =>
      simp only [told, Option.elim_some, Session.take, if_neg hnot]
      exact h.rebuild hclosed env p n
    | settle op outcome => exact (h.over op).settle (h.placed.awaited op henabled) outcome
    | sendBestEffort env target bytes => exact h.sendBestEffort env target bytes
    | broadcastBestEffort env bytes => exact h.broadcastBestEffort env bytes
    | close => exact h.close

theorem Shows.steps {env : Env} {storage : Option (Option String)} {joined : JoinedMsg}
    {ls : List (Label Sdp)} (h : Shows g s) (steps : Steps (system env storage joined) g ls g')
    (hfull : ∀ l ∈ ls, FullStep s.maxPlayers l) :
    Shows g' (s.run reader (ls.filterMap told)) ∧
      (s.run reader (ls.filterMap told)).maxPlayers = s.maxPlayers := by
  induction steps with
  | refl => exact ⟨h, rfl⟩
  | @snoc ls b c l _ hstep ih =>
    obtain ⟨hshows, hsize⟩ := ih fun m hm => hfull m (List.mem_append_left _ hm)
    obtain ⟨henabled, rfl⟩ := hstep
    rw [Client.Story.run_snoc]
    refine ⟨hshows.step henabled (hsize ▸ hfull l (by simp)), ?_⟩
    cases told l with
    | none => exact hsize
    | some happening => exact (maxPlayers_take _ happening).trans hsize

theorem shows_run {env : Env} {storage : Option (Option String)} {joined : JoinedMsg}
    (hjoined : Full joined.maxPlayers joined.players) {ls : List (Label Sdp)}
    (run : Run (system env storage joined) ls g) (hfull : ∀ l ∈ ls, FullStep joined.maxPlayers l) :
    Shows g ((Session.new joined storage.isSome).run reader
      (.begun env.creates :: ls.filterMap told)) := by
  obtain ⟨first, rfl, steps⟩ := run.steps
  have hstart : Shows (P2PGame.start env storage joined : P2PGame Sdp) _ := shows_start hjoined env storage
  have hsize : ((Session.new joined storage.isSome : Session (Reassembler Int)).take reader
      (.begun env.creates : Happening Sdp)).maxPlayers = joined.maxPlayers := maxPlayers_take ..
  exact (hstart.steps steps (hsize ▸ hfull)).1

/-- Over every run, as long as the server's snapshots have every slot in its place. -/
theorem browser_run {env : Env} {storage : Option (Option String)} {joined : JoinedMsg}
    (hjoined : Full joined.maxPlayers joined.players) {ls : List (Label Sdp)}
    (run : Run (system env storage joined) ls g) (hfull : ∀ l ∈ ls, FullStep joined.maxPlayers l) :
    story g = (Session.new joined storage.isSome).run reader
      (.begun env.creates :: ls.filterMap told) := (shows_run hjoined run hfull).story

def pairMsg : JoinedMsg := ⟨"ROOM", 0, 2, false, "t", [⟨0, true, true⟩, ⟨1, true, true⟩]⟩

def pairEnv : Env := ⟨fun _ => true, true, fun _ => true⟩

def pairLabels : List (Label String) :=
  [.settle (.createOffer 1 1) (.created "o"), .connectionState 1 1 .failed, .rebuild pairEnv 1 1]

def pairGame : P2PGame String := pairLabels.foldl P2PGame.take (.start pairEnv none pairMsg)

theorem run_take {env : Env} {storage : Option (Option String)} {joined : JoinedMsg}
    {ls : List (Label Sdp)} (run : Run (system env storage joined) ls g) (l : Label Sdp)
    (h : g.Enabled l) : Run (system env storage joined) (ls ++ [l]) (g.take l) := run.step ⟨h, rfl⟩

theorem pair_run : Run (system pairEnv none pairMsg) pairLabels pairGame := by
  let start : P2PGame String := .start pairEnv none pairMsg
  let offered := start.take (.settle (.createOffer 1 1) (.created "o"))
  let failed := offered.take (.connectionState 1 1 .failed)
  have hstart : Run (system pairEnv none pairMsg) [] start := .init rfl
  have hop : Op.createOffer 1 1 ∈ start.ops := .head _
  have hmade : offered.Made 1 1 := ⟨_, rfl, rfl⟩
  have htimer : ∃ delay, (1, 1, delay) ∈ failed.timers := ⟨1000, .head _⟩
  have hoffered : Run (system pairEnv none pairMsg) _ offered := run_take hstart _ hop
  have hfailed : Run (system pairEnv none pairMsg) _ failed := run_take hoffered _ hmade
  exact run_take hfailed (.rebuild pairEnv 1 1) htimer

theorem browser_run_pair : (story pairGame).attempts = 2 ∧
    story pairGame = (Session.new pairMsg false).run reader
      (.begun pairEnv.creates :: pairLabels.filterMap told) := by
  have hjoined : Full pairMsg.maxPlayers pairMsg.players := rfl
  have hfull : ∀ l ∈ pairLabels, FullStep pairMsg.maxPlayers l := by simp [pairLabels, FullStep]
  exact ⟨rfl, browser_run hjoined pair_run hfull⟩

end Lobbylink.Ts.Telling
