import Lobbylink.Ts.Links
import Lobbylink.Ts.Sends

/-! The sends to one player go one after the other, in the order of their calls, and a link is
given the frames of its messages in that order. -/
namespace Lobbylink.Ts.Chains
open Client.Protocol Client.Roster Reliable Game Sends Links Lib.Runs
open Telling (Placed)

variable {Sdp : Type}

/-- What the loop has done with the frames that were left, when it stops. -/
structure Hands (c : Channel) (left : List Bytes) (r : Channel × Nat × Phase) : Prop where
  frames : r.1.frames = c.frames ++ left.take r.2.1
  bound : r.2.1 ≤ left.length
  nextMsgId : r.1.nextMsgId = c.nextMsgId
  readyState : r.1.readyState = c.readyState
  openWait : r.1.openWait = c.openWait
  stops : r.2.2 = .settled (.ok ()) ∧ r.2.1 = left.length ∨
    (∃ err, r.2.2 = .settled (.error err)) ∨ r.2.2 = .awaitDrain ∧ r.2.1 < left.length

theorem hands_nothing (c : Channel) (frame : Bytes) (rest : List Bytes) {phase : Phase}
    (h : (∃ err, phase = .settled (.error err)) ∨ phase = .awaitDrain) :
    Hands c (frame :: rest) (c, 0, phase) :=
  ⟨by simp, Nat.zero_le _, rfl, rfl, rfl, .inr (h.imp_right fun h => ⟨h, Nat.succ_pos _⟩)⟩

theorem sendChunks_hands (luck : Luck) (p : PlayerId) (closed drained : Bool) (c : Channel)
    (left : List Bytes) : Hands c left (sendChunks luck p closed drained c left) := by
  induction left generalizing drained c with
  | nil => exact ⟨by simp [sendChunks], Nat.le_refl _, rfl, rfl, rfl, .inl ⟨rfl, rfl⟩⟩
  | cons frame rest ih =>
    unfold sendChunks
    split_ifs
    · exact hands_nothing c frame rest (.inl ⟨_, rfl⟩)
    · exact hands_nothing c frame rest (.inr rfl)
    · cases hsent : dcSend luck c frame with
      | none => exact hands_nothing c frame rest (.inl ⟨_, rfl⟩)
      | some c' =>
        have htaken := hsent
        unfold dcSend at htaken
        split_ifs at htaken
        obtain rfl := Option.some.inj htaken
        have h := ih false { c with
          bufferedAmount := c.bufferedAmount + frame.length
          frames := c.frames ++ [frame] }
        refine ⟨?_, Nat.succ_le_succ h.bound, h.nextMsgId, h.readyState, h.openWait, ?_⟩
        · simpa [List.take_succ_cons] using h.frames
        · refine h.stops.imp (fun hall => ⟨hall.1, congrArg Nat.succ hall.2⟩) fun hnot => ?_
          exact hnot.imp_right fun hwaits => ⟨hwaits.1, Nat.succ_lt_succ hwaits.2⟩

theorem sendChunks_shut (luck : Luck) (p : PlayerId) (closed drained : Bool) {c : Channel}
    (hshut : c.readyState ≠ .opened) {left : List Bytes} (hleft : left ≠ []) :
    (sendChunks luck p closed drained c left).1 = c ∧
      ((∃ err, (sendChunks luck p closed drained c left).2.2 = .settled (.error err)) ∨
        closed = false ∧ (sendChunks luck p closed drained c left).2.2 = .awaitDrain) := by
  cases left with
  | nil => exact absurd rfl hleft
  | cons frame rest =>
    have hnone : dcSend luck c frame = none := if_neg fun h => hshut h.1
    unfold sendChunks
    simp only [hnone]
    split_ifs with hclosed hfull
    · exact ⟨rfl, .inl ⟨_, rfl⟩⟩
    · refine ⟨rfl, ?_⟩
      cases closed with
      | false => exact .inr ⟨rfl, rfl⟩
      | true => cases drained <;> simp at hclosed hfull
    · exact ⟨rfl, .inl ⟨_, rfl⟩⟩

def Phase.isQueued : Phase → Bool
  | .queued => true
  | _ => false

def Phase.isEarly : Phase → Bool
  | .queued | .awaitLink | .linked _ | .awaitOpen _ | .opened _ => true
  | _ => false

def Phase.isLate : Phase → Bool
  | .awaitDrain | .drained => true
  | _ => false

def Phase.names : Phase → Option Nat
  | .linked n | .awaitOpen n | .opened n => some n
  | _ => none

def framesOf (v : Locals) (bytes : Bytes) : List Bytes := sendReliableNow v.msgId bytes

theorem length_framesOf (v : Locals) (bytes : Bytes) :
    (framesOf v bytes).length = max 1 (ceilDiv bytes.length chunkPayload) := by
  simp [framesOf, sendReliableNow]

theorem length_read (memory : Memory) (view : Uint8Array) :
    (view.read memory).length = view.byteLength := by
  simp [Uint8Array.read]

/-- A message that a link has given an id to, with what its view held at the call and the frames
that were handed over. -/
structure Message where
  locals : Locals
  called : Bytes
  handed : List Bytes

def message (a : Send) (n : Nat) : Option Message :=
  (a.locals.filter fun v => v.link = n).map fun v => ⟨v, a.called, a.handed⟩

/-- The messages that a link has given ids to, in the order of the calls. -/
def given (sends : List Send) (n : Nat) : List Message := sends.filterMap (message · n)

/-- Each is the frame with its number of a message of this length. -/
def Framed (v : Locals) (length : Nat) (handed : List Bytes) : Prop :=
  ∀ (k : Nat) (frame : Bytes), handed[k]? = some frame →
    ∃ data : Bytes, data.length = length ∧ (framesOf v data)[k]? = some frame

/-- A send starts when those before it to the same target are settled. -/
def Turn (s : Page Sdp) (i : Nat) : Prop :=
  ∀ (j : Nat) (a b : Send), j < i → s.sends[j]? = some a → s.sends[i]? = some b →
    a.target = b.target → a.phase.isSettled = true

/-- What a send is chained to: no send to its target comes between. -/
structure Linked (s : Page Sdp) : Prop where
  prev : ∀ (i k : Nat) (b : Send), s.sends[i]? = some b → b.prev = some k →
    k < i ∧ ∃ c, s.sends[k]? = some c ∧ c.target = b.target
  last : ∀ (i j : Nat) (a b : Send), j < i → s.sends[j]? = some a → s.sends[i]? = some b →
    a.target = b.target → ∃ k, b.prev = some k ∧ j ≤ k
  tail : ∀ (p : PlayerId) (k : Nat), s.sendChains p = some k →
    ∃ c, s.sends[k]? = some c ∧ c.target = p
  newest : ∀ (j : Nat) (a : Send), s.sends[j]? = some a → ∃ k, s.sendChains a.target = some k ∧ j ≤ k

/-- What a send has handed over, of what its view held at the call, while `kept` says that the page
has not written there. -/
structure Copies (kept : Prop) (s : Page Sdp) : Prop where
  view : kept → ∀ (i : Nat) (a : Send), s.sends[i]? = some a → a.phase.isSettled = false →
    a.bytes.read s.memory = a.called
  copied : kept → ∀ (i : Nat) (a : Send) (v : Locals), s.sends[i]? = some a → a.locals = some v →
    a.handed = (framesOf v a.called).take v.seq

structure Inv (kept : Prop) (s : Page Sdp) : Prop where
  placed : Placed s.game
  links : Linked s
  turn : ∀ (i j : Nat) (a b : Send), i < j → s.sends[i]? = some a → s.sends[j]? = some b →
    a.target = b.target → Phase.isQueued b.phase = false → a.phase.isSettled = true
  early : ∀ (i : Nat) (a : Send), s.sends[i]? = some a → Phase.isEarly a.phase = true →
    a.locals = none ∧ a.handed = []
  late : ∀ (i : Nat) (a : Send), s.sends[i]? = some a → Phase.isLate a.phase = true →
    ∃ v, a.locals = some v ∧ v.seq < (framesOf v a.called).length
  named : ∀ (i : Nat) (a : Send) (n : Nat), s.sends[i]? = some a → Phase.names a.phase = some n →
    s.game.Made a.target n
  held : ∀ (i : Nat) (a : Send) (v : Locals), s.sends[i]? = some a → a.locals = some v →
    s.game.Made a.target v.link ∧ a.handed.length = v.seq ∧ v.seq ≤ (framesOf v a.called).length
  framed : ∀ (i : Nat) (a : Send) (v : Locals), s.sends[i]? = some a → a.locals = some v →
    Framed v a.called.length a.handed
  whole : ∀ (i : Nat) (a : Send), s.sends[i]? = some a → a.phase = .settled (.ok ()) →
    ∃ v, a.locals = some v ∧ v.seq = (framesOf v a.called).length
  frames : ∀ n, (s.channels n).frames = (given s.sends n).flatMap (·.handed)
  ids : ∀ n, (given s.sends n).map (·.locals.msgId) =
    (List.range (given s.sends n).length).map toUint32
  next : ∀ n, (s.channels n).nextMsgId = toUint32 (given s.sends n).length
  size : ∀ (i : Nat) (a : Send), s.sends[i]? = some a →
    a.called.length = a.bytes.byteLength ∧ a.bytes.byteLength ≤ maxReliableMessage
  copies : Copies kept s

/-- The chain puts the sends to one target in turn. -/
theorem Inv.turn_of_chained {kept : Prop} {s : Page Sdp} (h : Inv kept s) {i : Nat} {b : Send}
    (hb : s.sends[i]? = some b) (hchained : s.Chained b) : Turn s i := by
  intro j a b' hji ha hb' htarget
  obtain rfl := Option.some.inj (hb.symm.trans hb')
  obtain ⟨k, hprev, hjk⟩ := h.links.last i j a b hji ha hb htarget
  obtain ⟨-, c, hc, htarget'⟩ := h.links.prev i k b hb hprev
  obtain ⟨before, hbefore, hsettled⟩ := hchained k hprev
  obtain rfl := Option.some.inj (hc.symm.trans hbefore)
  rcases Nat.lt_or_eq_of_le hjk with hlt | rfl
  · -- the send before has started, so all those before it are settled
    refine h.turn j k a c hlt ha hc (htarget.trans htarget'.symm) ?_
    cases hphase : c.phase <;> simp [hphase, Phase.isSettled, Phase.isQueued] at hsettled ⊢
  · obtain rfl := Option.some.inj (ha.symm.trans hc)
    exact hsettled

/-- What can become of a send, while no frame is handed over. -/
structure Turns (s : Page Sdp) (g : P2PGame Sdp) (i : Nat) (a b : Send) : Prop where
  only : b = { a with phase := b.phase }
  settled : a.phase.isSettled = true → b.phase.isSettled = true
  starts : Phase.isQueued b.phase = false → Phase.isQueued a.phase = false ∨ Turn s i
  early : Phase.isEarly b.phase = true → Phase.isEarly a.phase = true
  late : Phase.isLate b.phase = true → Phase.isLate a.phase = true
  names : ∀ n, Phase.names b.phase = some n → Phase.names a.phase = some n ∨ g.Made a.target n
  whole : b.phase = .settled (.ok ()) → a.phase = .settled (.ok ())

theorem Turns.refl (s : Page Sdp) (g : P2PGame Sdp) (i : Nat) (a : Send) : Turns s g i a a :=
  ⟨rfl, id, .inl, id, id, fun _ => .inl, id⟩

theorem Turns.same {s : Page Sdp} {g : P2PGame Sdp} {i : Nat} {a b : Send} (h : Turns s g i a b) :
    b.target = a.target ∧ b.prev = a.prev ∧ b.bytes = a.bytes ∧ b.locals = a.locals ∧
      b.called = a.called ∧ b.handed = a.handed := by
  rw [h.only]
  exact ⟨rfl, rfl, rfl, rfl, rfl, rfl⟩

def SameFrames (s t : Page Sdp) : Prop :=
  ∀ n, (t.channels n).frames = (s.channels n).frames ∧
    (t.channels n).nextMsgId = (s.channels n).nextMsgId

/-- What the page keeps to is still under the views of the unsettled sends. -/
def SameViews (kept : Prop) (s t : Page Sdp) : Prop :=
  kept → ∀ a ∈ s.sends, a.phase.isSettled = false → a.bytes.read t.memory = a.bytes.read s.memory

variable {kept : Prop} {s t : Page Sdp}

theorem given_congr {sends sends' : List Send} (hlen : sends'.length = sends.length)
    (hsame : ∀ (i : Nat) (a b : Send), sends[i]? = some a → sends'[i]? = some b →
      ∀ n, message b n = message a n) (n : Nat) : given sends' n = given sends n := by
  have hcore : sends'.map (message · n) = sends.map (message · n) := by
    apply List.ext_getElem?
    intro i
    rw [List.getElem?_map, List.getElem?_map]
    cases hb : sends'[i]? with
    | none =>
      have hge : sends.length ≤ i := hlen ▸ List.getElem?_eq_none_iff.1 hb
      rw [List.getElem?_eq_none hge]
    | some b =>
      have hlt : i < sends.length := hlen ▸ (List.getElem?_eq_some_iff.1 hb).1
      have hmessage := hsame i _ b (List.getElem?_eq_getElem hlt) hb n
      rw [List.getElem?_eq_getElem hlt, Option.map_some, Option.map_some, hmessage]
  have hvia (sends : List Send) : given sends n = (sends.map (message · n)).filterMap id := by
    rw [List.filterMap_map]
    rfl
  rw [hvia, hvia, hcore]

/-- The chains are made by the calls. -/
theorem Linked.congr (h : Linked s) (hchains : t.sendChains = s.sendChains)
    (hback : ∀ (i : Nat) (b : Send), t.sends[i]? = some b →
      ∃ a, s.sends[i]? = some a ∧ b.target = a.target ∧ b.prev = a.prev)
    (hforth : ∀ (i : Nat) (a : Send), s.sends[i]? = some a →
      ∃ b, t.sends[i]? = some b ∧ b.target = a.target) : Linked t where
  prev i k b hb hprev := by
    obtain ⟨b', hb', htarget, hprev'⟩ := hback i b hb
    obtain ⟨hlt, c, hc, hsame⟩ := h.prev i k b' hb' (hprev'.symm.trans hprev)
    obtain ⟨c', hc', htarget'⟩ := hforth k c hc
    exact ⟨hlt, c', hc', htarget'.trans (hsame.trans htarget.symm)⟩
  last i j a b hji ha hb hsame := by
    obtain ⟨a', ha', htarget, -⟩ := hback j a ha
    obtain ⟨b', hb', htarget', hprev'⟩ := hback i b hb
    rw [hprev']
    exact h.last i j a' b' hji ha' hb' (htarget.symm.trans (hsame.trans htarget'))
  tail p k hk := by
    rw [hchains] at hk
    obtain ⟨c, hc, hp⟩ := h.tail p k hk
    obtain ⟨c', hc', htarget⟩ := hforth k c hc
    exact ⟨c', hc', htarget.trans hp⟩
  newest j a ha := by
    obtain ⟨a', ha', htarget, -⟩ := hback j a ha
    rw [hchains, htarget]
    exact h.newest j a' ha'

theorem Inv.turns (h : Inv kept s) (hplaced : Placed t.game) (hgrows : Grows s.game t.game)
    (hlen : t.sends.length = s.sends.length)
    (hsends : ∀ (i : Nat) (a b : Send), s.sends[i]? = some a → t.sends[i]? = some b →
      Turns s t.game i a b) (hframes : SameFrames s t) (hchains : t.sendChains = s.sendChains)
    (hviews : SameViews kept s t) : Inv kept t := by
  have hback (i : Nat) (b : Send) (hb : t.sends[i]? = some b) : ∃ a, s.sends[i]? = some a ∧
      Turns s t.game i a b := by
    have hlt : i < s.sends.length := hlen ▸ (List.getElem?_eq_some_iff.1 hb).1
    exact ⟨_, List.getElem?_eq_getElem hlt, hsends i _ b (List.getElem?_eq_getElem hlt) hb⟩
  have hforth (i : Nat) (a : Send) (ha : s.sends[i]? = some a) : ∃ b, t.sends[i]? = some b ∧
      Turns s t.game i a b := by
    have hlt : i < t.sends.length := hlen ▸ (List.getElem?_eq_some_iff.1 ha).1
    exact ⟨_, List.getElem?_eq_getElem hlt, hsends i a _ ha (List.getElem?_eq_getElem hlt)⟩
  have hgiven (n : Nat) : given t.sends n = given s.sends n := by
    refine given_congr hlen (fun i a b ha hb n => ?_) n
    rw [(hsends i a b ha hb).only]
    rfl
  refine ⟨hplaced, ?links, ?turn, ?early, ?late, ?named, ?held, ?framed, ?whole, ?frames, ?ids, ?next,
    ?size, ?shown, ?copied⟩
  case links =>
    refine h.links.congr hchains (fun i b hb => ?_) fun i a ha => ?_
    · obtain ⟨a, ha, hturns⟩ := hback i b hb
      exact ⟨a, ha, hturns.same.1, hturns.same.2.1⟩
    · obtain ⟨b, hb, hturns⟩ := hforth i a ha
      exact ⟨b, hb, hturns.same.1⟩
  case turn =>
    intro i j a b hij ha hb htarget hqueued
    obtain ⟨a', ha', hturns⟩ := hback i a ha
    obtain ⟨b', hb', hturns'⟩ := hback j b hb
    have hsame : a'.target = b'.target :=
      hturns.same.1.symm.trans (htarget.trans hturns'.same.1)
    rcases hturns'.starts hqueued with hqueued | hturn
    · exact hturns.settled (h.turn i j a' b' hij ha' hb' hsame hqueued)
    · exact hturns.settled (hturn i a' b' hij ha' hb' hsame)
  case early =>
    intro i a ha hearly
    obtain ⟨a', ha', hturns⟩ := hback i a ha
    rw [hturns.only]
    exact h.early i a' ha' (hturns.early hearly)
  case late =>
    intro i a ha hlate
    obtain ⟨a', ha', hturns⟩ := hback i a ha
    rw [hturns.only]
    exact h.late i a' ha' (hturns.late hlate)
  case named =>
    intro i a n ha hnames
    obtain ⟨a', ha', hturns⟩ := hback i a ha
    rw [hturns.only]
    exact (hturns.names n hnames).elim (fun hold => hgrows.made (h.named i a' n ha' hold)) id
  case held =>
    intro i a v ha hv
    obtain ⟨a', ha', hturns⟩ := hback i a ha
    rw [hturns.only] at hv ⊢
    exact (h.held i a' v ha' hv).imp_left hgrows.made
  case framed =>
    intro i a v ha hv
    obtain ⟨a', ha', hturns⟩ := hback i a ha
    rw [hturns.only] at hv ⊢
    exact h.framed i a' v ha' hv
  case whole =>
    intro i a ha hok
    obtain ⟨a', ha', hturns⟩ := hback i a ha
    rw [hturns.only]
    exact h.whole i a' ha' (hturns.whole hok)
  case frames => exact fun n => by rw [(hframes n).1, hgiven, h.frames]
  case ids => exact fun n => by rw [hgiven, h.ids]
  case next => exact fun n => by rw [(hframes n).2, hgiven, h.next]
  case size =>
    intro i a ha
    obtain ⟨a', ha', hturns⟩ := hback i a ha
    rw [hturns.only]
    exact h.size i a' ha'
  case shown =>
    intro hkept i a ha hwaits
    obtain ⟨a', ha', hturns⟩ := hback i a ha
    have hwaits' : a'.phase.isSettled = false := by
      rw [← Bool.not_eq_true] at hwaits ⊢
      exact fun hsettled => hwaits (hturns.settled hsettled)
    rw [hturns.only]
    exact (hviews hkept a' (List.mem_of_getElem? ha') hwaits').trans (h.copies.view hkept i a' ha' hwaits')
  case copied =>
    intro hkept i a v ha hv
    obtain ⟨a', ha', hturns⟩ := hback i a ha
    rw [hturns.only] at hv ⊢
    exact h.copies.copied hkept i a' v ha' hv

theorem Inv.rephase (h : Inv kept s) {f : Send → Phase}
    (hf : ∀ (i : Nat) (a : Send), s.sends[i]? = some a → Turns s s.game i a { a with phase := f a }) :
    Inv kept (s.rephase f) := by
  refine h.turns h.placed (.refl _) (List.length_map ..) (fun i a b ha hb => ?_) (fun n => ⟨rfl, rfl⟩) rfl
    fun _ _ _ _ => rfl
  have hb' : (s.sends.map fun send => { send with phase := f send })[i]? = some b := hb
  rw [List.getElem?_map, ha] at hb'
  obtain rfl := Option.some.inj hb'
  exact hf i a ha

theorem Inv.enter (h : Inv kept s) {i : Nat} {a : Send} (ha : s.sends[i]? = some a) {phase : Phase}
    (hphase : Turns s s.game i a { a with phase := phase }) : Inv kept (s.enter i phase) := by
  refine h.turns h.placed (.refl _) (List.length_modify ..) (fun j x y hx hy => ?_)
    (fun n => ⟨rfl, rfl⟩) rfl fun _ _ _ _ => rfl
  have hy' : (s.sends.modify i fun send => { send with phase := phase })[j]? = some y := hy
  rw [List.getElem?_modify, hx] at hy'
  by_cases hij : i = j
  · subst hij
    obtain rfl := Option.some.inj (ha.symm.trans hx)
    obtain rfl : { a with phase := phase } = y := by simpa using hy'
    exact hphase
  · obtain rfl : x = y := by simpa [hij] using hy'
    exact .refl s _ j x

theorem Inv.modifyChannel (h : Inv kept s) (n : Nat) {f : Channel → Channel}
    (hf : ∀ c, (f c).frames = c.frames ∧ (f c).nextMsgId = c.nextMsgId) :
    Inv kept (s.modifyChannel n f) := by
  refine h.turns h.placed (.refl _) rfl (fun i a b ha hb => ?_) (fun m => ?_) rfl fun _ _ _ _ => rfl
  · obtain rfl := Option.some.inj (ha.symm.trans hb)
    exact .refl s _ i a
  · by_cases hm : m = n
    · subst hm
      simpa [Page.modifyChannel] using hf (s.channels m)
    · simp [Page.modifyChannel, hm]

section Waiting
variable {g : P2PGame Sdp} {i : Nat} {a : Send}

theorem turns_error (s : Page Sdp) (hqueued : Phase.isQueued a.phase = false) (err : LobbyError) :
    Turns s g i a { a with phase := .settled (.error err) } :=
  ⟨rfl, fun _ => rfl, fun _ => .inl hqueued, nofun, nofun, nofun, nofun⟩

theorem turns_linked (s : Page Sdp) (hwaits : a.phase = .awaitLink) {n : Nat}
    (hmade : g.Made a.target n) : Turns s g i a { a with phase := .linked n } := by
  obtain ⟨target, bytes, prev, locals, phase, called, handed⟩ := a
  cases hwaits
  refine ⟨rfl, nofun, fun _ => .inl rfl, fun _ => rfl, nofun, fun m hm => .inr ?_, nofun⟩
  obtain rfl := Option.some.inj hm
  exact hmade

theorem turns_opened (s : Page Sdp) {n : Nat} (hwaits : a.phase = .awaitOpen n ∨ a.phase = .linked n) :
    Turns s g i a { a with phase := .opened n } := by
  obtain ⟨target, bytes, prev, locals, phase, called, handed⟩ := a
  rcases hwaits with hwaits | hwaits <;> cases hwaits <;>
    exact ⟨rfl, nofun, fun _ => .inl rfl, fun _ => rfl, nofun, fun m hm => .inl hm, nofun⟩

theorem turns_awaitOpen (s : Page Sdp) {n : Nat} (hwaits : a.phase = .linked n) :
    Turns s g i a { a with phase := .awaitOpen n } := by
  obtain ⟨target, bytes, prev, locals, phase, called, handed⟩ := a
  cases hwaits
  exact ⟨rfl, nofun, fun _ => .inl rfl, fun _ => rfl, nofun, fun m hm => .inl hm, nofun⟩

theorem turns_drained (s : Page Sdp) (hwaits : a.phase = .awaitDrain) :
    Turns s g i a { a with phase := .drained } := by
  obtain ⟨target, bytes, prev, locals, phase, called, handed⟩ := a
  cases hwaits
  exact ⟨rfl, nofun, fun _ => .inl rfl, nofun, fun _ => rfl, nofun, nofun⟩

theorem turns_same (s : Page Sdp) {phase : Phase} (hsame : a.phase = phase) :
    Turns s g i a { a with phase := phase } := by
  subst hsame
  exact .refl s g i a

end Waiting

theorem settleOpen_same (c : Channel) (outcome : Wait) :
    (c.settleOpen outcome).frames = c.frames ∧ (c.settleOpen outcome).nextMsgId = c.nextMsgId := by
  unfold Channel.settleOpen
  split <;> exact ⟨rfl, rfl⟩

theorem Inv.opens (h : Inv kept s) (n : Nat) {phase : Send → Phase}
    (hphase : (∀ a, phase a = .opened n) ∨ ∃ err, ∀ a, phase a = .settled (.error err)) :
    Inv kept (s.opens n phase) := by
  refine h.rephase fun i a ha => ?_
  cases hwaits : a.phase with
  | awaitOpen m =>
    simp only
    split_ifs with hm
    · subst hm
      rcases hphase with hopened | ⟨err, herr⟩
      · rw [hopened a]
        exact turns_opened s (.inl hwaits)
      · rw [herr a]
        exact turns_error s (by rw [hwaits]; rfl) err
    · exact turns_same s hwaits
  | _ => exact turns_same s hwaits

theorem Inv.drains (h : Inv kept s) (n : Nat) {phase : Send → Phase}
    (hphase : (∀ a, phase a = .drained) ∨ ∃ err, ∀ a, phase a = .settled (.error err)) :
    Inv kept (s.drains n phase) := by
  refine h.rephase fun i a ha => ?_
  cases hwaits : a.phase with
  | awaitDrain =>
    simp only
    split_ifs
    · rcases hphase with hdrained | ⟨err, herr⟩
      · rw [hdrained a]
        exact turns_drained s hwaits
      · rw [herr a]
        exact turns_error s (by rw [hwaits]; rfl) err
    · exact turns_same s hwaits
  | _ => exact turns_same s hwaits

theorem Inv.onOpen (h : Inv kept s) (n : Nat) : Inv kept (s.onOpen n) := by
  refine Inv.opens (h.modifyChannel n fun c => ?_) n (.inl fun _ => rfl)
  exact settleOpen_same c _

theorem Inv.onClose (h : Inv kept s) (n : Nat) : Inv kept (s.onClose n) := by
  refine Inv.drains (Inv.opens (h.modifyChannel n fun c => ?_) n (.inr ⟨_, fun _ => rfl⟩)) n
    (.inr ⟨_, fun _ => rfl⟩)
  exact settleOpen_same c _

theorem Inv.openTimeout (h : Inv kept s) (n : Nat) : Inv kept (s.openTimeout n) :=
  Inv.opens (h.modifyChannel n fun c => settleOpen_same c _) n (.inr ⟨_, fun _ => rfl⟩)

theorem Inv.linkTimeout (h : Inv kept s) {i : Nat} (hwaits : s.At i .awaitLink) : Inv kept (s.linkTimeout i) := by
  obtain ⟨a, ha, hphase⟩ := hwaits
  simp only [Page.linkTimeout, ha]
  exact h.enter ha (turns_error s (by rw [hphase]; rfl) _)

theorem Inv.poll (h : Inv kept s) {i : Nat} (hwaits : s.At i .awaitDrain) : Inv kept (s.poll i) := by
  obtain ⟨a, ha, hphase⟩ := hwaits
  simp only [Page.poll, ha]
  split
  · exact h
  · split_ifs
    · exact h.enter ha (turns_error s (by rw [hphase]; rfl) _)
    · exact h.enter ha (turns_drained s hphase)
    · exact h

theorem made_of_peers {g : P2PGame Sdp} (h : Placed g) {p : PlayerId} {n : Nat}
    (hp : g.peers p = some n) : g.Made p n := by
  obtain ⟨link, hlink, howner, -⟩ := h.opened p n hp
  exact ⟨link, hlink, howner⟩

theorem turns_notice (s : Page Sdp) {g : P2PGame Sdp} (hplaced : Placed g) (torn : Bool) (i : Nat)
    (a : Send) : Turns s g i a { a with phase := Send.notice g torn a } := by
  unfold Send.notice
  cases hwaits : a.phase with
  | awaitLink =>
    simp only
    split_ifs
    · exact turns_error s (by rw [hwaits]; rfl) _
    · cases hp : g.peers a.target with
      | none => exact turns_same s hwaits
      | some n => exact turns_linked s hwaits (made_of_peers hplaced hp)
  | awaitOpen n =>
    simp only
    split_ifs
    · exact turns_error s (by rw [hwaits]; rfl) _
    · exact turns_same s hwaits
  | _ => exact turns_same s hwaits

theorem Inv.takeGame [DecidableEq Sdp] (h : Inv kept s) {l : Game.Label Sdp} (henabled : s.game.Enabled l) :
    Inv kept (s.takeGame l) := by
  have hplaced := placed_take h.placed henabled
  refine h.turns hplaced (grows_take h.placed l) (List.length_map ..) (fun i a b ha hb => ?_)
    (fun n => ?_) rfl fun _ _ _ _ => rfl
  · have hb' : (s.sends.map fun send => { send with
        phase := send.notice (s.game.take l) (tearsDown s.game l) })[i]? = some b := hb
    rw [List.getElem?_map, ha] at hb'
    obtain rfl := Option.some.inj hb'
    exact turns_notice s hplaced _ i a
  · simp only [Page.takeGame, Page.rephase]
    split_ifs
    · exact settleOpen_same _ _
    · exact ⟨rfl, rfl⟩

theorem given_queued (sends : List Send) {new : Send} (hnew : new.locals = none) (n : Nat) :
    given (sends ++ [new]) n = given sends n := by
  simp [given, message, hnew]

theorem called_cases {sends : List Send} {new : Send} {i : Nat} {a : Send}
    (ha : (sends ++ [new])[i]? = some a) : sends[i]? = some a ∨ i = sends.length ∧ a = new := by
  by_cases hlt : i < sends.length
  · rw [List.getElem?_append_left hlt] at ha
    exact .inl ha
  · rw [List.getElem?_append_right (Nat.le_of_not_lt hlt)] at ha
    have hlen := (List.getElem?_eq_some_iff.1 ha).1
    rw [List.length_singleton] at hlen
    exact .inr ⟨by omega, List.mem_singleton.1 (List.mem_of_getElem? ha)⟩

theorem Linked.chain (h : Linked s) (target : PlayerId) (bytes : Uint8Array) :
    Linked (s.chain target bytes) := by
  have hold {k : Nat} {c : Send} (hc : s.sends[k]? = some c) :
      (s.chain target bytes).sends[k]? = some c := by
    rw [← hc]
    exact List.getElem?_append_left (List.getElem?_eq_some_iff.1 hc).1
  refine ⟨?prev, ?last, ?tail, ?newest⟩
  case prev =>
    intro i k b hb hprev
    rcases called_cases hb with hb | ⟨rfl, rfl⟩
    · obtain ⟨hlt, c, hc, htarget⟩ := h.prev i k b hb hprev
      exact ⟨hlt, c, hold hc, htarget⟩
    · obtain ⟨c, hc, htarget⟩ := h.tail target k hprev
      exact ⟨(List.getElem?_eq_some_iff.1 hc).1, c, hold hc, htarget⟩
  case last =>
    intro i j a b hji ha hb hsame
    rcases called_cases hb with hb | ⟨rfl, rfl⟩
    · have hlt : j < s.sends.length := Nat.lt_trans hji (List.getElem?_eq_some_iff.1 hb).1
      rcases called_cases ha with ha | ⟨rfl, -⟩
      · exact h.last i j a b hji ha hb hsame
      · exact absurd hlt (Nat.lt_irrefl _)
    · rcases called_cases ha with ha | ⟨rfl, -⟩
      · obtain ⟨k, hk, hjk⟩ := h.newest j a ha
        have htarget : a.target = target := hsame
        exact ⟨k, htarget ▸ hk, hjk⟩
      · exact absurd hji (Nat.lt_irrefl _)
  case tail =>
    intro p k hk
    have hk' : Function.update s.sendChains target (some s.sends.length) p = some k := hk
    by_cases hp : p = target
    · subst hp
      rw [Function.update_self] at hk'
      obtain rfl := Option.some.inj hk'
      exact ⟨_, List.getElem?_concat_length, rfl⟩
    · rw [Function.update_of_ne hp] at hk'
      obtain ⟨c, hc, htarget⟩ := h.tail p k hk'
      exact ⟨c, hold hc, htarget⟩
  case newest =>
    intro j a ha
    have hchains : (s.chain target bytes).sendChains =
        Function.update s.sendChains target (some s.sends.length) := rfl
    rw [hchains]
    by_cases hp : a.target = target
    · rw [hp, Function.update_self]
      have hlt : j < (s.sends ++ [_]).length := (List.getElem?_eq_some_iff.1 ha).1
      rw [List.length_append, List.length_singleton] at hlt
      exact ⟨_, rfl, Nat.le_of_lt_succ hlt⟩
    · rw [Function.update_of_ne hp]
      rcases called_cases ha with ha | ⟨-, rfl⟩
      · exact h.newest j a ha
      · exact absurd rfl hp

theorem Inv.chain (h : Inv kept s) (target : PlayerId) {bytes : Uint8Array}
    (hsize : bytes.byteLength ≤ maxReliableMessage) : Inv kept (s.chain target bytes) where
  placed := h.placed
  links := h.links.chain target bytes
  turn i j a b hij ha hb htarget hqueued := by
    rcases called_cases hb with hb | ⟨-, rfl⟩
    · have hlt : i < s.sends.length := Nat.lt_trans hij (List.getElem?_eq_some_iff.1 hb).1
      rcases called_cases ha with ha | ⟨rfl, -⟩
      · exact h.turn i j a b hij ha hb htarget hqueued
      · exact absurd hlt (Nat.lt_irrefl _)
    · exact absurd hqueued (by simp [Phase.isQueued])
  early i a ha hearly := by
    rcases called_cases ha with ha | ⟨-, rfl⟩
    · exact h.early i a ha hearly
    · exact ⟨rfl, rfl⟩
  late i a ha hlate := by
    rcases called_cases ha with ha | ⟨-, rfl⟩
    · exact h.late i a ha hlate
    · cases hlate
  named i a n ha hnames := by
    rcases called_cases ha with ha | ⟨-, rfl⟩
    · exact h.named i a n ha hnames
    · cases hnames
  held i a v ha hv := by
    rcases called_cases ha with ha | ⟨-, rfl⟩
    · exact h.held i a v ha hv
    · cases hv
  framed i a v ha hv := by
    rcases called_cases ha with ha | ⟨-, rfl⟩
    · exact h.framed i a v ha hv
    · cases hv
  whole i a ha hok := by
    rcases called_cases ha with ha | ⟨-, rfl⟩
    · exact h.whole i a ha hok
    · cases hok
  frames n := (h.frames n).trans (congrArg _ (given_queued s.sends rfl n).symm)
  ids n := by
    have hgiven : given (s.chain target bytes).sends n = given s.sends n := given_queued s.sends rfl n
    rw [hgiven, h.ids]
  next n := by
    have hgiven : given (s.chain target bytes).sends n = given s.sends n := given_queued s.sends rfl n
    exact (h.next n).trans (by rw [hgiven])
  size i a ha := by
    rcases called_cases ha with ha | ⟨-, rfl⟩
    · exact h.size i a ha
    · exact ⟨length_read _ _, hsize⟩
  copies := by
    refine ⟨fun hkept i a ha hwaits => ?_, fun hkept i a v ha hv => ?_⟩
    · rcases called_cases ha with ha | ⟨-, rfl⟩
      · exact h.copies.view hkept i a ha hwaits
      · rfl
    · rcases called_cases ha with ha | ⟨-, rfl⟩
      · exact h.copies.copied hkept i a v ha hv
      · cases hv

theorem Inv.write (h : Inv kept s) {memory : Memory} (hkeeps : kept → s.Keeps (.write memory)) :
    Inv kept { s with memory := memory } := by
  refine h.turns h.placed (.refl _) rfl (fun i a b ha hb => ?_) (fun n => ⟨rfl, rfl⟩) rfl
    fun hkept a ha hwaits => hkeeps hkept a ha hwaits
  obtain rfl := Option.some.inj (ha.symm.trans hb)
  exact .refl s _ i a

def one (a : Send) (n : Nat) : List Message := (message a n).toList

theorem given_split {sends : List Send} {i : Nat} (hi : i < sends.length) (b : Send) (n : Nat) :
    given (sends.set i b) n = given (sends.take i) n ++ one b n ++ given (sends.drop (i + 1)) n := by
  rw [List.set_eq_take_append_cons_drop, if_pos hi]
  unfold given one
  rw [List.filterMap_append, List.filterMap_cons]
  cases message b n <;> simp

theorem given_at {sends : List Send} {i : Nat} {a : Send} (ha : sends[i]? = some a) (n : Nat) :
    given sends n = given (sends.take i) n ++ one a n ++ given (sends.drop (i + 1)) n := by
  obtain ⟨hlt, hget⟩ := List.getElem?_eq_some_iff.1 ha
  rw [← given_split hlt, ← hget, List.set_getElem_self]

theorem Inv.last (h : Inv kept s) {i : Nat} {a : Send} (ha : s.sends[i]? = some a)
    (hturn : a.phase.isSettled = false) {n : Nat} (hmade : s.game.Made a.target n) :
    given (s.sends.drop (i + 1)) n = [] := by
  unfold given
  rw [List.filterMap_eq_nil_iff]
  intro b hb
  obtain ⟨k, hk⟩ := List.getElem?_of_mem hb
  rw [List.getElem?_drop] at hk
  rw [message, Option.map_eq_none_iff, Option.filter_eq_none_iff]
  intro v hv hlink
  have hlink : v.link = n := of_decide_eq_true hlink
  obtain ⟨hmade', -⟩ := h.held _ b v hk hv
  have htarget : a.target = b.target := by
    obtain ⟨link, hlinked, howner⟩ := hmade
    obtain ⟨link', hlinked', howner'⟩ := hmade'
    rw [hlink] at hlinked'
    obtain rfl := Option.some.inj (hlinked.symm.trans hlinked')
    exact howner.symm.trans howner'
  have hqueued : Phase.isQueued b.phase = false := by
    cases hphase : Phase.isQueued b.phase with
    | false => rfl
    | true =>
      have hearly : Phase.isEarly b.phase = true := by
        cases hb : b.phase <;> simp [hb, Phase.isQueued, Phase.isEarly] at hphase ⊢
      exact absurd ((h.early _ b hk hearly).1.symm.trans hv) nofun
  have hsettled := h.turn i (i + 1 + k) a b (by omega) ha hk htarget hqueued
  exact absurd (hsettled.symm.trans hturn) (by decide)

def leftOf (memory : Memory) (a : Send) (v : Locals) : List Bytes :=
  (framesOf v (a.bytes.read memory)).drop v.seq

def went (memory : Memory) (a : Send) (v : Locals) (r : Channel × Nat × Phase) : Send :=
  { a with
    locals := some { v with seq := v.seq + r.2.1 }
    phase := r.2.2
    handed := a.handed ++ (leftOf memory a v).take r.2.1 }

structure Runs (s t : Page Sdp) (i : Nat) (a : Send) (c : Channel) (v : Locals)
    (r : Channel × Nat × Phase) : Prop where
  game : t.game = s.game
  sends : t.sends = s.sends.set i (went s.memory a v r)
  channels : t.channels = Function.update s.channels v.link r.1
  chains : t.sendChains = s.sendChains
  memory : t.memory = s.memory
  hands : Hands c (leftOf s.memory a v) r

theorem Hands.phase {c : Channel} {left : List Bytes} {r : Channel × Nat × Phase} (h : Hands c left r) :
    Phase.isEarly r.2.2 = false ∧ Phase.names r.2.2 = none ∧
      (Phase.isLate r.2.2 = true → r.2.1 < left.length) ∧
      (r.2.2 = .settled (.ok ()) → r.2.1 = left.length) := by
  rcases h.stops with ⟨hphase, hall⟩ | ⟨err, hphase⟩ | ⟨hphase, hlt⟩
  · rw [hphase]
    exact ⟨rfl, rfl, nofun, fun _ => hall⟩
  · rw [hphase]
    exact ⟨rfl, rfl, nofun, nofun⟩
  · rw [hphase]
    exact ⟨rfl, rfl, fun _ => hlt, nofun⟩

section Running
variable {i : Nat} {a : Send} {c : Channel} {v : Locals} {r : Channel × Nat × Phase}

theorem Runs.cases (hruns : Runs s t i a c v r) (ha : s.sends[i]? = some a) {j : Nat} {b : Send}
    (hb : t.sends[j]? = some b) : j = i ∧ b = went s.memory a v r ∨ j ≠ i ∧ s.sends[j]? = some b := by
  obtain ⟨hlt, -⟩ := List.getElem?_eq_some_iff.1 ha
  rw [hruns.sends] at hb
  by_cases hji : j = i
  · subst hji
    rw [List.getElem?_set_self hlt] at hb
    exact .inl ⟨rfl, (Option.some.inj hb).symm⟩
  · rw [List.getElem?_set_ne (Ne.symm hji)] at hb
    exact .inr ⟨hji, hb⟩

theorem Runs.linked (hruns : Runs s t i a c v r) (h : Linked s) (ha : s.sends[i]? = some a) : Linked t := by
  refine h.congr hruns.chains (fun j b hb => ?_) fun j b hb => ?_
  · rcases hruns.cases ha hb with ⟨rfl, rfl⟩ | ⟨-, hb⟩
    · exact ⟨a, ha, rfl, rfl⟩
    · exact ⟨b, hb, rfl, rfl⟩
  · have hlt : j < t.sends.length := by
      rw [hruns.sends, List.length_set]
      exact (List.getElem?_eq_some_iff.1 hb).1
    have hget := List.getElem?_eq_getElem hlt
    refine ⟨_, hget, ?_⟩
    rcases hruns.cases ha hget with ⟨rfl, hwent⟩ | ⟨-, hsame⟩
    · obtain rfl := Option.some.inj (ha.symm.trans hb)
      rw [hwent]
      rfl
    · rw [Option.some.inj (hsame.symm.trans hb)]

theorem Runs.given_own (hruns : Runs s t i a c v r) (ha : s.sends[i]? = some a)
    (hlast : given (s.sends.drop (i + 1)) v.link = []) :
    given t.sends v.link = given (s.sends.take i) v.link ++
      [⟨{ v with seq := v.seq + r.2.1 }, a.called, a.handed ++ (leftOf s.memory a v).take r.2.1⟩] := by
  obtain ⟨hlt, -⟩ := List.getElem?_eq_some_iff.1 ha
  rw [hruns.sends, given_split hlt, hlast, List.append_nil]
  simp [one, message, went]

theorem Runs.given_other (hruns : Runs s t i a c v r) (ha : s.sends[i]? = some a) {n : Nat}
    (hn : n ≠ v.link) (hother : one a n = []) : given t.sends n = given s.sends n := by
  obtain ⟨hlt, -⟩ := List.getElem?_eq_some_iff.1 ha
  have hnone : one (went s.memory a v r) n = [] := by simp [one, message, went, hn.symm]
  rw [hruns.sends, given_split hlt, given_at ha, hother, hnone]

/-- What a link was given, as its channel has it. -/
structure Gives (s : Page Sdp) (n : Nat) : Prop where
  frames : (s.channels n).frames = (given s.sends n).flatMap (·.handed)
  ids : (given s.sends n).map (·.locals.msgId) = (List.range (given s.sends n).length).map toUint32
  next : (s.channels n).nextMsgId = toUint32 (given s.sends n).length

theorem Runs.gives (hruns : Runs s t i a c v r) (h : Inv kept s) (ha : s.sends[i]? = some a)
    (hlast : given (s.sends.drop (i + 1)) v.link = [])
    {before : List Message} (hbefore : given (s.sends.take i) v.link = before)
    (hother : ∀ n, n ≠ v.link → one a n = [])
    (hframes : c.frames = before.flatMap (·.handed) ++ a.handed)
    (hids : before.map (·.locals.msgId) ++ [v.msgId] = (List.range (before.length + 1)).map toUint32)
    (hnext : c.nextMsgId = toUint32 (before.length + 1)) (n : Nat) : Gives t n := by
  by_cases hn : n = v.link
  · subst hn
    have hown := hruns.given_own ha hlast
    rw [hbefore] at hown
    have hchannel : t.channels v.link = r.1 := by rw [hruns.channels, Function.update_self]
    constructor
    · rw [hchannel, hruns.hands.frames, hframes, hown, List.flatMap_append, List.flatMap_singleton,
        List.append_assoc]
    · rw [hown, List.map_append, List.length_append]
      exact hids
    · rw [hchannel, hruns.hands.nextMsgId, hnext, hown, List.length_append]
      rfl
  · have hrest := hruns.given_other ha hn (hother n hn)
    have hchannel : t.channels n = s.channels n := by
      rw [hruns.channels, Function.update_of_ne hn]
    constructor
    · rw [hchannel, hrest, h.frames]
    · rw [hrest, h.ids]
    · rw [hchannel, hrest, h.next]

/-- The frames of the loop follow those handed over before. -/
theorem framed_went {memory : Memory} (hlen : a.called.length = a.bytes.byteLength)
    (hseq : a.handed.length = v.seq) (hframed : Framed v a.called.length a.handed) (k : Nat) :
    Framed v a.called.length (a.handed ++ (leftOf memory a v).take k) := by
  intro m frame hget
  by_cases hm : m < a.handed.length
  · rw [List.getElem?_append_left hm] at hget
    exact hframed m frame hget
  · rw [List.getElem?_append_right (Nat.le_of_not_lt hm)] at hget
    have hsome := hget
    rw [List.getElem?_take] at hsome
    split_ifs at hsome
    refine ⟨a.bytes.read memory, (length_read _ _).trans hlen.symm, ?_⟩
    rw [leftOf, List.getElem?_drop] at hsome
    rwa [← hseq, Nat.add_sub_of_le (Nat.le_of_not_lt hm)] at hsome

theorem Inv.runs (h : Inv kept s) (hruns : Runs s t i a c v r) (ha : s.sends[i]? = some a)
    (hturn : a.phase.isSettled = false) (hqueued : Phase.isQueued a.phase = false)
    (hmade : s.game.Made a.target v.link) (hhanded : a.handed.length = v.seq)
    (hseq : v.seq ≤ (framesOf v a.called).length) (hframed : Framed v a.called.length a.handed)
    (hcopied : kept → a.handed = (framesOf v a.called).take v.seq)
    {before : List Message} (hbefore : given (s.sends.take i) v.link = before)
    (hother : ∀ n, n ≠ v.link → one a n = [])
    (hframes : c.frames = before.flatMap (·.handed) ++ a.handed)
    (hids : before.map (·.locals.msgId) ++ [v.msgId] = (List.range (before.length + 1)).map toUint32)
    (hnext : c.nextMsgId = toUint32 (before.length + 1)) : Inv kept t := by
  obtain ⟨hearly, hnames, hlate, hwhole⟩ := hruns.hands.phase
  have hbound := hruns.hands.bound
  have hlen : (leftOf s.memory a v).length = (framesOf v a.called).length - v.seq := by
    rw [leftOf, List.length_drop, length_framesOf, length_framesOf, length_read, (h.size i a ha).1]
  rw [hlen] at hbound hlate hwhole
  have hgives (n : Nat) : Gives t n :=
    hruns.gives h ha (h.last ha hturn hmade) hbefore hother hframes hids hnext n
  refine ⟨hruns.game ▸ h.placed, hruns.linked h.links ha, ?turn, ?early, ?late, ?named, ?held, ?framed,
    ?whole, fun n => (hgives n).frames, fun n => (hgives n).ids, fun n => (hgives n).next, ?size,
    ?shown, ?copied⟩
  case turn =>
    intro j k x y hjk hx hy htarget hy'
    rcases hruns.cases ha hx with ⟨rfl, rfl⟩ | ⟨hj, hx⟩
    · rcases hruns.cases ha hy with ⟨rfl, -⟩ | ⟨hk, hy⟩
      · exact absurd hjk (Nat.lt_irrefl _)
      · exact absurd ((h.turn j k a y hjk ha hy htarget hy').symm.trans hturn) (by decide)
    · rcases hruns.cases ha hy with ⟨rfl, rfl⟩ | ⟨hk, hy⟩
      · exact h.turn j k x a hjk hx ha htarget hqueued
      · exact h.turn j k x y hjk hx hy htarget hy'
  case early =>
    intro j x hx hx'
    rcases hruns.cases ha hx with ⟨rfl, rfl⟩ | ⟨-, hx⟩
    · exact absurd (hearly.symm.trans hx') (by decide)
    · exact h.early j x hx hx'
  case late =>
    intro j x hx hx'
    rcases hruns.cases ha hx with ⟨rfl, rfl⟩ | ⟨-, hx⟩
    · have hmore := hlate hx'
      exact ⟨_, rfl, by show v.seq + r.2.1 < (framesOf v a.called).length; omega⟩
    · exact h.late j x hx hx'
  case named =>
    intro j x n hx hx'
    rw [hruns.game]
    rcases hruns.cases ha hx with ⟨rfl, rfl⟩ | ⟨-, hx⟩
    · exact absurd (hx'.symm.trans hnames) (Option.some_ne_none n)
    · exact h.named j x n hx hx'
  case held =>
    intro j x w hx hw
    rw [hruns.game]
    rcases hruns.cases ha hx with ⟨rfl, rfl⟩ | ⟨-, hx⟩
    · obtain rfl := Option.some.inj hw
      refine ⟨hmade, ?_, by show v.seq + r.2.1 ≤ (framesOf v a.called).length; omega⟩
      show (a.handed ++ (leftOf s.memory a v).take r.2.1).length = v.seq + r.2.1
      rw [List.length_append, hhanded, List.length_take, hlen, Nat.min_eq_left hbound]
    · exact h.held j x w hx hw
  case framed =>
    intro j x w hx hw
    rcases hruns.cases ha hx with ⟨rfl, rfl⟩ | ⟨-, hx⟩
    · obtain rfl := Option.some.inj hw
      exact framed_went (h.size j a ha).1 hhanded hframed r.2.1
    · exact h.framed j x w hx hw
  case whole =>
    intro j x hx hok
    rcases hruns.cases ha hx with ⟨rfl, rfl⟩ | ⟨-, hx⟩
    · have hall := hwhole hok
      exact ⟨_, rfl, by show v.seq + r.2.1 = (framesOf v a.called).length; omega⟩
    · exact h.whole j x hx hok
  case size =>
    intro j x hx
    rcases hruns.cases ha hx with ⟨rfl, rfl⟩ | ⟨-, hx⟩
    · exact h.size j a ha
    · exact h.size j x hx
  case shown =>
    intro hkept j x hx hwaits
    rw [hruns.memory]
    rcases hruns.cases ha hx with ⟨rfl, rfl⟩ | ⟨-, hx⟩
    · exact h.copies.view hkept j a ha hturn
    · exact h.copies.view hkept j x hx hwaits
  case copied =>
    intro hkept j x w hx hw
    rcases hruns.cases ha hx with ⟨rfl, rfl⟩ | ⟨-, hx⟩
    · obtain rfl := Option.some.inj hw
      show a.handed ++ (leftOf s.memory a v).take r.2.1 = (framesOf v a.called).take (v.seq + r.2.1)
      rw [leftOf, h.copies.view hkept j a ha hturn, hcopied hkept, List.take_add]
    · exact h.copies.copied hkept j x w hx hw

end Running

theorem runs_startSend (s : Page Sdp) (luck : Luck) (i : Nat) (a : Send) (n : Nat) :
    Runs s (s.startSend luck i a n) i a
      { s.channels n with nextMsgId := toUint32 ((s.channels n).nextMsgId + 1) }
      ⟨n, (s.channels n).nextMsgId, 0⟩ (sendChunks luck a.target (!s.game.live n) false
        { s.channels n with nextMsgId := toUint32 ((s.channels n).nextMsgId + 1) }
        (leftOf s.memory a ⟨n, (s.channels n).nextMsgId, 0⟩)) := by
  refine ⟨rfl, ?_, ?_, rfl, rfl, sendChunks_hands ..⟩
  · simp [Page.startSend, Page.transmit, Page.modifyChannel, went, leftOf, framesOf]
  · simp [Page.startSend, Page.transmit, Page.modifyChannel, leftOf, framesOf]

theorem runs_transmit (s : Page Sdp) (luck : Luck) (i : Nat) (a : Send) (v : Locals) :
    Runs s (s.transmit luck i a v true) i a (s.channels v.link) v (sendChunks luck a.target
      (!s.game.live v.link) true (s.channels v.link) (leftOf s.memory a v)) :=
  ⟨rfl, rfl, rfl, rfl, rfl, sendChunks_hands ..⟩

theorem Inv.startSend (h : Inv kept s) (luck : Luck) {i : Nat} {a : Send} {n : Nat}
    (ha : s.sends[i]? = some a) (hphase : a.phase = .opened n) : Inv kept (s.startSend luck i a n) := by
  obtain ⟨hnone, hnothing⟩ := h.early i a ha (by rw [hphase]; rfl)
  have hmade : s.game.Made a.target n := h.named i a n ha (by rw [hphase]; rfl)
  have hempty (m : Nat) : one a m = [] := by simp [one, message, hnone]
  have hgiven := given_at ha n
  rw [hempty, h.last ha (by rw [hphase]; rfl) hmade, List.append_nil, List.append_nil] at hgiven
  have hnext := h.next n
  refine h.runs (runs_startSend s luck i a n) ha (by rw [hphase]; rfl) (by rw [hphase]; rfl) hmade
    (by rw [hnothing]; rfl) (Nat.zero_le _) (fun k frame hget => ?_) (fun _ => hnothing) hgiven.symm
    (fun m _ => hempty m) ?_ ?_ ?_
  · rw [hnothing] at hget
    cases hget
  · simpa [hnothing] using h.frames n
  · rw [h.ids, List.range_succ, List.map_append]
    exact congrArg (_ ++ [·]) hnext
  · show toUint32 ((s.channels n).nextMsgId + 1) = _
    rw [hnext]
    simp [toUint32]

theorem Inv.transmit (h : Inv kept s) (luck : Luck) {i : Nat} {a : Send} {v : Locals}
    (ha : s.sends[i]? = some a) (hphase : a.phase = .drained) (hlocals : a.locals = some v) :
    Inv kept (s.transmit luck i a v true) := by
  obtain ⟨hmade, hhanded, hbound⟩ := h.held i a v ha hlocals
  have hone : one a v.link = [⟨v, a.called, a.handed⟩] := by simp [one, message, hlocals]
  have hgiven := given_at ha v.link
  rw [hone, h.last ha (by rw [hphase]; rfl) hmade, List.append_nil] at hgiven
  have hids := h.ids v.link
  have hnext := h.next v.link
  have hframes := h.frames v.link
  rw [hgiven] at hids hnext hframes
  refine h.runs (runs_transmit s luck i a v) ha (by rw [hphase]; rfl)
    (by rw [hphase]; rfl) hmade hhanded hbound (h.framed i a v ha hlocals)
    (fun hkept => h.copies.copied hkept i a v ha hlocals) rfl (fun m hm => ?_) ?_ ?_ ?_
  · simp [one, message, hlocals, hm.symm]
  · simpa using hframes
  · simpa using hids
  · simpa using hnext

theorem turns_started (s : Page Sdp) {g : P2PGame Sdp} (hplaced : Placed g) {i : Nat} {a : Send}
    (hqueued : a.phase = .queued) (hturn : Turn s i) :
    Turns s g i a { a with phase := awaitLink g a.target } := by
  obtain ⟨target, bytes, prev, locals, phase, called, handed⟩ := a
  cases hqueued
  have herror : Turns s g i ⟨target, bytes, prev, locals, .queued, called, handed⟩
      ⟨target, bytes, prev, locals, .settled (.error gameClosed), called, handed⟩ :=
    ⟨rfl, nofun, fun _ => .inr hturn, nofun, nofun, nofun, nofun⟩
  have hwaits : Turns s g i ⟨target, bytes, prev, locals, .queued, called, handed⟩
      ⟨target, bytes, prev, locals, .awaitLink, called, handed⟩ :=
    ⟨rfl, nofun, fun _ => .inr hturn, fun _ => rfl, nofun, nofun, nofun⟩
  unfold awaitLink
  simp only
  cases hp : g.peers target with
  | none =>
    simp only
    split_ifs
    · exact herror
    · exact hwaits
  | some n =>
    simp only
    split_ifs
    · refine ⟨rfl, nofun, fun _ => .inr hturn, fun _ => rfl, nofun, fun m hm => .inr ?_, nofun⟩
      obtain rfl := Option.some.inj hm
      exact made_of_peers hplaced hp
    · exact herror
    · exact hwaits

theorem turns_wait (s : Page Sdp) {i n : Nat} {a : Send} (hlinked : a.phase = .linked n) (closed : Bool)
    (c : Channel) : Turns s s.game i a { a with phase := (waitReliableOpen closed a.target n c).2 } ∧
      (waitReliableOpen closed a.target n c).1.frames = c.frames ∧
      (waitReliableOpen closed a.target n c).1.nextMsgId = c.nextMsgId := by
  have hqueued : Phase.isQueued a.phase = false := by rw [hlinked]; rfl
  unfold waitReliableOpen
  split_ifs
  · exact ⟨turns_opened s (.inr hlinked), rfl, rfl⟩
  · exact ⟨turns_error s hqueued _, rfl, rfl⟩
  · split
    · exact ⟨turns_awaitOpen s hlinked, rfl, rfl⟩
    · exact ⟨turns_awaitOpen s hlinked, rfl, rfl⟩
    · exact ⟨turns_opened s (.inr hlinked), rfl, rfl⟩
    · exact ⟨turns_error s hqueued _, rfl, rfl⟩

theorem Inv.resume (h : Inv kept s) (luck : Luck) {i : Nat}
    (hready : s.Ready i) : Inv kept (s.resume luck i) := by
  obtain ⟨a, ha, ⟨hqueued, hchained⟩ | hgoes⟩ := hready
  · simp only [Page.resume, ha, hqueued]
    exact h.enter ha (turns_started s h.placed hqueued (h.turn_of_chained ha hchained))
  · cases hphase : a.phase with
    | linked n =>
      simp only [Page.resume, ha, hphase]
      obtain ⟨hturns, hframes⟩ := turns_wait s hphase (!s.game.live n) (s.channels n)
      have hentered := h.enter ha hturns
      refine hentered.turns hentered.placed (.refl _) rfl (fun j x y hx hy => ?_) (fun m => ?_) rfl
        fun _ _ _ _ => rfl
      · obtain rfl := Option.some.inj (hx.symm.trans hy)
        exact .refl _ _ j x
      · by_cases hm : m = n
        · subst hm
          simpa [Page.modifyChannel, Page.enter] using hframes
        · simp [Page.modifyChannel, Page.enter, hm]
    | opened n =>
      simp only [Page.resume, ha, hphase]
      exact h.startSend luck ha hphase
    | drained =>
      obtain ⟨v, hv, -⟩ := h.late i a ha (by rw [hphase]; rfl)
      simp only [Page.resume, ha, hphase, hv]
      exact h.transmit luck ha hphase hv
    | queued | awaitLink | awaitOpen | awaitDrain | settled =>
      rw [hphase] at hgoes
      cases hgoes

/-- A call that is not refused at once joins the chain of its target. -/
theorem sendReliable_ok {target : Int} {data : Data} (h : s.sendReliable target data = .ok t) :
    (toBytes data).byteLength ≤ maxReliableMessage ∧ t = s.chain target.toNat (toBytes data) := by
  unfold Page.sendReliable at h
  cases hchecked : s.game.checkTarget target with
  | error _ => simp [hchecked, bind, Except.bind] at h
  | ok _ =>
    simp only [hchecked, bind, Except.bind, pure, Except.pure] at h
    by_cases hfree : (!(s.game.roster[target.toNat]?).any (·.occupied)) = true
    · rw [if_pos hfree] at h
      cases h
    · rw [if_neg hfree] at h
      by_cases hlong : (toBytes data).byteLength > maxReliableMessage
      · rw [if_pos hlong] at h
        cases h
      · rw [if_neg hlong] at h
        exact ⟨Nat.not_lt.1 hlong, (Except.ok.inj h).symm⟩

theorem Inv.sendReliable (h : Inv kept s) (target : Int) (data : Data) :
    Inv kept (s.orStay (s.sendReliable target data)) := by
  cases hcalled : s.sendReliable target data with
  | error _ => exact h
  | ok t =>
    obtain ⟨hsize, rfl⟩ := sendReliable_ok hcalled
    exact h.chain target.toNat hsize

variable [DecidableEq Sdp]

theorem Inv.step (h : Inv kept s) {l : Sends.Label Sdp} (henabled : s.Enabled l)
    (hkeeps : kept → s.Keeps l) : Inv kept (s.take l) := by
  cases l with
  | game l => exact h.takeGame henabled
  | sendReliable target data => exact h.sendReliable target data
  | resume luck i => exact h.resume luck henabled
  | onOpen n => exact h.onOpen n
  | onClose n => exact h.onClose n
  | openTimeout n => exact h.openTimeout n
  | linkTimeout i => exact h.linkTimeout henabled
  | transport n amount =>
    exact h.modifyChannel n (f := fun c => { c with bufferedAmount := amount }) fun c => ⟨rfl, rfl⟩
  | bufferedAmountLow n => exact h.drains n (.inl fun _ => rfl)
  | poll i => exact h.poll henabled
  | write memory => exact h.write hkeeps

variable {env : Env} {storage : Option (Option String)} {joined : JoinedMsg}
  {ls : List (Sends.Label Sdp)}

omit [DecidableEq Sdp] in
theorem inv_start (kept : Prop) : Inv kept (Page.start env storage joined : Page Sdp) := by
  have hchannels (n : Nat) : ((Page.start env storage joined : Page Sdp).channels n).frames = [] ∧
      ((Page.start env storage joined : Page Sdp).channels n).nextMsgId = 0 := by
    simp only [Page.start]
    split_ifs <;> exact ⟨rfl, rfl⟩
  have hlinked : Linked (Page.start env storage joined : Page Sdp) := by
    constructor
    all_goals simp [Page.start]
  refine ⟨placed_start env storage joined, hlinked, ?_, ?_, ?_, ?_, ?_, ?_, ?_, fun n => (hchannels n).1,
    fun n => rfl, fun n => (hchannels n).2, ?_, ?_, ?_⟩
  all_goals simp [Page.start]

theorem inv_run (run : Run (Sends.system env storage joined) ls s) : Inv False s := by
  refine run.invariant (Inv False) ?_ ?_
  · rintro s rfl
    exact inv_start False
  · rintro s l t h ⟨henabled, rfl⟩
    exact h.step henabled False.elim

theorem inv_keeping (run : Run (Sends.keeping env storage joined) ls s) : Inv True s := by
  refine run.invariant (Inv True) ?_ ?_
  · rintro s rfl
    exact inv_start True
  · rintro s l t h ⟨hkeeps, henabled, rfl⟩
    exact h.step henabled fun _ => hkeeps

/-- The sends to one player run one after the other in the order of their calls, each link is
given their frames in that order under ids that count up, each frame as the one with its number of
a message of that length, and a send is fulfilled only when all of its frames were given to a link
of its player. -/
structure InTurn (s : Page Sdp) : Prop where
  turn : ∀ (i j : Nat) (a b : Send), i < j → s.sends[i]? = some a → s.sends[j]? = some b →
    a.target = b.target → Phase.isQueued b.phase = false → a.phase.isSettled = true
  frames : ∀ n, (s.channels n).frames = (given s.sends n).flatMap (·.handed)
  ids : ∀ n, (given s.sends n).map (·.locals.msgId) =
    (List.range (given s.sends n).length).map toUint32
  framed : ∀ a ∈ s.sends, ∀ v, a.locals = some v → Framed v a.called.length a.handed
  whole : ∀ a ∈ s.sends, a.phase = .settled (.ok ()) → ∃ v, a.locals = some v ∧
    s.game.Made a.target v.link ∧ a.handed.length = (framesOf v a.called).length

/-- What a send has handed over are the first frames of the message of its call. -/
def Copied (s : Page Sdp) : Prop :=
  ∀ a ∈ s.sends, ∀ v, a.locals = some v → a.handed <+: framesOf v a.called

omit [DecidableEq Sdp] in
theorem Inv.inTurn (h : Inv kept s) : InTurn s where
  turn := h.turn
  frames := h.frames
  ids := h.ids
  framed a ha v hv := by
    obtain ⟨i, hi⟩ := List.getElem?_of_mem ha
    exact h.framed i a v hi hv
  whole a ha hok := by
    obtain ⟨i, hi⟩ := List.getElem?_of_mem ha
    obtain ⟨v, hv, hall⟩ := h.whole i a hi hok
    obtain ⟨hmade, hlen, -⟩ := h.held i a v hi hv
    exact ⟨v, hv, hmade, hlen.trans hall⟩

omit [DecidableEq Sdp] in
theorem Inv.copiedAll (h : Inv True s) : Copied s := by
  intro a ha v hv
  obtain ⟨i, hi⟩ := List.getElem?_of_mem ha
  rw [h.copies.copied trivial i a v hi hv]
  exact List.take_prefix _ _

/-- Over every run, whatever becomes of the links, the channels and the timers, and whatever the page
writes to its buffers; and what the calls were given, if it leaves them alone. -/
theorem sends_in_turn (run : Run (Sends.system env storage joined) ls s) :
    InTurn s ∧ (Run (Sends.keeping env storage joined) ls s → Copied s) :=
  ⟨(inv_run run).inTurn, fun hkeeping => (inv_keeping hkeeping).copiedAll⟩

open Telling (pairMsg pairEnv)

def gladly : Luck := ⟨fun _ => true, ""⟩

/-- A buffer with a first message, and one with a second. -/
def pairMemory (first : UInt8) : Memory := fun buffer k =>
  if buffer = 0 then first + UInt8.ofNat k else 9

def firstSends : List (Sends.Label String) :=
  [.write (pairMemory 1), .sendReliable 1 (.uint8Array ⟨0, 1, 3⟩), .sendReliable 1 (.arrayBuffer 1 2),
    .resume gladly 0, .onOpen 1, .resume gladly 0, .resume gladly 0]

def firstPage : Page String := firstSends.foldl Page.take (.start pairEnv none pairMsg)

/-- The page writes to the buffer of the first, which is settled. -/
def pairSends : List (Sends.Label String) :=
  firstSends ++ [.write (pairMemory 7), .resume gladly 1, .resume gladly 1, .resume gladly 1]

def pairPage : Page String :=
  [.write (pairMemory 7), .resume gladly 1, .resume gladly 1, .resume gladly 1].foldl Page.take firstPage

theorem run_taken {env : Env} {storage : Option (Option String)} {joined : JoinedMsg}
    {ls : List (Sends.Label Sdp)} (run : Run (Sends.keeping env storage joined) ls s)
    (l : Sends.Label Sdp) (h : s.Enabled l) (hkeeps : s.Keeps l) :
    Run (Sends.keeping env storage joined) (ls ++ [l]) (s.take l) := run.step ⟨hkeeps, h, rfl⟩

theorem first_keeping : Run (Sends.keeping pairEnv none pairMsg) firstSends firstPage := by
  let start : Page String := .start pairEnv none pairMsg
  let filled := start.take (.write (pairMemory 1))
  let once := filled.take (.sendReliable 1 (.uint8Array ⟨0, 1, 3⟩))
  let twice := once.take (.sendReliable 1 (.arrayBuffer 1 2))
  let linked := twice.take (.resume gladly 0)
  let opened := linked.take (.onOpen 1)
  let waited := opened.take (.resume gladly 0)
  have hstart : Run (Sends.keeping pairEnv none pairMsg) [] start := .init rfl
  have hnone : start.Keeps (.write (pairMemory 1)) := fun send hsend => by cases hsend
  have hfilled : Run (Sends.keeping pairEnv none pairMsg) _ filled := run_taken hstart _ trivial hnone
  have honce : Run (Sends.keeping pairEnv none pairMsg) _ once := run_taken hfilled _ trivial trivial
  have htwice : Run (Sends.keeping pairEnv none pairMsg) _ twice := run_taken honce _ trivial trivial
  have hfirst : twice.Ready 0 := ⟨_, rfl, .inl ⟨rfl, fun j hj => by cases hj⟩⟩
  have hlinked : Run (Sends.keeping pairEnv none pairMsg) _ linked := run_taken htwice _ hfirst trivial
  have hopened : Run (Sends.keeping pairEnv none pairMsg) _ opened :=
    run_taken hlinked _ ⟨rfl, rfl⟩ trivial
  have hwaited : Run (Sends.keeping pairEnv none pairMsg) _ waited :=
    run_taken hopened _ ⟨_, rfl, .inr rfl⟩ trivial
  have hready : waited.Enabled (.resume gladly 0) := ⟨_, rfl, .inr rfl⟩
  have hpage : firstPage = waited.take (.resume gladly 0) := by
    simp only [firstPage, firstSends, List.foldl_cons, List.foldl_nil, waited, opened, linked, twice,
      once, filled, start]
  rw [hpage]
  exact run_taken hwaited (.resume gladly 0) hready trivial

theorem sends_first : firstPage.sends = [⟨1, ⟨0, 1, 3⟩, none, some ⟨1, 0, 1⟩, .settled (.ok ()),
    [2, 3, 4], [makeFrame 0 0 1 [2, 3, 4]]⟩, ⟨1, ⟨1, 0, 2⟩, some 0, none, .queued, [9, 9], []⟩] := rfl

theorem pair_keeping : Run (Sends.keeping pairEnv none pairMsg) pairSends pairPage := by
  let written := firstPage.take (.write (pairMemory 7))
  let started := written.take (.resume gladly 1)
  let ready := started.take (.resume gladly 1)
  have hkeeps : firstPage.Keeps (.write (pairMemory 7)) := by
    intro send hsend hwaits
    rw [sends_first] at hsend
    rcases List.mem_cons.1 hsend with rfl | hsend
    · cases hwaits
    · obtain rfl := List.mem_singleton.1 hsend
      rfl
  have hwritten : Run (Sends.keeping pairEnv none pairMsg) _ written :=
    run_taken first_keeping _ trivial hkeeps
  have hsecond : written.Ready 1 := by
    refine ⟨_, rfl, .inl ⟨rfl, fun j hj => ?_⟩⟩
    obtain rfl : 0 = j := Option.some.inj hj
    exact ⟨_, rfl, rfl⟩
  have hstarted : Run (Sends.keeping pairEnv none pairMsg) _ started :=
    run_taken hwritten _ hsecond trivial
  have hready : Run (Sends.keeping pairEnv none pairMsg) _ ready :=
    run_taken hstarted _ ⟨_, rfl, .inr rfl⟩ trivial
  have hgoes : ready.Enabled (.resume gladly 1) := ⟨_, rfl, .inr rfl⟩
  have hpage : pairPage = ready.take (.resume gladly 1) := by
    simp only [pairPage, List.foldl_cons, List.foldl_nil, ready, started, written]
  rw [hpage]
  exact run_taken hready (.resume gladly 1) hgoes trivial

theorem pair_sends : Run (Sends.system pairEnv none pairMsg) pairSends pairPage :=
  pair_keeping.unrestrict

theorem sends_in_turn_pair :
    (pairPage.channels 1).frames = [makeFrame 0 0 1 [2, 3, 4], makeFrame 1 0 1 [9, 9]] ∧
      InTurn pairPage ∧ Copied pairPage := by
  obtain ⟨hinTurn, hcopied⟩ := sends_in_turn pair_sends
  exact ⟨rfl, hinTurn, hcopied pair_keeping⟩

end Lobbylink.Ts.Chains
