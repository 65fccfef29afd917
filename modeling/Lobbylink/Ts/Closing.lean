import Mathlib.Data.Nat.Find
import Lobbylink.Ts.Chains

/-! A link that is closed is given nothing more, and a game that is closed leaves no send
waiting. -/
namespace Lobbylink.Ts.Closing
open Client.Protocol Client.Roster Reliable Game Sends Links Chains Lib.Runs
open Telling (Placed Shows told reader)
open Client.Story (Happening closed_take)

variable {Sdp : Type} {s t : Page Sdp}

theorem gone_iff {g : P2PGame Sdp} {n : Nat} : gone g n = true ↔
    ∃ link, g.links n = some link ∧ link.closed = true := by
  unfold gone P2PGame.live
  cases g.links n <;> simp

theorem gone_grows {g g' : P2PGame Sdp} (h : Grows g g') {n : Nat} (hgone : gone g n = true) :
    gone g' n = true := by
  obtain ⟨link, hlink, hclosed⟩ := gone_iff.1 hgone
  obtain ⟨link', hlink', hlasts⟩ := h n link hlink
  exact gone_iff.2 ⟨link', hlink', hlasts.2.2 hclosed⟩

theorem live_of_gone {g : P2PGame Sdp} {n : Nat} (h : gone g n = true) : g.live n = false := by
  unfold gone at h
  cases hlive : g.live n with
  | false => rfl
  | true => simp [hlive] at h

theorem gone_of_dead {g : P2PGame Sdp} {p : PlayerId} {n : Nat} (hmade : g.Made p n)
    (hdead : g.live n = false) : gone g n = true := by
  obtain ⟨link, hlink, -⟩ := hmade
  simp [gone, hlink, hdead]

def Fine (g : P2PGame Sdp) : Phase → Prop
  | .awaitLink => g.closedFlag = false
  | .awaitOpen n => gone g n = false
  | _ => True

section Game

variable [DecidableEq Sdp]

theorem closed_game {g : P2PGame Sdp} (h : Placed g) {l : Game.Label Sdp} (henabled : g.Enabled l)
    (hcall : l ≠ .close) : (g.take l).closedFlag = g.closedFlag := by
  have hshows : Shows g (Telling.story g) := ⟨rfl, h⟩
  have hstep (hfull : Telling.FullStep (Telling.story g).maxPlayers l) :
      (g.take l).closedFlag = g.closedFlag := by
    have hnext := (hshows.step henabled hfull).closed
    rw [hnext]
    cases htold : told l with
    | none => rfl
    | some happening =>
      refine closed_take reader _ fun hleave => hcall ?_
      subst hleave
      unfold told at htold
      split at htold <;> simp_all
  cases l with
  | message env msg =>
    cases msg with
    | playerJoined p players =>
      cases hclosed : g.closedFlag with
      | true => exact absurd ((h.gone hclosed).1.symm.trans henabled) Bool.false_ne_true
      | false =>
        have hset : Shows ({ g with roster := copyPlayers players } : P2PGame Sdp)
            { Telling.story g with roster := copyPlayers players } := ⟨rfl, h.congr rfl⟩
        have hnext := ((hset.emit hclosed (.playerJoined p)).resetPeer hclosed env p).closed
        exact hnext.trans ((Client.Story.closed_meet reader _ p _).trans hclosed)
    | _ => exact hstep trivial
  | _ => exact hstep trivial

theorem stays_closed {g : P2PGame Sdp} (h : Placed g) {l : Game.Label Sdp} (henabled : g.Enabled l)
    (hclosed : g.closedFlag = true) : (g.take l).closedFlag = true := by
  by_cases hcall : l = .close
  · subst hcall
    simp [P2PGame.take, P2PGame.close, hclosed]
  · exact (closed_game h henabled hcall).trans hclosed

end Game

/-- A send comes from where it was, from where it is not fulfilled, or from a loop that has
stopped with frames left. -/
inductive Came (s t : Page Sdp) (i : Nat) (b : Send) : Prop where
  | stays (a : Send) : s.sends[i]? = some a → b.phase = a.phase →
      (Fine s.game a.phase → Fine t.game b.phase) → Came s t i b
  | moved : Fine t.game b.phase → b.phase ≠ .settled (.ok ()) → Came s t i b
  | ran (luck : Luck) (drained : Bool) (v : Locals) (c : Channel) (left : List Bytes) :
      s.game.Made b.target v.link → c.readyState = (s.channels v.link).readyState → left ≠ [] →
      b.phase = (sendChunks luck b.target (!s.game.live v.link) drained c left).2.2 → Came s t i b

theorem phase_rephase {f : Send → Phase} {i : Nat} {b : Send} (hb : (s.rephase f).sends[i]? = some b) :
    ∃ a, s.sends[i]? = some a ∧ b.phase = f a := by
  have hb' : (s.sends.map fun send => { send with phase := f send })[i]? = some b := hb
  rw [List.getElem?_map] at hb'
  obtain ⟨a, ha, rfl⟩ := Option.map_eq_some_iff.1 hb'
  exact ⟨a, ha, rfl⟩

theorem phase_opens {n : Nat} {phase : Send → Phase} {i : Nat} {b : Send}
    (hb : (s.opens n phase).sends[i]? = some b) :
    ∃ a, s.sends[i]? = some a ∧ (b.phase = a.phase ∨ b.phase = phase a) := by
  obtain ⟨a, ha, hphase⟩ := phase_rephase hb
  refine ⟨a, ha, ?_⟩
  rw [hphase]
  split
  · split_ifs
    · exact .inr rfl
    · exact .inl (by simp_all)
  · exact .inl rfl

theorem phase_drains {n : Nat} {phase : Send → Phase} {i : Nat} {b : Send}
    (hb : (s.drains n phase).sends[i]? = some b) :
    ∃ a, s.sends[i]? = some a ∧ (b.phase = a.phase ∨ b.phase = phase a) := by
  obtain ⟨a, ha, hphase⟩ := phase_rephase hb
  refine ⟨a, ha, ?_⟩
  rw [hphase]
  split
  · split_ifs
    · exact .inr rfl
    · exact .inl (by simp_all)
  · exact .inl rfl

theorem phase_enter {i : Nat} {phase : Phase} {j : Nat} {b : Send}
    (hb : (s.enter i phase).sends[j]? = some b) :
    ∃ a, s.sends[j]? = some a ∧ (b.phase = a.phase ∨ b.phase = phase) := by
  have hb' : (s.sends.modify i fun send => { send with phase := phase })[j]? = some b := hb
  rw [List.getElem?_modify] at hb'
  obtain ⟨a, ha, rfl⟩ := Option.map_eq_some_iff.1 hb'
  refine ⟨a, ha, ?_⟩
  split_ifs
  · exact .inr rfl
  · exact .inl rfl

theorem came_of_phase {i : Nat} {b : Send} (hgame : t.game = s.game)
    (h : ∃ a, s.sends[i]? = some a ∧ (b.phase = a.phase ∨
      Fine s.game b.phase ∧ b.phase ≠ .settled (.ok ()))) : Came s t i b := by
  obtain ⟨a, ha, hsame | ⟨hfine, hnot⟩⟩ := h
  · exact .stays a ha hsame fun hfine => by rwa [hgame, hsame]
  · exact .moved (by rwa [hgame]) hnot

theorem came_into {i : Nat} {a b : Send} {phase : Phase} (hgame : t.game = s.game)
    (ha : s.sends[i]? = some a) (hphase : b.phase = a.phase ∨ b.phase = phase)
    (hfine : Fine s.game phase) (hnot : phase ≠ .settled (.ok ())) : Came s t i b := by
  refine came_of_phase hgame ⟨a, ha, hphase.imp_right fun hphase => ?_⟩
  rw [hphase]
  exact ⟨hfine, hnot⟩

theorem came_enter {i : Nat} {phase : Phase} {j : Nat} {b : Send} (hfine : Fine s.game phase)
    (hnot : phase ≠ .settled (.ok ())) (hb : (s.enter i phase).sends[j]? = some b) :
    Came s (s.enter i phase) j b := by
  obtain ⟨a, ha, hphase⟩ := phase_enter hb
  exact came_into rfl ha hphase hfine hnot

theorem came_onOpen {n i : Nat} {b : Send} (hb : (s.onOpen n).sends[i]? = some b) :
    Came s (s.onOpen n) i b := by
  obtain ⟨a, ha, hphase⟩ := phase_opens hb
  exact came_into rfl ha hphase trivial nofun

theorem came_openTimeout {n i : Nat} {b : Send} (hb : (s.openTimeout n).sends[i]? = some b) :
    Came s (s.openTimeout n) i b := by
  obtain ⟨a, ha, hphase⟩ := phase_opens hb
  exact came_into rfl ha hphase trivial nofun

theorem came_onClose {n i : Nat} {b : Send} (hb : (s.onClose n).sends[i]? = some b) :
    Came s (s.onClose n) i b := by
  obtain ⟨a, ha, hphase⟩ := phase_drains hb
  obtain ⟨a', ha', hphase'⟩ := phase_opens ha
  rcases hphase with hphase | hphase
  · rw [← hphase] at hphase'
    exact came_into rfl ha' hphase' trivial nofun
  · exact came_into rfl ha' (.inr hphase) trivial nofun

theorem came_low {n i : Nat} {b : Send}
    (hb : (s.drains n fun _ => .drained).sends[i]? = some b) :
    Came s (s.drains n fun _ => .drained) i b := by
  obtain ⟨a, ha, hphase⟩ := phase_drains hb
  exact came_into rfl ha hphase trivial nofun

theorem came_same {i : Nat} {b : Send} (hb : s.sends[i]? = some b) : Came s s i b :=
  .stays b hb rfl id

/-- At most one send comes to another phase, in which it is not fulfilled. -/
def Enters (s t : Page Sdp) (i : Nat) : Prop :=
  t = s ∨ ∃ phase, Fine s.game phase ∧ phase ≠ .settled (.ok ()) ∧ t = s.enter i phase

theorem enters_enter {i : Nat} {phase : Phase} (hfine : Fine s.game phase)
    (hnot : phase ≠ .settled (.ok ())) : Enters s (s.enter i phase) i :=
  .inr ⟨phase, hfine, hnot, rfl⟩

theorem enters_linkTimeout (s : Page Sdp) (i : Nat) : Enters s (s.linkTimeout i) i := by
  unfold Page.linkTimeout
  split
  · exact .inl rfl
  · exact enters_enter trivial nofun

theorem enters_poll (s : Page Sdp) (i : Nat) : Enters s (s.poll i) i := by
  unfold Page.poll
  split
  · exact .inl rfl
  · split
    · exact .inl rfl
    · split_ifs
      · exact enters_enter trivial nofun
      · exact enters_enter trivial nofun
      · exact .inl rfl

theorem Enters.came {i : Nat} (h : Enters s t i) {j : Nat} {b : Send} (hb : t.sends[j]? = some b) :
    Came s t j b := by
  rcases h with rfl | ⟨phase, hfine, hnot, rfl⟩
  · exact came_same hb
  · exact came_enter hfine hnot hb

theorem Enters.rest {i : Nat} (h : Enters s t i) : t.game = s.game ∧ t.channels = s.channels := by
  rcases h with rfl | ⟨phase, -, -, rfl⟩ <;> exact ⟨rfl, rfl⟩

theorem fine_awaitLink (g : P2PGame Sdp) (p : PlayerId) :
    Fine g (awaitLink g p) ∧ awaitLink g p ≠ .settled (.ok ()) := by
  unfold awaitLink
  split
  · split_ifs with hclosed
    · exact ⟨trivial, nofun⟩
    · exact ⟨(Bool.not_eq_true _).mp hclosed, nofun⟩
  · split_ifs with hlive hclosed
    · exact ⟨trivial, nofun⟩
    · exact ⟨trivial, nofun⟩
    · exact ⟨(Bool.not_eq_true _).mp hclosed, nofun⟩

theorem waitReliableOpen_fine (g : P2PGame Sdp) (p : PlayerId) (n : Nat) (c : Channel) :
    Fine g (waitReliableOpen (!g.live n) p n c).2 ∧
      (waitReliableOpen (!g.live n) p n c).2 ≠ .settled (.ok ()) ∧
      (waitReliableOpen (!g.live n) p n c).1.readyState = c.readyState := by
  unfold waitReliableOpen
  split_ifs with hopened hshut
  · exact ⟨trivial, nofun, rfl⟩
  · exact ⟨trivial, nofun, rfl⟩
  · have hstill : gone g n = false := by
      unfold gone
      cases hlive : g.live n with
      | true => simp
      | false => exact absurd (.inl (by simp [hlive])) hshut
    split
    · exact ⟨hstill, nofun, rfl⟩
    · exact ⟨hstill, nofun, rfl⟩
    · exact ⟨trivial, nofun, rfl⟩
    · exact ⟨trivial, nofun, rfl⟩

theorem framesOf_ne_nil (v : Locals) (bytes : Bytes) : framesOf v bytes ≠ [] := by
  intro hnil
  have hlen := congrArg List.length hnil
  rw [length_framesOf, List.length_nil] at hlen
  omega

theorem came_transmit {luck : Luck} {i : Nat} {a : Send} {v : Locals} {drained : Bool} {c : Channel}
    (ha : s.sends[i]? = some a) (hmade : s.game.Made a.target v.link)
    (hready : c.readyState = (s.channels v.link).readyState)
    (hleft : leftOf s.memory a v ≠ [])
    (hruns : Runs s t i a c v (sendChunks luck a.target (!s.game.live v.link) drained c
      (leftOf s.memory a v))) {j : Nat} {b : Send} (hb : t.sends[j]? = some b) :
    Came s t j b := by
  obtain ⟨hlt, -⟩ := List.getElem?_eq_some_iff.1 ha
  rw [hruns.sends] at hb
  by_cases hij : i = j
  · subst hij
    rw [List.getElem?_set_self hlt] at hb
    obtain rfl := Option.some.inj hb
    exact .ran luck drained v c _ hmade hready hleft rfl
  · rw [List.getElem?_set_ne hij] at hb
    exact .stays b hb rfl fun hfine => hruns.game ▸ hfine

inductive Resumed (luck : Luck) (s t : Page Sdp) (i : Nat) (a : Send) : Prop where
  | starts : t = s.enter i (awaitLink s.game a.target) → Resumed luck s t i a
  | waits (n : Nat) : s.game.Made a.target n →
      t = (s.modifyChannel n fun c => (waitReliableOpen (!s.game.live n) a.target n c).1).enter i
        (waitReliableOpen (!s.game.live n) a.target n (s.channels n)).2 → Resumed luck s t i a
  | runs (drained : Bool) (c : Channel) (v : Locals) : s.game.Made a.target v.link →
      c.readyState = (s.channels v.link).readyState → c.frames = (s.channels v.link).frames →
      leftOf s.memory a v ≠ [] →
      Runs s t i a c v (sendChunks luck a.target (!s.game.live v.link) drained c
        (leftOf s.memory a v)) → Resumed luck s t i a

theorem resume_cases (h : Inv False s) (luck : Luck) {i : Nat}
    (hready : s.Ready i) :
    ∃ a, s.sends[i]? = some a ∧ a.phase.isSettled = false ∧ Resumed luck s (s.resume luck i) i a := by
  obtain ⟨a, ha, ⟨hqueued, -⟩ | hgoes⟩ := hready
  · refine ⟨a, ha, by rw [hqueued]; rfl, .starts ?_⟩
    simp only [Page.resume, ha, hqueued]
  · refine ⟨a, ha, ?_, ?_⟩
    · cases hphase : a.phase <;> simp_all [Phase.goesOn, Phase.isSettled]
    · cases hphase : a.phase with
      | linked n =>
        refine .waits n (h.named i a n ha (by rw [hphase]; rfl)) ?_
        simp only [Page.resume, ha, hphase]
        rfl
      | opened n =>
        simp only [Page.resume, ha, hphase]
        have hmade := h.named i a n ha (by rw [hphase]; rfl)
        exact .runs false { s.channels n with nextMsgId := toUint32 ((s.channels n).nextMsgId + 1) }
          ⟨n, (s.channels n).nextMsgId, 0⟩ hmade rfl rfl (framesOf_ne_nil _ _)
          (runs_startSend s luck i a n)
      | drained =>
        -- the loop has stopped before a frame
        obtain ⟨v, hv, hmore⟩ := h.late i a ha (by rw [hphase]; rfl)
        simp only [Page.resume, ha, hphase, hv]
        have hleft : leftOf s.memory a v ≠ [] := by
          rw [leftOf, ne_eq, List.drop_eq_nil_iff, length_framesOf, length_read, ← (h.size i a ha).1,
            ← length_framesOf v]
          exact Nat.not_le.2 hmore
        exact .runs true _ v (h.held i a v ha hv).1 rfl rfl hleft (runs_transmit s luck i a v)
      | _ => simp [hphase, Phase.goesOn] at hgoes

theorem came_resume (h : Inv False s) {luck : Luck} {i : Nat}
    (hready : s.Ready i)
    {j : Nat} {b : Send} (hb : (s.resume luck i).sends[j]? = some b) :
    Came s (s.resume luck i) j b := by
  obtain ⟨a, ha, -, hresumed⟩ := resume_cases h luck hready
  cases hresumed with
  | starts hnext =>
    obtain ⟨hfine, hnot⟩ := fine_awaitLink s.game a.target
    rw [hnext] at hb ⊢
    exact came_enter hfine hnot hb
  | waits n hmade hnext =>
    obtain ⟨hfine, hnot, -⟩ := waitReliableOpen_fine s.game a.target n (s.channels n)
    rw [hnext] at hb ⊢
    obtain ⟨a', ha', hphase⟩ := phase_enter hb
    exact came_into rfl ha' hphase hfine hnot
  | runs drained c v hmade hready hframes hleft hruns =>
    exact came_transmit ha hmade hready hleft hruns hb

theorem came_sendReliable {target : Int} {data : Data} {i : Nat} {b : Send}
    (hb : (s.orStay (s.sendReliable target data)).sends[i]? = some b) :
    Came s (s.orStay (s.sendReliable target data)) i b := by
  cases hcalled : s.sendReliable target data with
  | error _ =>
    rw [hcalled] at hb
    exact came_same hb
  | ok t =>
    obtain ⟨-, rfl⟩ := sendReliable_ok hcalled
    rw [hcalled] at hb
    rcases called_cases hb with hb | ⟨-, rfl⟩
    · exact .stays b hb rfl id
    · exact .moved trivial nofun

def Sealed (s : Page Sdp) : Prop := ∀ n, gone s.game n = true → (s.channels n).readyState = .closed

theorem Sealed.update (h : Sealed s) {t : Page Sdp} {m : Nat} {c : Channel} (hgame : t.game = s.game)
    (hchannels : t.channels = Function.update s.channels m c)
    (hc : gone s.game m = true → c.readyState = .closed) : Sealed t := by
  intro n hgone
  rw [hgame] at hgone
  rw [hchannels]
  by_cases hn : n = m
  · subst hn
    rw [Function.update_self]
    exact hc hgone
  · rw [Function.update_of_ne hn]
    exact h n hgone

theorem settleOpen_readyState (c : Channel) (outcome : Wait) :
    (c.settleOpen outcome).readyState = c.readyState := by
  unfold Channel.settleOpen
  split <;> rfl

theorem Sealed.transmit (h : Sealed s) {i : Nat} {a : Send} {c : Channel} {v : Locals}
    {r : Channel × Nat × Phase} (hruns : Runs s t i a c v r)
    (hready : c.readyState = (s.channels v.link).readyState) : Sealed t :=
  h.update hruns.game hruns.channels fun hgone =>
    hruns.hands.readyState.trans (hready.trans (h v.link hgone))

theorem Sealed.resume (h : Sealed s) (hinv : Inv False s) (luck : Luck) {i : Nat}
    (hready : s.Ready i) :
    Sealed (s.resume luck i) := by
  obtain ⟨a, -, -, hresumed⟩ := resume_cases hinv luck hready
  cases hresumed with
  | starts hnext =>
    rw [hnext]
    exact h
  | waits n hmade hnext =>
    rw [hnext]
    refine h.update rfl rfl fun hgone => ?_
    exact (waitReliableOpen_fine s.game a.target n (s.channels n)).2.2.trans (h n hgone)
  | runs drained c v hmade hready hframes hleft hruns => exact h.transmit hruns hready

theorem Sealed.enters (h : Sealed s) {i : Nat} (henters : Enters s t i) : Sealed t := by
  obtain ⟨hgame, hchannels⟩ := henters.rest
  unfold Sealed
  rw [hgame, hchannels]
  exact h

theorem frames_modifyChannel {f : Channel → Channel} (hf : ∀ c, (f c).frames = c.frames) (n m : Nat) :
    ((s.modifyChannel n f).channels m).frames = (s.channels m).frames := by
  by_cases hm : m = n
  · subst hm
    simp only [Page.modifyChannel, Function.update_self]
    exact hf _
  · simp only [Page.modifyChannel, Function.update_of_ne hm]

theorem frames_waitReliableOpen (closed : Bool) (p : PlayerId) (n : Nat) (c : Channel) :
    (waitReliableOpen closed p n c).1.frames = c.frames := by
  unfold waitReliableOpen
  split_ifs
  · rfl
  · rfl
  · split <;> rfl

structure Shut (s : Page Sdp) : Prop where
  channels : Sealed s
  phases : ∀ a ∈ s.sends, Fine s.game a.phase

theorem Shut.ended (h : Shut s) (hinv : Inv False s) (hclosed : s.game.closedFlag = true) {p : PlayerId}
    {n : Nat} (hmade : s.game.Made p n) :
    s.game.live n = false ∧ gone s.game n = true ∧ (s.channels n).readyState = .closed := by
  have hdead := Telling.dead_of_closed hinv.placed hclosed hmade
  have hgone := gone_of_dead hmade hdead
  exact ⟨hdead, hgone, h.channels n hgone⟩

theorem Shut.fails (h : Shut s) (hinv : Inv False s) (hclosed : s.game.closedFlag = true) {p : PlayerId}
    {n : Nat} (hmade : s.game.Made p n) (luck : Luck) (drained : Bool) {c : Channel}
    (hready : c.readyState = (s.channels n).readyState) {left : List Bytes} (hleft : left ≠ []) :
    ∃ err, (sendChunks luck p (!s.game.live n) drained c left).2.2 = .settled (.error err) := by
  obtain ⟨hdead, -, hchannel⟩ := h.ended hinv hclosed hmade
  have hshut : c.readyState ≠ .opened := by
    rw [hready, hchannel]
    decide
  refine (sendChunks_shut luck p _ drained hshut hleft).2.resolve_right fun hwaits => ?_
  simp [hdead] at hwaits

def Own : Sends.Label Sdp → Prop
  | .resume .. | .poll _ => True
  | _ => False

/-- How many sends are still to come to an end. -/
def unsettled (s : Page Sdp) : Nat := s.sends.countP fun send => !send.phase.isSettled

theorem settles_one {i : Nat} {a b : Send} (ha : s.sends[i]? = some a) (hwaits : a.phase.isSettled = false)
    (hsends : t.sends = s.sends.set i b) (hsettled : b.phase.isSettled = true) :
    unsettled t + 1 = unsettled s := by
  obtain ⟨hlt, hget⟩ := List.getElem?_eq_some_iff.1 ha
  have hmem : 0 < s.sends.countP fun send => !send.phase.isSettled :=
    List.countP_pos_iff.2 ⟨a, List.mem_of_getElem? ha, by simp [hwaits]⟩
  unfold unsettled
  rw [hsends, List.countP_set hlt, hget]
  simp only [hwaits, hsettled, Bool.not_false, Bool.not_true, if_true, Bool.false_eq_true, if_false]
  omega

theorem sends_enter {i : Nat} {a : Send} (ha : s.sends[i]? = some a) (phase : Phase) :
    (s.enter i phase).sends = s.sends.set i { a with phase := phase } := by
  have hmodify : (s.enter i phase).sends = s.sends.modify i fun send => { send with phase := phase } := rfl
  obtain ⟨hlt, rfl⟩ := List.getElem?_eq_some_iff.1 ha
  have : Inhabited Send := ⟨s.sends[i]⟩
  rw [hmodify, List.modify_eq_set]
  simp [hlt]

theorem Shut.resumes (h : Shut s) (hinv : Inv False s) (hclosed : s.game.closedFlag = true) {luck : Luck}
    {i : Nat} {a : Send} (hresumed : Resumed luck s t i a) (ha : s.sends[i]? = some a) :
    ∃ b, t.sends = s.sends.set i b ∧ b.phase.isSettled = true := by
  cases hresumed with
  | starts hnext =>
    have hend : awaitLink s.game a.target = .settled (.error gameClosed) := by
      simp [awaitLink, (hinv.placed.gone hclosed).2, hclosed]
    rw [hnext, hend]
    exact ⟨_, sends_enter ha _, rfl⟩
  | waits n hmade hnext =>
    obtain ⟨hdead, -, hchannel⟩ := h.ended hinv hclosed hmade
    have hend : (waitReliableOpen (!s.game.live n) a.target n (s.channels n)).2 =
        .settled (.error (peerClosed "channel" a.target "is closed")) := by
      simp [waitReliableOpen, hdead, hchannel]
    rw [hnext, hend]
    exact ⟨_, sends_enter (s := s.modifyChannel n _) ha _, rfl⟩
  | runs drained c v hmade hready hframes hleft hruns =>
    obtain ⟨err, herr⟩ := h.fails hinv hclosed hmade luck drained hready hleft
    exact ⟨_, hruns.sends, by rw [went, herr]; rfl⟩

theorem Shut.polls (h : Shut s) (hinv : Inv False s) (hclosed : s.game.closedFlag = true) {i : Nat} {a : Send}
    (ha : s.sends[i]? = some a) (hwaits : a.phase = .awaitDrain) :
    ∃ b, (s.poll i).sends = s.sends.set i b ∧ b.phase.isSettled = true := by
  obtain ⟨v, hv, -⟩ := hinv.late i a ha (by rw [hwaits]; rfl)
  obtain ⟨hdead, -⟩ := h.ended hinv hclosed (hinv.held i a v ha hv).1
  have hend : s.poll i = s.enter i (.settled (.error (peerClosed "channel" a.target "closed"))) := by
    simp [Page.poll, ha, hv, hdead]
  exact ⟨_, (congrArg Page.sends hend).trans (sends_enter ha _), rfl⟩

/-- The first send that is not settled can take a step. -/
theorem Shut.goes (h : Shut s) (hinv : Inv False s) (hclosed : s.game.closedFlag = true)
    (hleft : unsettled s ≠ 0) : ∃ l, Own l ∧ s.Enabled l := by
  have hsome : ∃ (i : Nat) (a : Send), s.sends[i]? = some a ∧ a.phase.isSettled = false := by
    obtain ⟨a, ha, hwaits⟩ := List.countP_pos_iff.1 (Nat.pos_of_ne_zero hleft)
    obtain ⟨i, hi⟩ := List.getElem?_of_mem ha
    exact ⟨i, a, hi, by simpa using hwaits⟩
  classical
  obtain ⟨a, ha, hwaits⟩ := Nat.find_spec hsome
  have hfirst (j : Nat) (hj : j < Nat.find hsome) (b : Send) (hb : s.sends[j]? = some b) :
      b.phase.isSettled = true := by
    by_contra hnot
    exact Nat.find_min hsome hj ⟨b, hb, (Bool.not_eq_true _).mp hnot⟩
  generalize Nat.find hsome = i at ha hfirst
  have hfine := h.phases a (List.mem_of_getElem? ha)
  have hgoes (hgoes : a.phase.goesOn = true) : ∃ l, Own l ∧ s.Enabled l :=
    ⟨.resume ⟨fun _ => true, ""⟩ i, trivial, a, ha, .inr hgoes⟩
  cases hphase : a.phase with
  | queued =>
    have hchained : s.Chained a := fun j hj => by
      obtain ⟨hlt, before, hbefore, -⟩ := hinv.links.prev i j a ha hj
      exact ⟨before, hbefore, hfirst j hlt before hbefore⟩
    exact ⟨.resume ⟨fun _ => true, ""⟩ i, trivial, a, ha, .inl ⟨hphase, hchained⟩⟩
  | awaitLink =>
    rw [hphase] at hfine
    exact absurd (hclosed.symm.trans hfine) (by decide)
  | awaitOpen n =>
    rw [hphase] at hfine
    obtain ⟨-, hgone, -⟩ := h.ended hinv hclosed (hinv.named i a n ha (by rw [hphase]; rfl))
    exact absurd (hgone.symm.trans hfine) (by decide)
  | awaitDrain => exact ⟨.poll i, trivial, a, ha, hphase⟩
  | settled _ =>
    rw [hphase] at hwaits
    cases hwaits
  | _ => exact hgoes (by rw [hphase]; rfl)

variable [DecidableEq Sdp]

theorem came_takeGame (hplaced : Placed s.game) {l : Game.Label Sdp} (henabled : s.game.Enabled l)
    {i : Nat} {b : Send} (hb : (s.takeGame l).sends[i]? = some b)
    (hfine : ∀ a ∈ s.sends, Fine s.game a.phase) : Came s (s.takeGame l) i b := by
  obtain ⟨a, ha, hphase⟩ := phase_rephase hb
  have hold := hfine a (List.mem_of_getElem? ha)
  have hnotice : b.phase = a.notice (s.game.take l) (tearsDown s.game l) := hphase
  unfold Send.notice at hnotice
  cases hwaits : a.phase with
  | awaitLink =>
    simp only [hwaits] at hnotice hold
    have hopen : s.game.closedFlag = false := hold
    refine .moved ?_ ?_
    · rw [hnotice]
      split_ifs with htorn
      · trivial
      · cases hp : (s.game.take l).peers a.target with
        | some n => trivial
        | none =>
          have hcall : l ≠ .close := by
            rintro rfl
            simp [tearsDown, hopen] at htorn
          exact (closed_game hplaced henabled hcall).trans hopen
    · rw [hnotice]
      split_ifs
      · nofun
      · split <;> nofun
  | awaitOpen n =>
    simp only [hwaits] at hnotice
    refine .moved ?_ ?_
    · rw [hnotice]
      split_ifs with hgone
      · trivial
      · exact (Bool.not_eq_true _).mp hgone
    · rw [hnotice]
      split_ifs <;> nofun
  | _ =>
    simp only [hwaits] at hnotice
    exact .stays a ha (hnotice.trans hwaits.symm) fun _ => by rw [hnotice]; trivial

theorem came_step (h : Inv False s) (hshut : Shut s) {l : Sends.Label Sdp} (henabled : s.Enabled l)
    {i : Nat} {b : Send} (hb : (s.take l).sends[i]? = some b) : Came s (s.take l) i b := by
  cases l with
  | game l => exact came_takeGame h.placed henabled hb hshut.phases
  | sendReliable target data => exact came_sendReliable hb
  | resume luck i => exact came_resume h henabled hb
  | onOpen n => exact came_onOpen hb
  | onClose n => exact came_onClose hb
  | openTimeout n => exact came_openTimeout hb
  | linkTimeout i => exact (enters_linkTimeout s i).came hb
  | transport n amount => exact .stays b hb rfl id
  | bufferedAmountLow n => exact came_low hb
  | poll i => exact (enters_poll s i).came hb
  | write memory => exact .stays b hb rfl id

theorem Sealed.step (h : Sealed s) (hinv : Inv False s) {l : Sends.Label Sdp} (henabled : s.Enabled l) :
    Sealed (s.take l) := by
  cases l with
  | game l =>
    intro n hgone
    have hclosed : gone (s.game.take l) n = true := hgone
    simp only [Page.take, Page.takeGame, Page.rephase, if_pos hclosed]
    rfl
  | sendReliable target data =>
    simp only [Page.take]
    cases hcalled : s.sendReliable target data with
    | error _ => exact h
    | ok t =>
      obtain ⟨-, rfl⟩ := sendReliable_ok hcalled
      exact h
  | resume luck i => exact h.resume hinv luck henabled
  | onOpen n =>
    refine h.update rfl rfl fun hgone => ?_
    exact absurd (henabled.1.symm.trans (live_of_gone hgone)) (by decide)
  | onClose n => exact h.update rfl rfl fun _ => rfl
  | openTimeout n => exact h.update rfl rfl fun hgone => (settleOpen_readyState _ _).trans (h n hgone)
  | linkTimeout i => exact h.enters (enters_linkTimeout s i)
  | transport n amount => exact h.update rfl rfl fun hgone => h n hgone
  | bufferedAmountLow n => exact h
  | poll i => exact h.enters (enters_poll s i)
  | write memory => exact h

theorem Shut.step (hinv : Inv False s) (h : Shut s) {l : Sends.Label Sdp} (henabled : s.Enabled l) :
    Shut (s.take l) where
  channels := h.channels.step hinv henabled
  phases b hb := by
    obtain ⟨i, hi⟩ := List.getElem?_of_mem hb
    cases came_step hinv h henabled hi with
    | stays a ha hphase hfine => exact hfine (h.phases a (List.mem_of_getElem? ha))
    | moved hfine => exact hfine
    | ran luck drained v c left hmade hready hleft hphase =>
      have hands := sendChunks_hands luck b.target (!s.game.live v.link) drained c left
      rw [hphase]
      rcases hands.stops with ⟨hstop, -⟩ | ⟨err, hstop⟩ | ⟨hstop, -⟩ <;> rw [hstop] <;> trivial

theorem shut_run {env : Env} {storage : Option (Option String)} {joined : JoinedMsg}
    {ls : List (Sends.Label Sdp)} (run : Run (Sends.system env storage joined) ls s) : Shut s := by
  refine run.history (fun _ s => Shut s) ?_ ?_
  · rintro s rfl
    refine ⟨fun n hgone => ?_, nofun⟩
    have hclosed : gone (P2PGame.start env storage joined : P2PGame Sdp) n = true := hgone
    simp only [Page.start, if_pos hclosed]
    rfl
  · rintro ls s l t run h ⟨henabled, rfl⟩
    exact h.step (inv_run run) henabled

theorem frames_step (hinv : Inv False s) (h : Sealed s) {l : Sends.Label Sdp} (henabled : s.Enabled l) {n : Nat}
    (hgone : gone s.game n = true) : ((s.take l).channels n).frames = (s.channels n).frames := by
  cases l with
  | game l =>
    simp only [Page.take, Page.takeGame, Page.rephase]
    split_ifs
    · exact (settleOpen_same _ _).1
    · rfl
  | sendReliable target data =>
    simp only [Page.take]
    cases hcalled : s.sendReliable target data with
    | error _ => rfl
    | ok t =>
      obtain ⟨-, rfl⟩ := sendReliable_ok hcalled
      rfl
  | resume luck i =>
    obtain ⟨a, -, -, hresumed⟩ := resume_cases hinv luck henabled
    rw [Page.take]
    cases hresumed with
    | starts hnext => rw [hnext]; rfl
    | waits m hmade hnext =>
      rw [hnext]
      exact frames_modifyChannel (frames_waitReliableOpen _ _ m) m n
    | runs drained c v hmade hready hframes hleft hruns =>
      rw [hruns.channels]
      by_cases hn : n = v.link
      · subst hn
        have hshut : c.readyState ≠ .opened := by
          rw [hready, h v.link hgone]
          decide
        rw [Function.update_self, (sendChunks_shut luck a.target _ drained hshut hleft).1, hframes]
      · rw [Function.update_of_ne hn]
  | onOpen m | onClose m =>
    refine (frames_modifyChannel (s := s) (f := fun c => { c.settleOpen _ with readyState := _ })
      (fun c => ?_) m n)
    exact (settleOpen_same c _).1
  | openTimeout m =>
    refine (frames_modifyChannel (s := s) (f := fun c => c.settleOpen _) (fun c => ?_) m n)
    exact (settleOpen_same c _).1
  | linkTimeout i => exact congrArg (fun channels => (channels n).frames) (enters_linkTimeout s i).rest.2
  | transport m amount =>
    exact frames_modifyChannel (f := fun c => { c with bufferedAmount := amount }) (fun _ => rfl) m n
  | bufferedAmountLow m => rfl
  | poll i => exact congrArg (fun channels => (channels n).frames) (enters_poll s i).rest.2
  | write memory => rfl

theorem Shut.unfulfilled (h : Shut s) (hinv : Inv False s) (hclosed : s.game.closedFlag = true)
    {l : Sends.Label Sdp} (henabled : s.Enabled l) {i : Nat} {b : Send}
    (hb : (s.take l).sends[i]? = some b) (hok : b.phase = .settled (.ok ())) :
    ∃ a, s.sends[i]? = some a ∧ a.phase = .settled (.ok ()) := by
  cases came_step hinv h henabled hb with
  | stays a ha hphase hfine => exact ⟨a, ha, hphase.symm.trans hok⟩
  | moved hfine hnot => exact absurd hok hnot
  | ran luck drained v c left hmade hready hleft hphase =>
    obtain ⟨err, herr⟩ := h.fails hinv hclosed hmade luck drained hready hleft
    rw [hphase, herr] at hok
    cases hok

theorem Shut.settles (h : Shut s) (hinv : Inv False s) (hclosed : s.game.closedFlag = true)
    {l : Sends.Label Sdp} (henabled : s.Enabled l) (hown : Own l) :
    unsettled (s.take l) + 1 = unsettled s := by
  cases l with
  | resume luck i =>
    obtain ⟨a, ha, hwaits, hresumed⟩ := resume_cases hinv luck henabled
    obtain ⟨b, hsends, hsettled⟩ := h.resumes hinv hclosed hresumed ha
    exact settles_one ha hwaits hsends hsettled
  | poll i =>
    obtain ⟨a, ha, hwaits⟩ := henabled
    obtain ⟨b, hsends, hsettled⟩ := h.polls hinv hclosed ha hwaits
    exact settles_one ha (by rw [hwaits]; rfl) hsends hsettled
  | _ => exact hown.elim

variable {env : Env} {storage : Option (Option String)} {joined : JoinedMsg}

/-- What comes after a state: a closed link takes no frame, and in a closed game no send is
fulfilled, while every step of a send settles one, until none is left. -/
structure Ends (sys : System (Page Sdp) (Sends.Label Sdp)) (s : Page Sdp) : Prop where
  frames : ∀ (ms : List (Sends.Label Sdp)) (t : Page Sdp) (n : Nat), Steps sys s ms t →
    gone s.game n = true → gone t.game n = true ∧ (t.channels n).frames = (s.channels n).frames
  closed : ∀ (ms : List (Sends.Label Sdp)) (t : Page Sdp), Steps sys s ms t →
    s.game.closedFlag = true → t.game.closedFlag = true
  fulfilled : ∀ (ms : List (Sends.Label Sdp)) (t : Page Sdp) (i : Nat) (b : Send), Steps sys s ms t →
    s.game.closedFlag = true → t.sends[i]? = some b → b.phase = .settled (.ok ()) →
    ∃ a, s.sends[i]? = some a ∧ a.phase = .settled (.ok ())
  settles : ∀ (ms : List (Sends.Label Sdp)) (t : Page Sdp), Steps sys s ms t →
    s.game.closedFlag = true → (∀ l ∈ ms, Own l) → unsettled t + ms.length = unsettled s ∧
      (unsettled t ≠ 0 → ∃ l u, Own l ∧ sys.step t l u)

theorem game_step {l : Sends.Label Sdp} (hinv : Inv False s) (henabled : s.Enabled l) :
    Grows s.game (s.take l).game ∧
      (s.game.closedFlag = true → (s.take l).game.closedFlag = true) := by
  cases l with
  | game l => exact ⟨grows_take hinv.placed l, stays_closed hinv.placed henabled⟩
  | sendReliable target data =>
    simp only [Page.take]
    cases hcalled : s.sendReliable target data with
    | error _ => exact ⟨.refl _, id⟩
    | ok t =>
      obtain ⟨-, rfl⟩ := sendReliable_ok hcalled
      exact ⟨.refl _, id⟩
  | resume luck i =>
    obtain ⟨a, -, -, hresumed⟩ := resume_cases hinv luck henabled
    have hgame : (s.resume luck i).game = s.game := by
      cases hresumed with
      | starts hnext => rw [hnext]; rfl
      | waits n hmade hnext => rw [hnext]; rfl
      | runs drained c v hmade hready hframes hleft hruns => exact hruns.game
    rw [Page.take, hgame]
    exact ⟨.refl _, id⟩
  | linkTimeout i =>
    rw [Page.take, (enters_linkTimeout s i).rest.1]
    exact ⟨.refl _, id⟩
  | poll i =>
    rw [Page.take, (enters_poll s i).rest.1]
    exact ⟨.refl _, id⟩
  | _ => exact ⟨.refl _, id⟩

theorem closed_steps {ls ms : List (Sends.Label Sdp)} (run : Run (Sends.system env storage joined) ls s)
    (steps : Steps (Sends.system env storage joined) s ms t) (hclosed : s.game.closedFlag = true) :
    t.game.closedFlag = true := by
  induction steps with
  | refl => exact hclosed
  | snoc steps hstep ih =>
    obtain ⟨henabled, rfl⟩ := hstep
    exact (game_step (inv_run (run.append steps)) henabled).2 ih

theorem frames_steps {ls ms : List (Sends.Label Sdp)} (run : Run (Sends.system env storage joined) ls s)
    (steps : Steps (Sends.system env storage joined) s ms t) {n : Nat} (hgone : gone s.game n = true) :
    gone t.game n = true ∧ (t.channels n).frames = (s.channels n).frames := by
  induction steps with
  | refl => exact ⟨hgone, rfl⟩
  | snoc steps hstep ih =>
    obtain ⟨henabled, rfl⟩ := hstep
    have hrun := run.append steps
    have hinv := inv_run hrun
    exact ⟨gone_grows (game_step hinv henabled).1 ih.1,
      (frames_step hinv (shut_run hrun).channels henabled ih.1).trans ih.2⟩

theorem fulfilled_steps {ls ms : List (Sends.Label Sdp)}
    (run : Run (Sends.system env storage joined) ls s)
    (steps : Steps (Sends.system env storage joined) s ms t) (hclosed : s.game.closedFlag = true)
    {i : Nat} {b : Send} (hb : t.sends[i]? = some b) (hok : b.phase = .settled (.ok ())) :
    ∃ a, s.sends[i]? = some a ∧ a.phase = .settled (.ok ()) := by
  induction steps generalizing b with
  | refl => exact ⟨b, hb, hok⟩
  | snoc steps hstep ih =>
    obtain ⟨henabled, rfl⟩ := hstep
    have hrun := run.append steps
    obtain ⟨a, ha, hok'⟩ :=
      (shut_run hrun).unfulfilled (inv_run hrun) (closed_steps run steps hclosed) henabled hb hok
    exact ih ha hok'

theorem settles_steps {ls ms : List (Sends.Label Sdp)} (run : Run (Sends.system env storage joined) ls s)
    (steps : Steps (Sends.system env storage joined) s ms t) (hclosed : s.game.closedFlag = true)
    (hown : ∀ l ∈ ms, Own l) : unsettled t + ms.length = unsettled s := by
  induction steps with
  | refl => rfl
  | @snoc ms u v l steps hstep ih =>
    obtain ⟨henabled, rfl⟩ := hstep
    have hrun := run.append steps
    have hbefore := ih fun m hm => hown m (List.mem_append_left _ hm)
    have hlast : Own l := hown l (by simp)
    have hone := (shut_run hrun).settles (inv_run hrun) (closed_steps run steps hclosed) henabled hlast
    rw [List.length_append, List.length_singleton]
    omega

/-- From every state of every run. -/
theorem sends_end {ls : List (Sends.Label Sdp)} (run : Run (Sends.system env storage joined) ls s) :
    Ends (Sends.system env storage joined) s where
  frames ms t n steps hgone := frames_steps run steps hgone
  closed ms t steps hclosed := closed_steps run steps hclosed
  fulfilled ms t i b steps hclosed hb hok := fulfilled_steps run steps hclosed hb hok
  settles ms t steps hclosed hown := by
    refine ⟨settles_steps run steps hclosed hown, fun hleft => ?_⟩
    have hrun := run.append steps
    obtain ⟨l, hl, henabled⟩ :=
      (shut_run hrun).goes (inv_run hrun) (closed_steps run steps hclosed) hleft
    exact ⟨l, t.take l, hl, henabled, rfl⟩

def closedPage : Page String :=
  (pairPage.take (.sendReliable 1 (.arrayBuffer 0 4))).take (.game .close)

theorem sends_end_pair : closedPage.game.closedFlag = true ∧ unsettled closedPage = 1 ∧
    Ends (Sends.system Telling.pairEnv none Telling.pairMsg) closedPage := by
  have hcalled := run_taken pair_keeping (.sendReliable 1 (.arrayBuffer 0 4)) trivial trivial
  have hclose := run_taken hcalled (.game .close) trivial trivial
  exact ⟨rfl, rfl, sends_end hclose.unrestrict⟩

end Lobbylink.Ts.Closing
