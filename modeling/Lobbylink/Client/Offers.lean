import Lobbylink.Client.Links
import Lobbylink.Lib.Runs

/-! Runs of the client's actor among the callbacks and timers it has set off. A
rebuild timer has a link replaced only so many times before the link must connect. -/
namespace Lobbylink.Client.Offers
open Protocol Roster Native Silence Links Lib.Runs

variable {Sdp : Type}

/-- The game, the links whose callbacks have told of a failure, and the players to
whom a timer has had an offer sent. -/
structure World (Sdp : Type) where
  game : Game Sdp
  failed : Nat → Bool
  rebuilt : List PlayerId

def World.take (rtc : Rtc Sdp) (w : World Sdp) (input : Input Sdp) : World Sdp where
  game := w.game.take rtc input
  failed := match input with
    | .internal (.state _ epoch .failed) => Function.update w.failed epoch true
    | _ => w.failed
  rebuilt := match input with
    | .internal (.rebuild p _) => w.rebuilt ++
      List.replicate (offersTo p (w.game.take rtc input).actor - offersTo p w.game.actor) p
    | _ => w.rebuilt

/-- A callback is of a link of its player, a link that has failed stays so until it is
closed, and a timer fires that was set. -/
def Arrives (w : World Sdp) : Input Sdp → Prop
  | .internal (.state p epoch state) =>
    (∃ closed, w.game.actor.links epoch = some ⟨p, closed⟩) ∧
      (w.failed epoch = true → state = .failed ∨ state = .closed)
  | .internal (.rebuild p epoch) => ∃ delay, (p, epoch, delay) ∈ w.game.actor.timers
  | _ => True

def system (Sdp : Type) : System (World Sdp) (Rtc Sdp × Input Sdp) where
  init := fun w => ∃ rtc storagePath joined,
    w = ⟨Game.start rtc storagePath joined, fun _ => false, []⟩
  step := fun w l w' => Arrives w l.2 ∧ w' = w.take l.1 l.2

/-- No new session of player `p`, and no connection on its link. -/
def Calm (p : PlayerId) (w : World Sdp) (l : Rtc Sdp × Input Sdp) : Prop :=
  (∀ msg, l.2 = .internal (.ws msg) → sessionOf msg ≠ some p) ∧
    ∀ epoch, l.2 = .internal (.state p epoch .connected) →
      w.game.actor.linkEpochCurrent p epoch = false

def count (p : PlayerId) (a : Actor Sdp) : Nat := (a.rebuildCounts p).getD 0

/-- A timer is set for the link to `p`. -/
def Armed (p : PlayerId) (a : Actor Sdp) : Prop :=
  ∃ t ∈ a.timers, t.1 = p ∧ a.holds p t.2.1 = true

/-- After `n` rebuilds of the link to `p`; each of them was counted before. -/
structure Within (n : Nat) (p : PlayerId) (a : Actor Sdp) : Prop where
  counted : n ≤ count p a
  limit : n ≤ maxPeerRebuilds
  armed : Armed p a → n + 1 ≤ count p a ∧ n + 1 ≤ maxPeerRebuilds

variable {a b : Actor Sdp} {p q : PlayerId} {n : Nat}

theorem Within.fewer {m : Nat} (h : Within n p a) (hm : m ≤ n) : Within m p a where
  counted := Nat.le_trans hm h.counted
  limit := Nat.le_trans hm h.limit
  armed := fun harmed => ⟨Nat.le_trans (Nat.succ_le_succ hm) (h.armed harmed).1,
    Nat.le_trans (Nat.succ_le_succ hm) (h.armed harmed).2⟩

theorem within_of_not_armed (h : ¬Armed p a) : Within 0 p a :=
  ⟨Nat.zero_le _, Nat.zero_le _, fun harmed => absurd harmed h⟩

theorem armed_of_paces (hs : Sound a) (h : Paces p a b) (harmed : Armed p b) : Armed p a := by
  obtain ⟨t, ht, htp, hholds⟩ := harmed
  obtain ⟨peer, hpeer, he⟩ := holds_iff.1 hholds
  have htimer := h.timers t ht htp
  refine ⟨t, htimer, htp, ?_⟩
  rcases h.link peer hpeer with hheld | hnew
  · rwa [he] at hheld
  · have hle := (hs.timed t htimer).2
    omega

theorem Within.paces (h : Within n p a) (hs : Sound a) (hp : Paces p a b) : Within n p b := by
  have hcount : count p b = count p a := by
    unfold count
    rw [hp.counts]
  refine ⟨hcount ▸ h.counted, h.limit, fun harmed => ?_⟩
  rw [hcount]
  exact h.armed (armed_of_paces hs hp harmed)

theorem not_armed_renewed (hs : Sound a) (htimers : b.timers = a.timers) (h : Renewed p a b) :
    ¬Armed p b := by
  rintro ⟨t, ht, -, hholds⟩
  obtain ⟨peer, hpeer, he⟩ := holds_iff.1 hholds
  have hnew := h peer hpeer
  have hle := (hs.timed t (htimers ▸ ht)).2
  omega

theorem Within.rebuild (h : Within n p a) (hs : Sound a) (harmed : Armed p a)
    (hcounts : b.rebuildCounts p = a.rebuildCounts p) (htimers : b.timers = a.timers)
    (hnew : Renewed p a b) : Within (n + 1) p b := by
  have hcount : count p b = count p a := by
    unfold count
    rw [hcounts]
  obtain ⟨hone, hlimit⟩ := h.armed harmed
  exact ⟨hcount ▸ hone, hlimit, fun hb => absurd hb (not_armed_renewed hs htimers hnew)⟩

theorem linkEpochCurrent_holds {e : Nat} (h : a.linkEpochCurrent p e = true) :
    a.holds p e = true := by
  unfold Actor.linkEpochCurrent at h
  rw [Bool.and_eq_true] at h
  exact h.1

/-- What a failure does: it is counted, and up to the limit a timer is set. -/
theorem handlePeerFailure_cases (a : Actor Sdp) (q : PlayerId) (e : Nat) :
    a.handlePeerFailure q e = a ∨ (∃ peer, a.peers q = some peer ∧ peer.link.initiator = true) ∧
      ∃ timers, (timers = [] ∨ count q a + 1 ≤ maxPeerRebuilds ∧ ∃ delay, timers = [(q, e, delay)]) ∧
        a.handlePeerFailure q e = { a with
          rebuildCounts := Function.update a.rebuildCounts q (some (count q a + 1))
          timers := a.timers ++ timers } := by
  unfold Actor.handlePeerFailure
  cases hpeer : a.peers q with
  | none => exact .inl rfl
  | some peer =>
    simp only
    split_ifs with hno hmany
    · exact .inl rfl
    all_goals
      simp only [Bool.or_eq_true, Bool.not_eq_true', not_or, Bool.not_eq_false] at hno
      refine .inr ⟨⟨peer, rfl, hno.1⟩, ?_⟩
    · exact ⟨[], .inl rfl, by simp [count]⟩
    · exact ⟨_, .inr ⟨Nat.not_lt.1 hmany, _, rfl⟩, rfl⟩

theorem sound_handlePeerFailure {e : Nat} (hs : Sound a) (hheld : a.holds q e = true) :
    Sound (a.handlePeerFailure q e) := by
  rcases handlePeerFailure_cases a q e with heq | ⟨⟨peer, hpeer, hinit⟩, timers, htimers, heq⟩
  · rw [heq]
    exact hs
  rw [heq]
  refine ⟨hs.stored, hs.made, hs.initiated, fun t ht => ?_, hs.offered⟩
  rcases List.mem_append.1 ht with ht | ht
  · exact hs.timed t ht
  · rcases htimers with rfl | ⟨-, delay, rfl⟩
    · exact absurd ht List.not_mem_nil
    · cases List.mem_singleton.1 ht
      obtain ⟨peer', hpeer', rfl⟩ := holds_iff.1 hheld
      exact ⟨hs.initiated q peer hpeer hinit,
        hs.made _ (by rw [hs.stored q peer' hpeer']; simp)⟩

theorem within_handlePeerFailure {e : Nat} (h : Within n p a) :
    Within n p (a.handlePeerFailure q e) := by
  rcases handlePeerFailure_cases a q e with heq | ⟨-, timers, htimers, heq⟩
  · rw [heq]
    exact h
  rw [heq]
  by_cases hp : p = q
  · subst hp
    have hcount : count p { a with
        rebuildCounts := Function.update a.rebuildCounts p (some (count p a + 1))
        timers := a.timers ++ timers } = count p a + 1 := by
      simp [count]
    refine ⟨by rw [hcount]; exact Nat.le_succ_of_le h.counted, h.limit, fun harmed => ?_⟩
    rw [hcount]
    refine ⟨Nat.succ_le_succ h.counted, ?_⟩
    obtain ⟨t, ht, htp, hheld⟩ := harmed
    rcases List.mem_append.1 ht with ht | ht
    · exact (h.armed ⟨t, ht, htp, hheld⟩).2
    · rcases htimers with rfl | ⟨hlimit, -⟩
      · exact absurd ht List.not_mem_nil
      · exact Nat.le_trans (Nat.succ_le_succ h.counted) hlimit
  · have hcount : count p { a with
        rebuildCounts := Function.update a.rebuildCounts q (some (count q a + 1))
        timers := a.timers ++ timers } = count p a := by
      simp [count, Function.update_of_ne hp]
    refine ⟨hcount ▸ h.counted, h.limit, fun harmed => ?_⟩
    rw [hcount]
    obtain ⟨t, ht, htp, hheld⟩ := harmed
    rcases List.mem_append.1 ht with ht | ht
    · exact h.armed ⟨t, ht, htp, hheld⟩
    · rcases htimers with rfl | ⟨-, delay, rfl⟩
      · exact absurd ht List.not_mem_nil
      · cases List.mem_singleton.1 ht
        exact absurd htp.symm hp

/-- What one input does to the actor: nothing but its ordinary work, a reset for a new
session, a connection that clears a count, a failure, or a rebuild. -/
inductive Takes (a : Actor Sdp) : Input Sdp → Actor Sdp → Prop where
  | goes {input : Input Sdp} {b : Actor Sdp} (h : Goes a b)
      (hidle : ∀ p epoch, input = .internal (.rebuild p epoch) → b = a) : Takes a input b
  | resets {msg : ServerMessage Sdp} {q : PlayerId} {b : Actor Sdp} (hq : sessionOf msg = some q)
      (h : Resets q a b) : Takes a (.internal (.ws msg)) b
  | connected {q : PlayerId} {epoch : Nat} {b : Actor Sdp}
      (hcurrent : a.linkEpochCurrent q epoch = true) (h : Goes a b) : Takes a (.internal (.state q epoch .connected))
        { b with rebuildCounts := Function.update b.rebuildCounts q none }
  | failed {q : PlayerId} {epoch : Nat} {b : Actor Sdp}
      (hcurrent : a.linkEpochCurrent q epoch = true) (h : Goes a b) (hheld : b.holds q epoch = true) :
      Takes a (.internal (.state q epoch .failed)) (b.handlePeerFailure q epoch)
  | rebuilt {q : PlayerId} {epoch : Nat} (rtc : Rtc Sdp)
      (hcurrent : a.linkEpochCurrent q epoch = true) (hclosed : a.closed = false) : Takes a (.internal (.rebuild q epoch)) (a.initiatePeer rtc q)

theorem takes_internal (rtc : Rtc Sdp) (a : Actor Sdp) (input : Internal Sdp) :
    Takes a (.internal input) (a.handleInternal rtc input) := by
  cases input with
  | ws msg =>
    rcases handleServerMessage_cases rtc a msg with ⟨q, hq, h⟩ | h
    · exact .resets hq h
    · exact .goes h fun _ _ heq => by cases heq
  | wsClosed | reliable | bestEffort | pair =>
    exact .goes (goes_silent (silent_handleInternal rtc a rfl)) fun _ _ heq => by cases heq
  | ice p epoch candidate =>
    refine .goes ?_ fun _ _ heq => by cases heq
    simp only [Actor.handleInternal]
    split_ifs
    · exact goes_sendSignal a fun _ h => by cases h
    · exact .refl a
  | state p epoch state =>
    simp only [Actor.handleInternal, Actor.handlePeerState]
    by_cases hcurrent : a.linkEpochCurrent p epoch = true
    · have hemit := goes_emit a (.peerState p state)
      rw [if_neg (by simp [hcurrent])]
      cases state with
      | connected => exact .connected hcurrent hemit
      | failed =>
        refine .failed hcurrent hemit ?_
        have hheld := linkEpochCurrent_holds hcurrent
        unfold Actor.emit
        split_ifs <;> exact hheld
      | new | connecting | disconnected | closed => exact .goes hemit fun _ _ heq => by cases heq
    · rw [if_pos (by simp [hcurrent])]
      exact .goes (.refl a) fun _ _ heq => by cases heq
  | rebuild p epoch =>
    simp only [Actor.handleInternal]
    split_ifs with hrebuilds
    · simp only [Actor.rebuilds, Bool.and_eq_true, Bool.not_eq_true'] at hrebuilds
      exact .rebuilt rtc hrebuilds.1.1.2 hrebuilds.1.1.1
    · exact .goes (.refl a) fun _ _ _ => rfl

theorem takes_take (rtc : Rtc Sdp) (g : Game Sdp) (input : Input Sdp) :
    Takes g.actor input (g.take rtc input).actor := by
  unfold Game.take
  by_cases hrun : g.running = true
  · rw [if_neg (by simp [hrun])]
    cases input with
    | cmd cmd =>
      refine .goes ?_ fun _ _ heq => by cases heq
      cases cmd with
      | close => exact goes_shutdown g.actor
      | sendReliable target data => exact goes_handleCmd rtc g.actor (.sendReliable target data)
      | sendBestEffort target data => exact goes_handleCmd rtc g.actor (.sendBestEffort target data)
      | broadcastBestEffort data => exact goes_handleCmd rtc g.actor (.broadcastBestEffort data)
    | cmdsEnded => exact .goes (goes_shutdown g.actor) fun _ _ heq => by cases heq
    | internal input => exact takes_internal rtc g.actor input
  · rw [if_pos (by simp [hrun])]
    exact .goes (.refl _) fun _ _ _ => rfl

/-- A timer tells of a failed link, and of a failure that is still counted if the link
is in use. -/
structure Good (w : World Sdp) : Prop where
  sound : Sound w.game.actor
  told : ∀ t ∈ w.game.actor.timers, w.failed t.2.1 = true
  within : ∀ p, Within 0 p w.game.actor

variable {w : World Sdp} {rtc : Rtc Sdp} {input : Input Sdp}

theorem failed_take {e : Nat} (h : w.failed e = true) : (w.take rtc input).failed e = true := by
  simp only [World.take]
  split
  · rw [Function.update_apply]
    split_ifs
    · rfl
    · exact h
  · exact h

theorem not_armed_connected (hw : Good w) {epoch : Nat}
    (harrives : Arrives w (.internal (.state q epoch .connected)))
    (hcurrent : w.game.actor.linkEpochCurrent q epoch = true) : ¬Armed q w.game.actor := by
  rintro ⟨t, ht, -, hheld⟩
  obtain ⟨peer, hpeer, he⟩ := holds_iff.1 (linkEpochCurrent_holds hcurrent)
  obtain ⟨peer', hpeer', he'⟩ := holds_iff.1 hheld
  rw [hpeer] at hpeer'
  cases hpeer'
  have hfailed := hw.told t ht
  rw [← he', he] at hfailed
  rcases harrives.2 hfailed with h | h <;> cases h

theorem sound_takes (hs : Sound a) (htakes : Takes a input b)
    (hset : ∀ q epoch, input = .internal (.rebuild q epoch) → ∃ t ∈ a.timers, t.1 = q) :
    Sound b := by
  cases htakes with
  | goes h => exact h.sound hs
  | resets _ h => exact h.sound hs
  | connected _ h =>
    have hs := h.sound hs
    exact ⟨hs.stored, hs.made, hs.initiated, hs.timed, hs.offered⟩
  | failed _ h hheld => exact sound_handlePeerFailure (h.sound hs) hheld
  | rebuilt rtc hcurrent =>
    obtain ⟨t, ht, rfl⟩ := hset _ _ rfl
    exact (goes_initiatePeer rtc a (hs.timed t ht).1).sound hs

theorem timers_takes (htakes : Takes a input b) {t : PlayerId × Nat × Nat} (ht : t ∈ b.timers) :
    t ∈ a.timers ∨ ∃ q, input = .internal (.state q t.2.1 .failed) := by
  cases htakes with
  | goes h => exact .inl ((h.paces t.1).timers t ht rfl)
  | resets _ h => exact .inl (h.timers ▸ ht)
  | connected _ h => exact .inl ((h.paces t.1).timers t ht rfl)
  | @failed q epoch b' _ h _ =>
    rcases handlePeerFailure_cases b' q epoch with heq | ⟨-, timers, htimers, heq⟩
    · rw [heq] at ht
      exact .inl ((h.paces t.1).timers t ht rfl)
    · rw [heq] at ht
      rcases List.mem_append.1 ht with ht | ht
      · exact .inl ((h.paces t.1).timers t ht rfl)
      · rcases htimers with rfl | ⟨-, delay, rfl⟩
        · exact absurd ht List.not_mem_nil
        · cases List.mem_singleton.1 ht
          exact .inr ⟨q, rfl⟩
  | rebuilt rtc => exact .inl (timers_initiatePeer rtc a _ ▸ ht)

/-- The offers to `p` that the input causes as a rebuild. -/
def rebuiltFor (p : PlayerId) (input : Input Sdp) (a b : Actor Sdp) : Nat :=
  match input with
  | .internal (.rebuild q _) => if q = p then offersTo q b - offersTo q a else 0
  | _ => 0

/-- While the link to `p` neither connects nor starts anew, each rebuild is paid for
by a failure. -/
theorem within_takes (hs : Sound a) (htakes : Takes a input b) (h : Within n p a)
    (hnew : ∀ msg, input = .internal (.ws msg) → sessionOf msg ≠ some p)
    (hconnects : ∀ epoch, input = .internal (.state p epoch .connected) →
      a.linkEpochCurrent p epoch = false)
    (hset : ∀ q epoch, input = .internal (.rebuild q epoch) →
      ∃ delay, (q, epoch, delay) ∈ a.timers) :
    Within (n + rebuiltFor p input a b) p b := by
  cases htakes with
  | goes hgoes hidle =>
    have hnone : rebuiltFor p input a b = 0 := by
      unfold rebuiltFor
      split
      · rw [hidle _ _ rfl, Nat.sub_self, ite_self]
      · rfl
    rw [hnone]
    exact h.paces hs (hgoes.paces p)
  | resets hq hresets =>
    refine h.paces hs (hresets.others p ?_)
    rintro rfl
    exact hnew _ rfl hq
  | @connected q epoch b' hcurrent hgoes =>
    have hp : p ≠ q := by
      rintro rfl
      rw [hconnects epoch rfl] at hcurrent
      cases hcurrent
    have hwithin := h.paces hs (hgoes.paces p)
    refine hwithin.paces (hgoes.sound hs) ⟨Function.update_of_ne hp _ _, fun _ ht _ => ht,
      Nat.le_refl _, fun peer hpeer => .inl (holds_iff.2 ⟨peer, hpeer, rfl⟩)⟩
  | failed _ hgoes _ => exact within_handlePeerFailure (h.paces hs (hgoes.paces p))
  | @rebuilt q epoch rtc hcurrent hclosed =>
    obtain ⟨delay, ht⟩ := hset q epoch rfl
    have hgoes := goes_initiatePeer rtc a (hs.timed _ ht).1
    by_cases hq : q = p
    · subst hq
      have hone : rebuiltFor q (.internal (.rebuild q epoch)) a (a.initiatePeer rtc q) ≤ 1 := by
        have hoffers := offersTo_initiatePeer rtc a q q
        simp only [rebuiltFor, if_true]
        omega
      refine (h.rebuild hs ⟨_, ht, rfl, linkEpochCurrent_holds hcurrent⟩ (hgoes.paces q).counts
        (timers_initiatePeer rtc a q) (renewed_initiatePeer rtc a q hclosed)).fewer ?_
      omega
    · simp only [rebuiltFor, if_neg hq]
      exact h.paces hs (hgoes.paces p)

theorem within_zero_takes (hw : Good w) (harrives : Arrives w input)
    (htakes : Takes w.game.actor input b) : Within 0 p b := by
  have hset : ∀ q epoch, input = .internal (.rebuild q epoch) →
      ∃ delay, (q, epoch, delay) ∈ w.game.actor.timers := by
    rintro q epoch rfl
    exact harrives
  by_cases hnew : ∃ msg, input = .internal (.ws msg) ∧ sessionOf msg = some p
  · obtain ⟨msg, rfl, hp⟩ := hnew
    cases htakes with
    | goes hgoes => exact (hw.within p).paces hw.sound (hgoes.paces p)
    | resets hq hresets =>
      rw [hp, Option.some.injEq] at hq
      subst hq
      rcases hresets.own with hpaces | hrenewed
      · exact (hw.within p).paces hw.sound hpaces
      · exact within_of_not_armed (not_armed_renewed hw.sound hresets.timers hrenewed)
  by_cases hconnects : ∃ epoch, input = .internal (.state p epoch .connected) ∧
      w.game.actor.linkEpochCurrent p epoch = true
  · obtain ⟨epoch, rfl, hcurrent⟩ := hconnects
    have hnot := not_armed_connected hw harrives hcurrent
    cases htakes with
    | goes hgoes => exact (hw.within p).paces hw.sound (hgoes.paces p)
    | @connected _ _ b' _ hgoes =>
      refine within_of_not_armed fun harmed => hnot (armed_of_paces hw.sound (hgoes.paces p) ?_)
      obtain ⟨t, ht, htp, hheld⟩ := harmed
      exact ⟨t, ht, htp, hheld⟩
  · refine (within_takes hw.sound htakes (hw.within p) (fun msg heq hp => hnew ⟨msg, heq, hp⟩)
      (fun epoch heq => ?_) hset).fewer (Nat.zero_le _)
    by_contra hcurrent
    exact hconnects ⟨epoch, heq, by simpa using hcurrent⟩

theorem goes_initial (rtc : Rtc Sdp) (a : Actor Sdp) (targets : List PlayerId)
    (h : ∀ p ∈ targets, a.selfId < p) :
    Goes a (targets.foldl (fun a p => a.initiatePeer rtc p) a) := by
  induction targets generalizing a with
  | nil => exact .refl a
  | cons p rest ih =>
    have hgoes := goes_initiatePeer rtc a (h p List.mem_cons_self)
    refine hgoes.trans (ih _ fun q hq => ?_)
    rw [hgoes.self]
    exact h q (List.mem_cons_of_mem _ hq)

theorem good_start (rtc : Rtc Sdp) (storagePath : Option String) (joined : JoinedMsg) :
    Good ⟨Game.start rtc storagePath joined, fun _ => false, []⟩ := by
  have hnew : Sound (Actor.new storagePath joined : Actor Sdp) := by
    refine ⟨fun _ _ h => (Option.some_ne_none _ h.symm).elim, fun _ h => absurd rfl h,
      fun _ _ h => (Option.some_ne_none _ h.symm).elim, fun _ h => absurd h List.not_mem_nil,
      fun _ _ h => absurd h List.not_mem_nil⟩
  have hgoes := goes_initial rtc (Actor.new storagePath joined : Actor Sdp) (initialTargets _)
    fun p hp => by
      simp only [initialTargets, List.mem_map, List.mem_filter, Bool.and_eq_true,
        decide_eq_true_eq] at hp
      obtain ⟨slot, ⟨-, -, hlt⟩, rfl⟩ := hp
      exact hlt
  have htimers : ∀ t ∈ (Game.start rtc storagePath joined).actor.timers, False := fun t ht =>
    absurd ((hgoes.paces t.1).timers t ht rfl) List.not_mem_nil
  refine ⟨hgoes.sound hnew, fun t ht => (htimers t ht).elim, fun p => within_of_not_armed ?_⟩
  rintro ⟨t, ht, -⟩
  exact htimers t ht

theorem good_take (hw : Good w) (harrives : Arrives w input) : Good (w.take rtc input) := by
  have htakes := takes_take rtc w.game input
  refine ⟨sound_takes hw.sound htakes ?_, fun t ht => ?_, fun p =>
    within_zero_takes hw harrives htakes⟩
  · rintro q epoch rfl
    obtain ⟨delay, ht⟩ := harrives
    exact ⟨_, ht, rfl⟩
  · rcases timers_takes htakes ht with hold | ⟨q, rfl⟩
    · exact failed_take (hw.told t hold)
    · exact Function.update_self ..

theorem good_run {ls : List (Rtc Sdp × Input Sdp)} (run : Run (system Sdp) ls w) : Good w := by
  apply run.invariant Good
  · rintro _ ⟨rtc, storagePath, joined, rfl⟩
    exact good_start rtc storagePath joined
  · rintro w l _ hw ⟨harrives, rfl⟩
    exact good_take hw harrives

theorem count_rebuilt (rtc : Rtc Sdp) (w : World Sdp) (input : Input Sdp) (p : PlayerId) :
    (w.take rtc input).rebuilt.count p = w.rebuilt.count p +
      rebuiltFor p input w.game.actor (w.game.take rtc input).actor := by
  simp only [World.take, rebuiltFor]
  split
  · rw [List.count_append, List.count_replicate]
    simp only [beq_iff_eq]
  · rfl

/-- Between two sessions or connections of a player, its rebuilds are within the limit. -/
theorem rebuilt_steps {w' : World Sdp} {stretch : List (Rtc Sdp × Input Sdp)} (hw : Good w)
    (steps : Steps ((system Sdp).restrict (Calm p)) w stretch w') :
    w'.rebuilt.count p ≤ w.rebuilt.count p + maxPeerRebuilds := by
  have hinv := steps.invariant (fun w' => Good w' ∧ w.rebuilt.count p ≤ w'.rebuilt.count p ∧
    Within (w'.rebuilt.count p - w.rebuilt.count p) p w'.game.actor) ?_
    ⟨hw, Nat.le_refl _, by rw [Nat.sub_self]; exact hw.within p⟩
  · have hlimit := hinv.2.2.limit
    omega
  · rintro v ⟨rtc, input⟩ _ ⟨hv, hle, hwithin⟩ ⟨⟨hnew, hconnects⟩, harrives, rfl⟩
    have hcount := count_rebuilt rtc v input p
    have hgrows : w.rebuilt.count p ≤ (v.take rtc input).rebuilt.count p := by omega
    refine ⟨good_take hv harrives, hgrows, ?_⟩
    have hnext := within_takes hv.sound (takes_take rtc v.game input) hwithin hnew hconnects ?_
    · have heq : (v.take rtc input).rebuilt.count p - w.rebuilt.count p =
          v.rebuilt.count p - w.rebuilt.count p +
            rebuiltFor p input v.game.actor (v.game.take rtc input).actor := by
        rw [hcount]
        omega
      rw [← heq] at hnext
      exact hnext
    · rintro q epoch rfl
      exact harrives

def epochOf (p : PlayerId) : Internal Sdp → Option Nat
  | .ice q epoch _ | .state q epoch _ | .reliable q epoch _ _ | .bestEffort q epoch _
  | .pair q epoch _ _ | .rebuild q epoch => if q = p then some epoch else none
  | _ => none

theorem isClosed_stored (hs : Sound a) {peer : Peer} (hpeer : a.peers p = some peer) :
    a.isClosed peer.link.epoch = false := by
  unfold Actor.isClosed
  rw [hs.stored p peer hpeer]

theorem stale_input (hs : Sound a) (rtc : Rtc Sdp) {input : Internal Sdp} {epoch : Nat}
    (hinput : epochOf p input = some epoch) (hstale : a.linkEpochCurrent p epoch = false) :
    a.handleInternal rtc input = a := by
  unfold epochOf at hinput
  split at hinput
  case h_3 q _ data now =>
    split_ifs at hinput with hq
    cases hinput
    subst hq
    simp only [Actor.handleInternal, Actor.handleReliable]
    cases hpeer : a.peers q with
    | none => rfl
    | some peer =>
      simp only
      rw [if_pos]
      intro heq
      have hheld : a.holds q epoch = true := holds_iff.2 ⟨peer, hpeer, heq⟩
      rw [Actor.linkEpochCurrent, hheld, ← heq, isClosed_stored hs hpeer] at hstale
      cases hstale
  case h_7 => cases hinput
  all_goals
    split_ifs at hinput with hq
    cases hinput
    subst hq
    simp [Actor.handleInternal, Actor.handlePeerState, Actor.rebuilds, hstale]

/-- Offers go to higher players, timers rebuild a link only so often before it connects,
what belongs to a former link is ignored, and the stored links are open. -/
theorem offer_discipline {ls : List (Rtc Sdp × Input Sdp)} {w : World Sdp}
    (run : Run (system Sdp) ls w) :
    (∀ p sdp, .signal p (.offer sdp) ∈ w.game.actor.sent → w.game.actor.selfId < p) ∧
    (∀ p stretch w', Steps ((system Sdp).restrict (Calm p)) w stretch w' →
      w'.rebuilt.count p ≤ w.rebuilt.count p + maxPeerRebuilds) ∧
    (∀ rtc p epoch input, epochOf p input = some epoch →
      w.game.actor.linkEpochCurrent p epoch = false →
        w.game.actor.handleInternal rtc input = w.game.actor) ∧
    ∀ p peer, w.game.actor.peers p = some peer → w.game.actor.isClosed peer.link.epoch = false :=
  have hw := good_run run
  ⟨hw.sound.offered, fun _ _ _ steps => rebuilt_steps hw steps,
    fun rtc _ _ _ hinput hstale => stale_input hw.sound rtc hinput hstale,
    fun _ _ hpeer => isClosed_stored hw.sound hpeer⟩

def lucky : Rtc Unit where
  creates := fun _ => true
  offers := fun _ => true
  describes := fun _ => true
  parses := true
  answers := true
  failed := true
  takes := fun _ => true
  offerOf := fun _ => ()
  answerOf := fun _ _ => ()

/-- Player 0 of two, whose link to the other player fails. -/
def afterFailure : World Unit :=
  World.take lucky ⟨Game.start lucky none ⟨"ROOM", 0, 2, true, "token", [⟨0, true, true⟩,
    ⟨1, true, true⟩]⟩, fun _ => false, []⟩ (.internal (.state 1 1 .failed))

def afterRebuild : World Unit := afterFailure.take lucky (.internal (.rebuild 1 1))

theorem run_afterFailure :
    Run (system Unit) [(lucky, .internal (.state 1 1 .failed))] afterFailure := by
  have hstart : (system Unit).init ⟨Game.start lucky none ⟨"ROOM", 0, 2, true, "token",
    [⟨0, true, true⟩, ⟨1, true, true⟩]⟩, fun _ => false, []⟩ := ⟨lucky, none, _, rfl⟩
  refine Run.step (.init hstart) ⟨⟨⟨false, rfl⟩, fun h => ?_⟩, rfl⟩
  cases h

theorem timer_afterFailure : (1, 1, 1000) ∈ afterFailure.game.actor.timers :=
  List.mem_singleton_self _

theorem offer_discipline_rebuild : afterRebuild.rebuilt = [1] ∧
    afterRebuild.rebuilt.count 1 ≤ afterFailure.rebuilt.count 1 + maxPeerRebuilds := by
  refine ⟨rfl, (offer_discipline run_afterFailure).2.1 1
    [(lucky, .internal (.rebuild 1 1))] afterRebuild (.snoc .refl ?_)⟩
  refine ⟨⟨fun msg h => ?_, fun epoch h => ?_⟩, ⟨1000, timer_afterFailure⟩, rfl⟩
  · cases h
  · cases h

end Lobbylink.Client.Offers
