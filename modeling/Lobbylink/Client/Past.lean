import Lobbylink.Client.Telling

/-! What a client has behind it. A link that is gone does not come back, a connection is lost
once and not after it was closed by the server, and a link that fails is not tried for ever. -/
namespace Lobbylink.Client.Past
open Protocol Roster Framing Story
open Native (PeerState Event Actor Game Rtc Input Internal)

variable {R Sdp : Type} (reader : Reader R) {s t : Session R}

/-- A link of the second session is new, or the one that its player had in the first. -/
structure Moves (s t : Session R) : Prop where
  attempts : s.attempts ≤ t.attempts
  ties : ∀ p tie, t.ties p = some tie → s.attempts < tie.number ∧ tie.number ≤ t.attempts ∨
    ∃ old, s.ties p = some old ∧ old.number = tie.number

theorem Moves.refl (s : Session R) : Moves s s := ⟨Nat.le_refl _, fun _ tie h => .inr ⟨tie, h, rfl⟩⟩

theorem Moves.trans {u : Session R} (h : Moves s t) (h' : Moves t u) : Moves s u where
  attempts := Nat.le_trans h.attempts h'.attempts
  ties p tie hp := by
    have hle := h.attempts
    have hle' := h'.attempts
    rcases h'.ties p tie hp with ⟨hnew, hmax⟩ | ⟨old, hold, hnumber⟩
    · exact .inl ⟨by omega, hmax⟩
    · rcases h.ties p old hold with ⟨hnew, hmax⟩ | ⟨first, hfirst, hsame⟩
      · exact .inl ⟨by omega, by omega⟩
      · exact .inr ⟨first, hfirst, hsame.trans hnumber⟩

theorem Moves.same (hties : t.ties = s.ties) (hattempts : t.attempts = s.attempts) : Moves s t where
  attempts := Nat.le_of_eq hattempts.symm
  ties _ tie hp := .inr ⟨tie, hties ▸ hp, rfl⟩

theorem moves_drop (s : Session R) (p : PlayerId) : Moves s (s.drop p) where
  attempts := Nat.le_refl _
  ties q tie hq := by
    by_cases hqp : q = p
    · subst hqp
      simp [Session.drop] at hq
    · exact .inr ⟨tie, (Function.update_of_ne hqp ..).symm.trans hq, rfl⟩

theorem moves_dropAll (s : Session R) : Moves s s.dropAll := ⟨Nat.le_refl _, nofun⟩

theorem moves_forget (s : Session R) : Moves s s.forget := by
  unfold Session.forget
  split_ifs
  · exact .same rfl rfl
  · exact .refl s

theorem moves_renew (s : Session R) (p : PlayerId) (initiator made : Bool) :
    Moves s (s.renew reader p initiator made) where
  attempts := Nat.le_succ _
  ties q tie hq := by
    by_cases hqp : q = p
    · subst hqp
      have hnew : Function.update s.ties q
        (if made then some ⟨s.attempts + 1, initiator, reader.empty⟩ else none) q = some tie := hq
      rw [Function.update_self] at hnew
      split_ifs at hnew
      obtain rfl := Option.some.inj hnew
      exact .inl ⟨Nat.lt_succ_self _, Nat.le_refl _⟩
    · exact .inr ⟨tie, (Function.update_of_ne hqp ..).symm.trans hq, rfl⟩

theorem moves_meet (s : Session R) (p : PlayerId) (made : Bool) : Moves s (s.meet reader p made) := by
  have hdropped : Moves s { s.drop p with failures := Function.update s.failures p none } :=
    (moves_drop s p).trans (.same rfl rfl)
  unfold Session.meet
  simp only
  split_ifs
  · exact .refl s
  · exact hdropped.trans (moves_renew reader _ p true made)
  · exact hdropped

theorem moves_refuse (s : Session R) (code message : String) : Moves s (s.refuse code message) := by
  have hended : Moves s { s with ended := true } := .same rfl rfl
  have htold (s : Session R) (e : Event) : Moves s (s.tell e) := .same rfl rfl
  unfold Session.refuse
  simp only
  split_ifs
  · exact (hended.trans (moves_dropAll _)).trans (htold _ _)
  · exact ((hended.trans (moves_dropAll _)).trans (moves_forget _)).trans (htold _ _)
  · exact hended.trans (htold _ _)
  · exact htold _ _

theorem moves_hear (s : Session R) (msg : ServerMessage Sdp) (makes : PlayerId → Bool) :
    Moves s (s.hear reader msg makes) := by
  have hroster : Moves s { s with roster := updateRoster s.maxPlayers s.roster msg } := .same rfl rfl
  have hmet (s : Session R) (e : Event) (p : PlayerId) :
      Moves s ((s.tell e).meet reader p (makes p)) :=
    Moves.trans (t := s.tell e) (.same rfl rfl) (moves_meet reader (s.tell e) p (makes p))
  unfold Session.hear
  cases msg with
  | playerJoined p players | playerRejoined p was | playerReplaced p =>
    exact hroster.trans (hmet _ _ p)
  | playerLeft p reason =>
    simp only
    split_ifs
    · exact (hroster.trans (moves_drop _ p)).trans (.same rfl rfl)
    · exact hroster.trans (.same rfl rfl)
  | signal source payload =>
    cases payload with
    | offer sdp =>
      simp only
      split_ifs
      · exact hroster
      · exact hroster.trans (moves_renew reader _ source false _)
    | answer | ice | unknown => exact hroster
  | error code message => exact hroster.trans (moves_refuse _ code message)
  | roomStarted | joined | unknown => exact hroster.trans (.same rfl rfl)

theorem moves_report (s : Session R) (p : PlayerId) (number : Nat) (state : PeerState) :
    Moves s (s.report p number state) := by
  unfold Session.report
  split
  · exact .refl s
  · cases state with
    | failed =>
      simp only [Session.fail]
      split_ifs <;> exact .same rfl rfl
    | new | connecting | connected | disconnected | closed => exact .same rfl rfl

theorem moves_receive (s : Session R) (p : PlayerId) (number : Nat) (data : Bytes) (now : Int) :
    Moves s (s.receive reader p number data now) := by
  unfold Session.receive
  split
  · exact .refl s
  · next tie htie =>
    have hheld : Moves s { s with
        ties := Function.update s.ties p (some { tie with held := (reader.take tie.held data now).1 }) } := by
      refine ⟨Nat.le_refl _, fun q new hq => ?_⟩
      by_cases hqp : q = p
      · subst hqp
        simp only [Function.update_self, Option.some.injEq] at hq
        subst hq
        exact .inr ⟨tie, (Option.filter_eq_some_iff.1 htie).1, rfl⟩
      · exact .inr ⟨new, (Function.update_of_ne hqp ..).symm.trans hq, rfl⟩
    simp only
    split
    · exact hheld
    · exact hheld.trans (.same rfl rfl)

theorem moves_begin (s : Session R) (makes : PlayerId → Bool) : Moves s (s.begin reader makes) := by
  unfold Session.begin
  generalize s.targets = targets
  induction targets generalizing s with
  | nil => exact .refl s
  | cons p rest ih => exact (moves_renew reader s p true (makes p)).trans (ih _)

theorem moves_take (s : Session R) (happening : Happening Sdp) :
    Moves s (s.take reader happening) := by
  unfold Session.take
  by_cases hclosed : s.closed = true
  · rw [if_pos hclosed]
    exact .refl s
  rw [if_neg hclosed]
  cases happening with
  | begun makes => exact moves_begin reader s makes
  | message msg makes => exact moves_hear reader s msg makes
  | lost =>
    simp only
    split_ifs
    · exact .refl s
    · exact .same rfl rfl
  | state p number state => exact moves_report s p number state
  | frame p number data now => exact moves_receive reader s p number data now
  | datagram | pair =>
    simp only
    split_ifs
    · exact .same rfl rfl
    · exact .refl s
  | retry p number failed makes =>
    unfold Session.retry
    simp only
    split_ifs
    · exact moves_renew reader s p true _
    · exact .refl s
  | leave =>
    have hclosed : Moves s { s with closed := true } := .same rfl rfl
    exact (hclosed.trans (moves_dropAll _)).trans (moves_forget _)

theorem moves_run (s : Session R) (happenings : List (Happening Sdp)) :
    Moves s (s.run reader happenings) := by
  induction happenings generalizing s with
  | nil => exact .refl s
  | cons happening rest ih => exact (moves_take reader s happening).trans (ih _)

/-- The player's link with a number that has been given out is gone, and stays so. -/
theorem gone_of_moves (h : Moves s t) {p : PlayerId} {number : Nat} (hnumber : number ≤ s.attempts)
    (hgone : s.tie p number = none) : t.tie p number = none := by
  refine Option.eq_none_iff_forall_ne_some.2 fun tie htie => ?_
  obtain ⟨hp, hsame⟩ := Option.filter_eq_some_iff.1 htie
  have hsame : tie.number = number := of_decide_eq_true hsame
  rcases h.ties p tie hp with ⟨hnew, -⟩ | ⟨old, hold, holds⟩
  · omega
  · have hstill : s.tie p number = some old :=
      Option.filter_eq_some_iff.2 ⟨hold, decide_eq_true (holds.trans hsame)⟩
    exact absurd (hgone.symm.trans hstill) nofun

inductive ByLink (p : PlayerId) (number : Nat) : Happening Sdp → Prop where
  | state (state : PeerState) : ByLink p number (.state p number state)
  | frame (data : Bytes) (now : Int) : ByLink p number (.frame p number data now)
  | datagram (data : Bytes) : ByLink p number (.datagram p number data)
  | pair (localType remoteType : String) : ByLink p number (.pair p number localType remoteType)
  | retry (failed : Bool) (makes : PlayerId → Bool) : ByLink p number (.retry p number failed makes)

theorem take_gone {p : PlayerId} {number : Nat} (hgone : s.tie p number = none)
    {happening : Happening Sdp} (h : ByLink p number happening) : s.take reader happening = s := by
  unfold Session.take
  by_cases hclosed : s.closed = true
  · rw [if_pos hclosed]
  rw [if_neg hclosed]
  cases h with
  | state => simp only [Session.report, hgone]
  | frame => simp only [Session.receive, hgone]
  | datagram | pair => simp [hgone]
  | retry => simp [Session.retry, hgone]

def isClosing : Event → Bool
  | .signalingClosed .. => true
  | _ => false

def isLost : Event → Bool
  | .signalingClosed code _ => code = "connection-lost"
  | _ => false

/-- Neither the user is told anything, nor a link tried again. -/
structure Calm (s t : Session R) : Prop where
  told : t.told = s.told
  ended : t.ended = s.ended
  retries : t.retries = s.retries
  failures : t.failures = s.failures

theorem Calm.refl (s : Session R) : Calm s s := ⟨rfl, rfl, rfl, rfl⟩

theorem Calm.trans {u : Session R} (h : Calm s t) (h' : Calm t u) : Calm s u :=
  ⟨h'.told.trans h.told, h'.ended.trans h.ended, h'.retries.trans h.retries,
    h'.failures.trans h.failures⟩

theorem calm_forget (s : Session R) : Calm s s.forget := by
  unfold Session.forget
  split_ifs <;> exact ⟨rfl, rfl, rfl, rfl⟩

theorem calm_begin (s : Session R) (makes : PlayerId → Bool) : Calm s (s.begin reader makes) := by
  unfold Session.begin
  generalize s.targets = targets
  induction targets generalizing s with
  | nil => exact .refl s
  | cons p rest ih => exact Calm.trans (t := s.renew reader p true (makes p)) ⟨rfl, rfl, rfl, rfl⟩ (ih _)

theorem meet_eq (s : Session R) (p : PlayerId) (made : Bool) :
    (s.meet reader p made).told = s.told ∧ (s.meet reader p made).ended = s.ended ∧
      (s.meet reader p made).retries = s.retries ∧
      ∀ q, q ≠ p → (s.meet reader p made).failures q = s.failures q := by
  unfold Session.meet
  split_ifs
  · exact ⟨rfl, rfl, rfl, fun _ _ => rfl⟩
  · simp only
    split_ifs
    · exact ⟨rfl, rfl, rfl, fun q hq => Function.update_of_ne hq ..⟩
    · exact ⟨rfl, rfl, rfl, fun q hq => Function.update_of_ne hq ..⟩

/-- At most one event is told. One of the end of the connection is told at its end, and the
loss of the connection not after that. -/
structure Utters (s t : Session R) : Prop where
  ended : s.ended = true → t.ended = true
  told : t.told = s.told ∨ ∃ e, t.told = s.told ++ [e] ∧ (isClosing e = true → t.ended = true) ∧
    (isLost e = true → s.ended = false)

theorem Calm.utters (h : Calm s t) : Utters s t := ⟨fun hs => h.ended.trans hs, .inl h.told⟩

theorem Utters.after {u : Session R} (h : Utters t u) (htold : t.told = s.told)
    (hended : t.ended = s.ended) : Utters s u where
  ended hs := h.ended (hended.trans hs)
  told := by
    rw [← htold, ← hended]
    exact h.told

theorem Utters.before {u : Session R} (h : Utters s t) (htold : u.told = t.told)
    (hended : u.ended = t.ended) : Utters s u where
  ended hs := hended.trans (h.ended hs)
  told := by
    rw [htold, hended]
    exact h.told

theorem utters_tell (s : Session R) {e : Event} (he : isClosing e = false) : Utters s (s.tell e) where
  ended hs := hs
  told := .inr ⟨e, rfl, fun h => absurd (he.symm.trans h) nofun, fun h => by
    cases e with
    | signalingClosed code message => cases he
    | _ => cases h⟩

theorem utters_refuse (s : Session R) (code message : String) : Utters s (s.refuse code message) := by
  have hfatal (hcode : isFatalCode code = true) {t : Session R} (htold : t.told = s.told)
      (hended : t.ended = true) : Utters s (t.tell (.signalingClosed code message)) := by
    refine ⟨fun _ => hended, .inr ⟨_, congrArg (· ++ _) htold, fun _ => hended, fun hlost => ?_⟩⟩
    obtain rfl : code = "connection-lost" := of_decide_eq_true hlost
    exact absurd hcode (by decide)
  have hforgot := calm_forget ({ s with ended := true } : Session R).dropAll
  unfold Session.refuse
  simp only
  split_ifs with hcode
  · exact hfatal hcode rfl rfl
  · exact hfatal hcode hforgot.told hforgot.ended
  · exact hfatal hcode rfl rfl
  · exact utters_tell s rfl

theorem utters_hear (s : Session R) (msg : ServerMessage Sdp) (makes : PlayerId → Bool) :
    Utters s (s.hear reader msg makes) := by
  have hmet (s : Session R) {e : Event} (he : isClosing e = false) (p : PlayerId) :
      Utters s ((s.tell e).meet reader p (makes p)) :=
    have hmeet := meet_eq reader (s.tell e) p (makes p)
    (utters_tell s he).before hmeet.1 hmeet.2.1
  unfold Session.hear
  cases msg with
  | playerJoined p players | playerRejoined p was | playerReplaced p =>
    exact (hmet _ rfl p).after rfl rfl
  | playerLeft p reason =>
    simp only
    split_ifs <;> exact (utters_tell _ rfl).after rfl rfl
  | signal source payload =>
    cases payload with
    | offer sdp =>
      simp only
      split_ifs <;> exact Calm.utters ⟨rfl, rfl, rfl, rfl⟩
    | answer | ice | unknown => exact Calm.utters ⟨rfl, rfl, rfl, rfl⟩
  | error code message => exact (utters_refuse _ code message).after rfl rfl
  | roomStarted => exact (utters_tell _ rfl).after rfl rfl
  | joined | unknown => exact Calm.utters ⟨rfl, rfl, rfl, rfl⟩

theorem utters_take (s : Session R) (happening : Happening Sdp) : Utters s (s.take reader happening) := by
  unfold Session.take
  by_cases hclosed : s.closed = true
  · rw [if_pos hclosed]
    exact (Calm.refl s).utters
  rw [if_neg hclosed]
  cases happening with
  | begun makes => exact (calm_begin reader s makes).utters
  | message msg makes => exact utters_hear reader s msg makes
  | lost =>
    simp only
    split_ifs with hended
    · exact (Calm.refl s).utters
    · exact ⟨fun _ => rfl, .inr ⟨_, rfl, fun _ => rfl, fun _ => Bool.eq_false_iff.2 hended⟩⟩
  | state p number state =>
    simp only [Session.report]
    split
    · exact (Calm.refl s).utters
    · cases state with
      | failed =>
        simp only [Session.fail]
        split_ifs <;> exact (utters_tell s rfl).before rfl rfl
      | new | connecting | connected | disconnected | closed => exact (utters_tell s rfl).before rfl rfl
  | frame p number data now =>
    simp only [Session.receive]
    split
    · exact (Calm.refl s).utters
    · split
      · exact Calm.utters ⟨rfl, rfl, rfl, rfl⟩
      · exact (utters_tell _ rfl).after rfl rfl
  | datagram | pair =>
    simp only
    split_ifs
    · exact utters_tell s rfl
    · exact (Calm.refl s).utters
  | retry p number failed makes =>
    unfold Session.retry
    simp only
    split_ifs <;> exact Calm.utters ⟨rfl, rfl, rfl, rfl⟩
  | leave => exact ((calm_forget ({ s with closed := true } : Session R).dropAll).utters).after rfl rfl

/-- Before the loss of the connection no event is of its end, and it is lost once. -/
structure Told (s : Session R) : Prop where
  ended : ∀ e ∈ s.told, isClosing e = true → s.ended = true
  lost : ∀ before after e, s.told = before ++ e :: after → isLost e = true →
    ∀ e' ∈ before, isClosing e' = false

theorem Told.after (h : Told s) (huttered : Utters s t) : Told t := by
  rcases huttered.told with hsame | ⟨e, htold, hclosing, hlost⟩
  · exact ⟨fun e he hc => huttered.ended (h.ended e (hsame ▸ he) hc), fun before after e he =>
      h.lost before after e (hsame ▸ he)⟩
  · refine ⟨fun e' he' hc => ?_, fun before after e' he' hl => ?_⟩
    · rcases List.mem_append.1 (htold ▸ he') with hold | hnew
      · exact huttered.ended (h.ended e' hold hc)
      · rw [List.mem_singleton.1 hnew] at hc
        exact hclosing hc
    · rw [htold] at he'
      rcases List.eq_nil_or_concat after with rfl | ⟨rest, last, rfl⟩
      · obtain ⟨rfl, hlast⟩ := List.append_inj' he' rfl
        obtain rfl := List.singleton_inj.1 hlast
        intro e' hmem
        by_contra hc
        have hended := h.ended e' hmem (by simpa using hc)
        exact absurd ((hlost hl).symm.trans hended) nofun
      · refine h.lost before rest e' ?_ hl
        rw [List.concat_eq_append, ← List.cons_append, ← List.append_assoc] at he'
        exact (List.append_inj' he' rfl).1

theorem told_run {s : Session R} (h : Told s) (happenings : List (Happening Sdp)) :
    Told (s.run reader happenings) := by
  induction happenings generalizing s with
  | nil => exact h
  | cons happening rest ih => exact ih (h.after (utters_take reader s happening))

/-- A new session of the player, or a link to it that works. -/
def resets (p : PlayerId) : Happening Sdp → Bool
  | .message (.playerJoined q _) _ | .message (.playerRejoined q _) _
  | .message (.playerReplaced q) _ | .state q _ .connected => q = p
  | _ => false

def tries (s : Session R) (p : PlayerId) : Nat := s.retries.countP fun r => r.1 = p

def fails (s : Session R) (p : PlayerId) : Nat := min ((s.failures p).getD 0) Native.maxPeerRebuilds

theorem tries_fail (s : Session R) (q : PlayerId) (tie : Tie R) (p : PlayerId) :
    tries (s.fail q tie) p + fails s p ≤ tries s p + fails (s.fail q tie) p := by
  unfold Session.fail
  split_ifs with hinitiator
  · have hmax : Native.maxPeerRebuilds = 3 := rfl
    simp only [tries, fails, List.countP_append, Function.update_apply]
    by_cases hq : p = q
    · subst hq
      by_cases hmany : (s.failures p).getD 0 + 1 ≤ Native.maxPeerRebuilds
      · rw [if_pos hmany, if_pos rfl]
        simp only [List.countP_cons, List.countP_nil, decide_true, if_true, Option.getD_some]
        omega
      · rw [if_neg hmany, if_pos rfl]
        simp only [List.countP_nil, Option.getD_some]
        omega
    · rw [if_neg hq]
      by_cases hmany : (s.failures q).getD 0 + 1 ≤ Native.maxPeerRebuilds
      · rw [if_pos hmany]
        simp [Ne.symm hq]
      · rw [if_neg hmany]
        simp
  · exact Nat.le_refl _

theorem fails_le (s : Session R) (p : PlayerId) : fails s p ≤ Native.maxPeerRebuilds :=
  Nat.min_le_right ..

theorem tries_of_eq {p : PlayerId} {reset : Bool} (hretries : t.retries = s.retries)
    (hfailures : reset = false → t.failures p = s.failures p) :
    tries t p + (if reset then 0 else fails s p) ≤ tries s p + fails t p := by
  unfold tries fails
  rw [hretries]
  cases reset with
  | true => exact Nat.add_le_add_left (Nat.zero_le _) _
  | false =>
    rw [hfailures rfl]
    exact Nat.le_refl _

theorem hear_tries (s : Session R) (msg : ServerMessage Sdp) (makes : PlayerId → Bool) :
    (s.hear reader msg makes).retries = s.retries ∧
      ∀ p, resets p (.message msg makes) = false →
        (s.hear reader msg makes).failures p = s.failures p := by
  have hmet (s : Session R) (q : PlayerId) : (s.meet reader q (makes q)).retries = s.retries ∧
      ∀ p, decide (q = p) = false → (s.meet reader q (makes q)).failures p = s.failures p := by
    obtain ⟨-, -, hretries, hothers⟩ := meet_eq reader s q (makes q)
    exact ⟨hretries, fun p hp => hothers p (Ne.symm (of_decide_eq_false hp))⟩
  unfold Session.hear
  cases msg with
  | playerJoined q players | playerRejoined q was | playerReplaced q => exact hmet (Session.tell _ _) q
  | playerLeft q reason =>
    simp only
    split_ifs <;> exact ⟨rfl, fun _ _ => rfl⟩
  | signal source payload =>
    cases payload with
    | offer sdp =>
      simp only
      split_ifs <;> exact ⟨rfl, fun _ _ => rfl⟩
    | answer | ice | unknown => exact ⟨rfl, fun _ _ => rfl⟩
  | error code message =>
    have hforgot := calm_forget ({ s with ended := true } : Session R).dropAll
    simp only [Session.refuse]
    split_ifs
    · exact ⟨rfl, fun _ _ => rfl⟩
    · exact ⟨hforgot.retries, fun p _ => congrFun hforgot.failures p⟩
    · exact ⟨rfl, fun _ _ => rfl⟩
    · exact ⟨rfl, fun _ _ => rfl⟩
  | roomStarted | joined | unknown => exact ⟨rfl, fun _ _ => rfl⟩

theorem tries_report (s : Session R) (q : PlayerId) (number : Nat) (state : PeerState) (p : PlayerId) :
    tries (s.report q number state) p +
        (if resets p (.state q number state : Happening Sdp) then 0 else fails s p) ≤
      tries s p + fails (s.report q number state) p := by
  unfold Session.report
  cases s.tie q number with
  | none => exact tries_of_eq rfl fun _ => rfl
  | some tie =>
    cases state with
    | failed => exact tries_fail (s.tell _) q tie p
    | connected =>
      exact tries_of_eq rfl fun h => Function.update_of_ne (Ne.symm (of_decide_eq_false h)) ..
    | new | connecting | disconnected | closed => exact Nat.le_refl _

theorem tries_take (s : Session R) (happening : Happening Sdp) (p : PlayerId) :
    tries (s.take reader happening) p + (if resets p happening then 0 else fails s p) ≤
      tries s p + fails (s.take reader happening) p := by
  unfold Session.take
  by_cases hclosed : s.closed = true
  · rw [if_pos hclosed]
    exact tries_of_eq rfl fun _ => rfl
  rw [if_neg hclosed]
  cases happening with
  | begun makes =>
    have hbegun := calm_begin reader s makes
    exact tries_of_eq hbegun.retries fun _ => congrFun hbegun.failures p
  | message msg makes =>
    obtain ⟨hretries, hfailures⟩ := hear_tries reader s msg makes
    exact tries_of_eq hretries (hfailures p)
  | state q number state => exact tries_report s q number state p
  | frame q number data now =>
    have hread : (s.receive reader q number data now).retries = s.retries ∧
        (s.receive reader q number data now).failures = s.failures := by
      unfold Session.receive
      split
      · exact ⟨rfl, rfl⟩
      · simp only
        split <;> exact ⟨rfl, rfl⟩
    exact tries_of_eq hread.1 fun _ => congrFun hread.2 p
  | lost =>
    simp only
    by_cases hended : s.ended = true
    · rw [if_pos hended]
      exact tries_of_eq rfl fun _ => rfl
    · rw [if_neg hended]
      exact tries_of_eq rfl fun _ => rfl
  | datagram q number data | pair q number =>
    simp only
    by_cases hlive : (s.tie q number).isSome = true
    · rw [if_pos hlive]
      exact tries_of_eq rfl fun _ => rfl
    · rw [if_neg hlive]
      exact tries_of_eq rfl fun _ => rfl
  | retry q number failed makes =>
    have hretried : (s.retry reader q number failed (makes q)).retries = s.retries ∧
        (s.retry reader q number failed (makes q)).failures = s.failures := by
      unfold Session.retry
      split_ifs <;> exact ⟨rfl, rfl⟩
    exact tries_of_eq hretried.1 fun _ => congrFun hretried.2 p
  | leave =>
    have hforgot := calm_forget ({ s with closed := true } : Session R).dropAll
    exact tries_of_eq hforgot.retries fun _ => congrFun hforgot.failures p

theorem tries_run (s : Session R) (happenings : List (Happening Sdp)) (p : PlayerId) :
    tries (s.run reader happenings) p + fails s p ≤ tries s p +
      Native.maxPeerRebuilds * happenings.countP (resets p) + fails (s.run reader happenings) p := by
  induction happenings generalizing s with
  | nil => exact Nat.le_refl _
  | cons happening rest ih =>
    have hstep := tries_take reader s happening p
    have hrest := ih (s.take reader happening)
    have hmax := fails_le s p
    have hcons : s.run reader (happening :: rest) = (s.take reader happening).run reader rest := rfl
    rw [hcons, List.countP_cons, Nat.mul_add]
    split_ifs at hstep ⊢ with hreset
    · omega
    · omega

/-- A client tries a player's link so often at most, for each time that this starts anew. -/
theorem tries_new (joined : JoinedMsg) (keeps : Bool) (happenings : List (Happening Sdp))
    (p : PlayerId) : tries ((Session.new joined keeps : Session R).run reader happenings) p ≤
      Native.maxPeerRebuilds * (1 + happenings.countP (resets p)) := by
  have hrun := tries_run reader (Session.new joined keeps) happenings p
  have hmax := fails_le ((Session.new joined keeps : Session R).run reader happenings) p
  have hstart : tries (Session.new joined keeps : Session R) p = 0 := rfl
  rw [Nat.mul_add]
  omega

end Lobbylink.Client.Past
