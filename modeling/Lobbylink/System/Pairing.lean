import Lobbylink.Server.Handovers
import Lobbylink.System.Exchange

/-! Which answers a client sets on its links. Between two players there is one offer
under negotiation at a time, and it is the offer of the link that waits for it, as
long as no offer or answer crosses the notice of a new client in its target's slot. -/
namespace Lobbylink.System.Pairing
open Client.Protocol Client.Native Server.Protocol Server.Lobby Server.Registry Server.Fanout
  Server.Effects Server.Slots Server.Audience Server.Signals Signaling Negotiation Exchange
  Lib.Runs Lib.Marked

/-- The offers of slot `a` that have come to slot `b`: not yet taken, or answered. -/
def held (a : PlayerId) (ky : Player) : List LinkId :=
  latest a ky.down ++ if noticed a ky.down then [] else offered (answersUp a ky.up)

/-- The offers of slot `a` that no answer is set for yet, wherever they are. -/
def pending (a b : PlayerId) (kx ky : Player) : List LinkId :=
  offersUp b kx.up ++ (held a ky ++ offered (answersDown b kx.down))

structure Paired (a b : PlayerId) (x : Conn) (kx ky : Player) : Prop where
  /-- a client that is news to `x` has been sent no offer -/
  unheard : noticed b kx.down = true → offersDown a ky.down = [] ∧ answersUp a ky.up = []
  unanswered : noticed a ky.down = true → answersDown b kx.down = []
  single : noticed b kx.down = false → Single (Player.status x kx b) (pending a b kx ky)

section
variable {a b : PlayerId} {x y : Conn} {kx kx' ky ky' : Player}
  {head : Option (ServerMessage Desc)} {new : List (ClientMessage Desc)}

theorem held_nil (hoffers : offersDown a ky.down = []) (hanswers : answersUp a ky.up = []) :
    held a ky = [] := by
  unfold held
  rw [hanswers, show latest a ky.down = [] from sinceLast_nil hoffers]
  exact ite_self _

theorem Paired.offerer (h : Paired a b x kx ky) (hacts : Exchange.Acts x head kx kx' new)
    (hwait : Awaits x b kx) (ha : kx.session.playerID < b)
    (horder : ∀ m, head = some m → noticeOf m = some b → offersUp b kx.up = []) :
    Paired a b x kx' ky := by
  have hseen : noticed b kx.down = ((head.map (isNotice b)).getD false || noticed b kx'.down) := by
    rw [hacts.down, noticed_append]
    cases head <;> simp [noticed]
  have hsub : (offered (answersDown b kx'.down)).Sublist (offered (answersDown b kx.down)) :=
    (hacts.answersDown_sublist b).map _
  refine ⟨fun hn => h.unheard (by rw [hseen, hn, Bool.or_true]), fun hn => ?_, fun hn => ?_⟩
  · have hnone := hacts.answersDown_sublist b
    rw [h.unanswered hn] at hnone
    exact List.sublist_nil.1 hnone
  unfold pending
  rw [hacts.up, offersUp_append]
  by_cases hnotice : ∃ m, head = some m ∧ noticeOf m = some b
  · obtain ⟨m, hm, hmb⟩ := hnotice
    have hseen : noticed b kx.down = true := by simp [hseen, hm, isNotice, hmb]
    obtain ⟨hoffers, hanswers⟩ := h.unheard hseen
    rw [horder m hm hmb, held_nil hoffers hanswers, hacts.past_notice hwait.timely hm hmb]
    simp only [List.nil_append, offered, List.map_nil, List.append_nil]
    cases hacts.heeds b with
    | kept _ ho | gone _ ho | settled _ _ _ ho =>
      rw [ho]
      exact .nil _
    | renewed _ hsingle => exact hsingle
    | answered _ _ hlt => exact absurd hlt (Nat.not_lt.2 (Nat.le_of_lt ha))
  · have hquiet : noticed b kx.down = false := by
      rw [hseen, hn, Bool.or_false]
      cases head with
      | none => rfl
      | some m => simpa [isNotice] using fun hm => hnotice ⟨m, rfl, hm⟩
    have hsingle := h.single hquiet
    have hless := hsingle.sublist ((hsub.append_left (held a ky)).append_left (offersUp b kx.up))
    cases hacts.heeds b with
    | kept hst ho => rwa [hst, ho, List.append_nil]
    | gone hst ho =>
      rw [hst, ho, List.append_nil]
      exact hless.toGone
    | settled sdp hhead hst ho =>
      have hdown : offered (answersDown b kx.down) =
          sdp.offered :: offered (answersDown b kx'.down) := by
        rw [hacts.down, hhead]
        simp [answersDown, downFrom, answerOf, offered]
      unfold pending at hsingle
      rw [hdown, ← List.append_assoc] at hsingle
      have hnone := (hsingle.subperm List.perm_middle.symm.subperm).tail
      rw [ho, List.append_nil, ← List.append_assoc, hnone]
      exact .nil _
    | renewed hwhy hnew =>
      rcases hwhy with hm | hidle
      · exact absurd hm hnotice
      rw [hidle] at hless
      have hnone := hless.idle
      simp only [List.append_eq_nil_iff] at hnone
      obtain ⟨hup, hheld, hdown⟩ := hnone
      rw [hup, hheld, hdown]
      simpa using hnew
    | answered _ _ hlt => exact absurd hlt (Nat.not_lt.2 (Nat.le_of_lt ha))

theorem held_acts (hacts : Exchange.Acts y head ky ky' new)
    (horder : ∀ m, head = some m → noticeOf m = some a → answersUp a ky.up = [])
    (hanswers : answersUp a new = [] ∨ ∃ sdp epoch,
      head = some (.signal a (.offer sdp)) ∧ answersUp a new = [.answer ⟨y, epoch⟩ sdp.link]) :
    (held a ky').Subperm (held a ky) := by
  have hdown := hacts.down
  unfold held
  rw [hacts.up, answersUp_append]
  cases head with
  | none =>
    have hnone : answersUp a new = [] := hanswers.resolve_right (by simp)
    rw [hnone, List.append_nil, show ky.down = ky'.down from hdown]
  | some m =>
    rw [show ky.down = m :: ky'.down from hdown]
    unfold latest
    rw [sinceLast_cons, show noticed a (m :: ky'.down) = (isNotice a m || noticed a ky'.down) from
      List.any_cons]
    by_cases hrest : noticed a ky'.down = true
    · rw [hrest, Bool.or_true, if_pos (show ky'.down.any (isNotice a) = true from hrest),
        if_pos rfl, if_pos rfl]
    have hrest' : noticed a ky'.down = false := by simpa using hrest
    rw [hrest', Bool.or_false, if_neg (show ¬ky'.down.any (isNotice a) = true from hrest)]
    by_cases hm : isNotice a m = true
    · have hma : noticeOf m = some a := by simpa [isNotice] using hm
      have hnone : answersUp a new = [] := by
        refine hanswers.resolve_right ?_
        rintro ⟨sdp, epoch, heq, -⟩
        cases heq
        cases hma
      rw [horder m rfl hma, hnone, if_pos hm, hm]
      exact List.Subperm.refl _
    · have hm' : isNotice a m = false := by simpa using hm
      rw [if_neg hm, hm']
      simp only [Bool.false_eq_true, if_false, List.append_assoc]
      rcases hanswers with hnone | ⟨sdp, epoch, heq, hone⟩
      · rw [hnone, List.append_nil]
        exact (List.sublist_append_right _ _).subperm
      · cases heq
        have hhere : (downFrom a offerOf (.signal a (.offer sdp))).toList = [sdp.link] := by
          simp [downFrom, offerOf]
        rw [hone, offered_append, hhere, ← List.append_assoc]
        exact (@List.perm_append_comm _ _ [sdp.link]).subperm

theorem Paired.answerer (h : Paired a b x kx ky) (hacts : Exchange.Acts y head ky ky' new)
    (horder : ∀ m, head = some m → noticeOf m = some a → answersUp a ky.up = []) :
    Paired a b x kx ky' := by
  -- an answer is to the offer just taken
  have hanswers : answersUp a new = [] ∨ ∃ sdp epoch,
      head = some (.signal a (.offer sdp)) ∧ answersUp a new = [.answer ⟨y, epoch⟩ sdp.link] := by
    cases hacts.heeds a with
    | kept _ _ ha | gone _ _ ha | settled _ _ _ _ ha | renewed _ _ ha => exact .inl ha
    | answered sdp hhead _ _ ha =>
      rcases ha with ha | ⟨epoch, ha⟩
      · exact .inl ha
      · exact .inr ⟨sdp, epoch, hhead, ha⟩
  refine ⟨fun hn => ?_, fun hn => h.unanswered ?_, fun hn => (h.single hn).subperm ?_⟩
  · obtain ⟨hnone, hunanswered⟩ := h.unheard hn
    rw [hacts.down, offersDown_append, List.append_eq_nil_iff] at hnone
    refine ⟨hnone.2, ?_⟩
    rw [hacts.up, answersUp_append, hunanswered, List.nil_append]
    refine hanswers.resolve_right ?_
    rintro ⟨sdp, epoch, rfl, -⟩
    simp [offersDown, downFrom, offerOf] at hnone
  · rw [hacts.down, noticed_append, hn, Bool.or_true]
  · exact (List.subperm_append_left _).2 ((List.subperm_append_right _).2
      (held_acts hacts horder hanswers))

variable {msgs msgs' : List (ServerMessage Desc)}

theorem held_hear (h : Plain a offerOf msgs) : held a (ky.hear msgs) = held a ky := by
  unfold held Player.hear latest
  rw [noticed_append, h.noticed, Bool.or_false, sinceLast_append,
    if_neg (by rw [show msgs.any (isNotice a) = false from h.noticed]; simp),
    sinceLast_nil h.picks, List.append_nil]

theorem Paired.hear (h : Paired a b x kx ky) (hx : Plain b answerOf msgs)
    (hy : Plain a offerOf msgs') :
    Paired a b x (kx.hear msgs) (ky.hear msgs') := by
  have hanswers : answersDown b (kx.hear msgs).down = answersDown b kx.down := by
    unfold Player.hear
    rw [answersDown_append, show answersDown b msgs = [] from hx.picks, List.append_nil]
  have hoffers : offersDown a (ky.hear msgs').down = offersDown a ky.down := by
    unfold Player.hear
    rw [offersDown_append, show offersDown a msgs' = [] from hy.picks, List.append_nil]
  have hseen : noticed b (kx.hear msgs).down = noticed b kx.down := by
    unfold Player.hear
    rw [noticed_append, hx.noticed, Bool.or_false]
  have hseen' : noticed a (ky.hear msgs').down = noticed a ky.down := by
    unfold Player.hear
    rw [noticed_append, hy.noticed, Bool.or_false]
  refine ⟨fun hn => ?_, fun hn => ?_, fun hn => ?_⟩
  · rw [hoffers]
    exact h.unheard (hseen ▸ hn)
  · rw [hanswers]
    exact h.unanswered (hseen' ▸ hn)
  · unfold pending
    rw [hanswers, held_hear hy]
    exact h.single (hseen ▸ hn)

theorem Paired.hear_offerer (h : Paired a b x kx ky) (hx : Plain b answerOf msgs) :
    Paired a b x (kx.hear msgs) ky := by
  have hheard := h.hear hx (.nil a offerOf)
  rwa [hear_nil] at hheard

theorem Paired.hear_answerer (h : Paired a b x kx ky) (hy : Plain a offerOf msgs) :
    Paired a b x kx (ky.hear msgs) := by
  have hheard := h.hear (.nil b answerOf) hy
  rwa [hear_nil] at hheard

theorem Paired.pop_offerer (h : Paired a b x kx ky) {msg : ClientMessage Desc}
    {rest : List (ClientMessage Desc)} (hup : kx.up = msg :: rest) :
    Paired a b x { kx with up := rest } ky := by
  refine ⟨h.unheard, h.unanswered, fun hn => (h.single hn).sublist ?_⟩
  unfold pending
  refine List.Sublist.append_right ?_ _
  rw [hup]
  exact (List.sublist_cons_self _ _).filterMap _

theorem Paired.pop_answerer (h : Paired a b x kx ky) {msg : ClientMessage Desc}
    {rest : List (ClientMessage Desc)} (hup : ky.up = msg :: rest) :
    Paired a b x kx { ky with up := rest } := by
  have hsub : (answersUp a rest).Sublist (answersUp a ky.up) := by
    rw [hup]
    exact (List.sublist_cons_self _ _).filterMap _
  refine ⟨fun hn => ⟨(h.unheard hn).1, ?_⟩, h.unanswered, fun hn => (h.single hn).sublist ?_⟩
  · rw [(h.unheard hn).2] at hsub
    exact List.sublist_nil.1 hsub
  · unfold pending held
    refine (List.Sublist.append_right (List.Sublist.append_left ?_ _) _).append_left _
    change (if noticed a ky.down = true then [] else offered (answersUp a rest)).Sublist _
    split_ifs
    · exact List.Sublist.refl _
    · exact hsub.map _

theorem paired_answerer_new (hx : noticed b msgs = true) (hold : ky.up = [])
    (hdown : ky.down = []) (hy : Plain a offerOf msgs') :
    Paired a b x (kx.hear msgs) (ky.hear msgs') := by
  have hseen : noticed b (kx.hear msgs).down = true := by
    unfold Player.hear
    rw [noticed_append, hx, Bool.or_true]
  refine ⟨fun _ => ⟨?_, ?_⟩, fun hn => ?_, fun hn => absurd (hseen.symm.trans hn) (by simp)⟩
  · unfold Player.hear
    rw [hdown]
    exact hy.picks
  · change answersUp a ky.up = []
    rw [hold]
    rfl
  · unfold Player.hear at hn
    rw [hdown] at hn
    exact absurd (hy.noticed.symm.trans hn) (by simp)

theorem paired_offerer_new (hold : kx.up = []) (hdown : kx.down = [])
    (hx : Plain b answerOf msgs) (hy : noticed a msgs' = true) (hoffers : offersDown a msgs' = []) :
    Paired a b x (kx.hear msgs) (ky.hear msgs') := by
  have hkx : (kx.hear msgs).down = msgs := by
    unfold Player.hear
    rw [hdown, List.nil_append]
  have hheld : held a (ky.hear msgs') = [] := by
    unfold held Player.hear latest
    rw [noticed_append, hy, Bool.or_true, if_pos rfl, sinceLast_append,
      if_pos (show msgs'.any (isNotice a) = true from hy), sinceLast_nil hoffers]
    rfl
  refine ⟨fun hn => ?_, fun _ => ?_, fun _ => ?_⟩
  · rw [hkx, hx.noticed] at hn
    cases hn
  · rw [hkx]
    exact hx.picks
  · unfold pending
    rw [hheld, hkx, show answersDown b msgs = [] from hx.picks,
      show offersUp b (kx.hear msgs).up = offersUp b kx.up from rfl, hold]
    exact .nil _

/-- An offer of the client in slot `a` comes to the one in slot `b`. -/
theorem Paired.relay_offer (h : Paired a b x kx ky) {sdp : Desc}
    {rest : List (ClientMessage Desc)} (hup : kx.up = .signal b (.offer sdp) :: rest)
    (horder : noticed b kx.down = false) :
    Paired a b x { kx with up := rest } (ky.hear [.signal a (.offer sdp)]) := by
  have hseen : noticed a (ky.hear [.signal a (.offer sdp)]).down = noticed a ky.down := by
    unfold Player.hear
    rw [noticed_append]
    simp [noticed, isNotice, noticeOf]
  have hlatest : latest a (ky.hear [.signal a (.offer sdp)]).down =
      latest a ky.down ++ [sdp.link] := by
    unfold latest Player.hear
    rw [sinceLast_append]
    simp [sinceLast, isNotice, noticeOf, downFrom, offerOf]
  refine ⟨fun hn => absurd (horder.symm.trans hn) (by simp), fun hn => h.unanswered (hseen ▸ hn),
    fun hn => (h.single hn).subperm ?_⟩
  have hup' : offersUp b kx.up = sdp.link :: offersUp b rest := by
    rw [hup]
    simp [offersUp, upTo, offerOf]
  unfold pending held
  rw [hseen, hlatest, hup']
  simp only [List.append_assoc, List.cons_append, List.nil_append]
  rw [← List.append_assoc, ← List.append_assoc (offersUp b rest)]
  exact List.perm_middle.subperm

theorem Paired.relay_answer (h : Paired a b x kx ky) {sdp : Desc}
    {rest : List (ClientMessage Desc)} (hup : ky.up = .signal a (.answer sdp) :: rest)
    (horder : noticed a ky.down = false) :
    Paired a b x (kx.hear [.signal b (.answer sdp)]) { ky with up := rest } := by
  have hup' : answersUp a ky.up = sdp :: answersUp a rest := by
    rw [hup]
    simp [answersUp, upTo, answerOf]
  have hseen : noticed b (kx.hear [.signal b (.answer sdp)]).down = noticed b kx.down := by
    unfold Player.hear
    rw [noticed_append]
    simp [noticed, isNotice, noticeOf]
  refine ⟨fun hn => ?_, fun hn => absurd (horder.symm.trans hn) (by simp), fun hn => ?_⟩
  · rw [hseen] at hn
    have := (h.unheard hn).2
    rw [hup'] at this
    cases this
  · rw [hseen] at hn
    refine (h.single hn).subperm ?_
    have hdown : offered (answersDown b (kx.hear [.signal b (.answer sdp)]).down) =
        offered (answersDown b kx.down) ++ [sdp.offered] := by
      unfold Player.hear
      rw [answersDown_append, offered_append]
      simp [answersDown, downFrom, answerOf, offered]
    unfold pending held
    rw [hdown, horder, hup']
    refine (List.subperm_append_left _).2 ?_
    simp only [Bool.false_eq_true, if_false, List.append_assoc, offered, List.map_cons,
      List.cons_append]
    refine (List.subperm_append_left _).2 ?_
    rw [← List.append_assoc]
    exact (@List.perm_append_comm _ _ [sdp.offered]).subperm

theorem Paired.awaits_answer (h : Paired a b x kx ky) (hwait : Awaits x b kx) {sdp : Desc}
    {rest : List (ClientMessage Desc)} (hup : ky.up = .signal a (.answer sdp) :: rest)
    (horder : noticed a ky.down = false) : Awaits x b (kx.hear [.signal b (.answer sdp)]) := by
  have hpair := h.relay_answer hup horder
  have hseen : noticed b kx.down = false := by
    by_contra hn
    have := (h.unheard (by simpa using hn)).2
    rw [hup] at this
    simp [answersUp, upTo, answerOf] at this
  constructor
  · refine (hpair.single ?_).sublist ?_
    · unfold Player.hear
      rw [noticed_append, hseen]
      simp [noticed, isNotice, noticeOf]
    · exact (List.sublist_append_right _ _).trans (List.sublist_append_right _ _)
  · unfold late Player.hear
    rw [pastFirst_append, show pastFirst _ _ kx.down = [] from hwait.timely,
      if_neg (show ¬kx.down.any (isNotice b) = true by
        rw [show kx.down.any (isNotice b) = false from hseen]; simp)]
    simp [pastFirst, isNotice, noticeOf]

end

end Lobbylink.System.Pairing
