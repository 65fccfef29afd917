import Lobbylink.Lib.Marked
import Lobbylink.System.Negotiation

/-! A client with its two queues. The answers that have come down are for the offer
the client waits with, and each step of the client keeps it so. -/
namespace Lobbylink.System.Exchange
open Client.Protocol Client.Native Server.Lobby Signaling Negotiation Lib.Marked

def isNotice (p : PlayerId) (m : ServerMessage Desc) : Bool := noticeOf m == some p

/-- A notice of a new client of `p` is under way. -/
def noticed (p : PlayerId) (msgs : List (ServerMessage Desc)) : Bool := msgs.any (isNotice p)

/-- The offers of `p` that its present client has made. -/
def latest (p : PlayerId) (msgs : List (ServerMessage Desc)) : List LinkId :=
  sinceLast (isNotice p) (downFrom p offerOf) msgs

/-- The answers that a new client of `p` has made, its notice being under way. -/
def late (p : PlayerId) (msgs : List (ServerMessage Desc)) : List Desc :=
  pastFirst (isNotice p) (downFrom p answerOf) msgs

def offered (answers : List Desc) : List LinkId := answers.map Desc.offered

def Player.status (c : Conn) (k : Player) (p : PlayerId) : Status :=
  match k.game with
  | none => .idle
  | some g => Negotiation.status c g p

structure Own (c : Conn) (k : Player) : Prop where
  unstarted : k.game = none → k.up = []
  flushed : ∀ g, k.game = some g → g.actor.sent = []
  self : ∀ g, k.game = some g → g.actor.selfId = k.session.playerID
  joined : ∀ joined, .joined joined ∈ k.down → joined.selfId = k.session.playerID
  made : ∀ p, ∀ d ∈ answersUp p k.up, ∃ epoch offer, d = .answer ⟨c, epoch⟩ offer

/-- The answers of `p` that have come down are for the offer the client waits with. -/
structure Awaits (c : Conn) (p : PlayerId) (k : Player) : Prop where
  single : Single (Player.status c k p) (offered (answersDown p k.down))
  timely : late p k.down = []

/-- A step of a client that takes the message `head` or, without one, something else. -/
inductive Heeds (c : Conn) (p : PlayerId) (head : Option (ServerMessage Desc)) (k k' : Player)
    (new : List (ClientMessage Desc)) : Prop where
  | kept : Player.status c k' p = Player.status c k p → offersUp p new = [] →
      answersUp p new = [] → Heeds c p head k k' new
  | gone : Player.status c k' p = .gone → offersUp p new = [] → answersUp p new = [] →
      Heeds c p head k k' new
  | settled (sdp : Desc) : head = some (.signal p (.answer sdp)) →
      Player.status c k' p = .idle → offersUp p new = [] → answersUp p new = [] →
      Heeds c p head k k' new
  | renewed : (∃ msg, head = some msg ∧ noticeOf msg = some p) ∨ Player.status c k p = .idle →
      Single (Player.status c k' p) (offersUp p new) → answersUp p new = [] →
      Heeds c p head k k' new
  | answered (sdp : Desc) : head = some (.signal p (.offer sdp)) → p < k.session.playerID →
      offersUp p new = [] →
      (answersUp p new = [] ∨ ∃ epoch, answersUp p new = [.answer ⟨c, epoch⟩ sdp.link]) →
      Heeds c p head k k' new

/-- The client `k` becomes `k'`. -/
structure Acts (c : Conn) (head : Option (ServerMessage Desc)) (k k' : Player)
    (new : List (ClientMessage Desc)) : Prop where
  session : k'.session = k.session
  up : k'.up = k.up ++ new
  down : k.down = head.toList ++ k'.down
  started : k'.game = none → k.game = none ∧ new = []
  flushed : ∀ g, k'.game = some g → g.actor.sent = []
  self : ∀ g, k'.game = some g → g.actor.selfId = k.session.playerID
  heeds : ∀ p, Heeds c p head k k' new

theorem status_rebuilds {c : Conn} {rtc : Rtc Desc} {g : Game Desc} {p : PlayerId} {epoch : Nat}
    (hrun : g.running = true) (h : g.actor.rebuilds rtc p epoch = true)
    (hwaits : waits g p = false) : status c g p = .idle := by
  have hcurrent : g.actor.linkEpochCurrent p epoch = true := by
    simp only [Actor.rebuilds, Bool.and_eq_true] at h
    exact h.1.1.2
  unfold Actor.linkEpochCurrent Actor.holds at hcurrent
  unfold waits at hwaits
  unfold status linkTo
  rw [if_pos hrun]
  cases hp : g.actor.peers p with
  | none => simp [hp] at hcurrent
  | some peer =>
    rw [hp] at hwaits
    exact if_neg (by simpa using hwaits)

theorem acts_take {c : Conn} {rtc : Rtc Desc} {k k' : Player} {g : Game Desc}
    {input : Input Desc} {head : Option (ServerMessage Desc)} (hown : Own c k)
    (hg : k.game = some g) (hrun : g.running = true) (hsession : k'.session = k.session)
    (hup : k'.up = k.up ++ (g.take (named rtc c) input).actor.sent)
    (hgame : k'.game = some { g.take (named rtc c) input with
      actor := { (g.take (named rtc c) input).actor with sent := [] } })
    (hdown : k.down = head.toList ++ k'.down)
    (hhead : ∀ msg, input = .internal (.ws msg) → head = some msg)
    (hrebuild : ∀ p epoch, input = .internal (.rebuild p epoch) →
      g.actor.rebuilds (named rtc c) p epoch = true → waits g p = false) :
    Acts c head k k' (g.take (named rtc c) input).actor.sent := by
  have hturn := fun p => take_turn c rtc p input hrun (hown.flushed g hg)
  have hstatus : ∀ p, Player.status c k p = status c g p := fun p => by
    simp only [Player.status, hg]
  have hstatus' : ∀ p, Player.status c k' p = status c (g.take (named rtc c) input) p :=
    fun p => by
      simp only [Player.status, hgame]
      rfl
  refine ⟨hsession, hup, hdown, fun h => ?_, fun g' h => ?_, fun g' h => ?_, fun p => ?_⟩
  · rw [hgame] at h
    cases h
  · rw [hgame] at h
    cases h
    rfl
  · rw [hgame] at h
    cases h
    exact (hturn 0).self.trans (hown.self g hg)
  · cases (hturn p).course with
    | kept hst ho ha => exact .kept (by rw [hstatus', hstatus, hst]) ho ha
    | gone hst ho ha => exact .gone (by rw [hstatus', hst]) ho ha
    | settled sdp hin hst ho ha =>
      exact .settled sdp (hhead _ hin) (by rw [hstatus', hst]) ho ha
    | renewed hrenews hsingle ha =>
      refine .renewed ?_ (by rwa [hstatus']) ha
      cases input with
      | cmd | cmdsEnded => exact hrenews.elim
      | internal input =>
        cases input with
        | ws msg => exact .inl ⟨msg, hhead msg rfl, hrenews⟩
        | rebuild q epoch =>
          obtain ⟨rfl, hrebuilds⟩ := hrenews
          refine .inr ((hstatus q).trans (status_rebuilds hrun hrebuilds ?_))
          exact hrebuild q epoch rfl hrebuilds
        | _ => exact hrenews.elim
    | answered sdp hin hlt ho ha =>
      exact .answered sdp (hhead _ hin) (by rwa [hown.self g hg] at hlt) ho ha

theorem acts_receive {c : Conn} {rtc : Rtc Desc} {k k' : Player} (hown : Own c k)
    (h : k.receive (named rtc c) = some k') :
    ∃ head new, Acts c (some head) k k' new := by
  unfold Player.receive at h
  cases hdown : k.down with
  | nil => simp [hdown] at h
  | cons msg rest =>
    simp only [hdown] at h
    cases hg : k.game with
    | some g =>
      simp only [hg, Player.take] at h
      split_ifs at h with hrun
      cases h
      exact ⟨msg, _, acts_take hown hg hrun rfl rfl rfl hdown (fun _ h => by cases h; rfl)
        (fun _ _ h => by cases h)⟩
    | none =>
      simp only [hg] at h
      have hidle : ∀ p, Player.status c k p = .idle := fun p => by simp only [Player.status, hg]
      have hkeep : ∀ {k' : Player}, some ⟨k.session, none, k.up, rest⟩ = some k' →
          ∃ head new, Acts c (some head) k k' new := by
        rintro k' ⟨⟩
        exact ⟨msg, [], rfl, (List.append_nil _).symm, hdown, fun _ => ⟨hg, rfl⟩,
          (fun _ h => nomatch h), (fun _ h => nomatch h), fun p => .kept (hidle p).symm rfl rfl⟩
      cases msg with
      | joined joined =>
        cases h
        have hstart := fun p => start_turn c rtc p joined
        have hself := hown.joined joined (by rw [hdown]; exact List.mem_cons_self)
        refine ⟨_, _, rfl, rfl, hdown, fun h => (Option.some_ne_none _ h).elim, ?_, ?_,
          fun p => ?_⟩
        · rintro g ⟨⟩
          rfl
        · rintro g ⟨⟩
          exact (hstart 0).1.trans hself
        · exact .renewed (.inr (hidle p)) (hstart p).2.1 (hstart p).2.2
      | _ => exact hkeep h

theorem acts_input {c : Conn} {rtc : Rtc Desc} {k k' : Player} {input : Input Desc}
    (hown : Own c k) (hws : ∀ msg, input ≠ .internal (.ws msg))
    (h : k.take (named rtc c) input = some k')
    (hrebuild : ∀ g p epoch, k.game = some g → input = .internal (.rebuild p epoch) →
      g.actor.rebuilds (named rtc c) p epoch = true → waits g p = false) :
    ∃ new, Acts c none k k' new := by
  unfold Player.take at h
  cases hg : k.game with
  | none => simp [hg] at h
  | some g =>
    simp only [hg] at h
    split_ifs at h with hrun
    cases h
    exact ⟨_, acts_take hown hg hrun rfl rfl rfl rfl (fun msg h => absurd h (hws msg))
      fun p epoch => hrebuild g p epoch hg⟩

theorem hear_nil (k : Player) : k.hear [] = k := by
  unfold Player.hear
  rw [List.append_nil]

theorem offersUp_append (p : PlayerId) (a b : List (ClientMessage Desc)) :
    offersUp p (a ++ b) = offersUp p a ++ offersUp p b := List.filterMap_append

theorem answersUp_append (p : PlayerId) (a b : List (ClientMessage Desc)) :
    answersUp p (a ++ b) = answersUp p a ++ answersUp p b := List.filterMap_append

theorem answersDown_append (p : PlayerId) (a b : List (ServerMessage Desc)) :
    answersDown p (a ++ b) = answersDown p a ++ answersDown p b := List.filterMap_append

theorem offersDown_append (p : PlayerId) (a b : List (ServerMessage Desc)) :
    offersDown p (a ++ b) = offersDown p a ++ offersDown p b := List.filterMap_append

theorem noticed_append (p : PlayerId) (a b : List (ServerMessage Desc)) :
    noticed p (a ++ b) = (noticed p a || noticed p b) := List.any_append

theorem offered_append (a b : List Desc) : offered (a ++ b) = offered a ++ offered b :=
  List.map_append

section
variable {c : Conn} {head : Option (ServerMessage Desc)} {k k' : Player}
  {new : List (ClientMessage Desc)} {p : PlayerId}

theorem Acts.answersDown_sublist (h : Acts c head k k' new) (p : PlayerId) :
    (answersDown p k'.down).Sublist (answersDown p k.down) := by
  rw [h.down, answersDown_append]
  exact List.sublist_append_right _ _

theorem Acts.timely (h : Acts c head k k' new) (hlate : late p k.down = []) :
    late p k'.down = [] := by
  rw [h.down] at hlate
  cases head with
  | none => exact hlate
  | some m => exact pastFirst_tail hlate

/-- Past a notice nothing counts. -/
theorem Acts.past_notice (h : Acts c head k k' new) (hlate : late p k.down = [])
    {m : ServerMessage Desc} (hm : head = some m) (hn : noticeOf m = some p) :
    answersDown p k'.down = [] := by
  rw [h.down, hm] at hlate
  have hmark : isNotice p m = true := by simpa [isNotice] using hn
  exact (if_pos hmark).symm.trans hlate

theorem Acts.own (h : Acts c head k k' new) (hown : Own c k) : Own c k' where
  unstarted := by
    intro hg
    rw [h.up, hown.unstarted (h.started hg).1, (h.started hg).2]
    rfl
  flushed := h.flushed
  self := by
    intro g hg
    rw [h.session]
    exact h.self g hg
  joined := by
    intro joined hj
    rw [h.session]
    refine hown.joined joined ?_
    rw [h.down]
    exact List.mem_append_right _ hj
  made := by
    intro p d hd
    rw [h.up, answersUp_append] at hd
    rcases List.mem_append.1 hd with hd | hd
    · exact hown.made p d hd
    · cases h.heeds p with
      | kept _ _ ha | gone _ _ ha | settled _ _ _ _ ha | renewed _ _ ha => simp [ha] at hd
      | answered sdp _ _ _ ha =>
        rcases ha with ha | ⟨epoch, ha⟩
        · simp [ha] at hd
        · rw [ha] at hd
          exact ⟨epoch, sdp.link, List.mem_singleton.1 hd⟩

theorem Acts.awaits (h : Acts c head k k' new) (hwait : Awaits c p k)
    (hlt : k.session.playerID < p) : Awaits c p k' where
  timely := h.timely hwait.timely
  single := by
    have hsub := hwait.single.sublist ((h.answersDown_sublist p).map Desc.offered)
    cases h.heeds p with
    | kept hst => rwa [hst]
    | gone hst =>
      rw [hst]
      exact hsub.toGone
    | settled sdp hhead hst =>
      have hsingle := hwait.single
      rw [h.down, hhead] at hsingle
      have hhere : offered (answersDown p ((some (.signal p (.answer sdp))).toList ++ k'.down)) =
          sdp.offered :: offered (answersDown p k'.down) := by
        simp [answersDown, downFrom, answerOf, offered]
      rw [hhere] at hsingle
      rw [hsingle.tail]
      exact .nil _
    | renewed hwhy =>
      have hnone : answersDown p k'.down = [] := by
        rcases hwhy with ⟨m, hm, hn⟩ | hidle
        · exact h.past_notice hwait.timely hm hn
        · rw [hidle] at hsub
          exact List.map_eq_nil_iff.1 hsub.idle
      rw [hnone]
      exact .nil _
    | answered sdp _ hother => exact absurd hother (Nat.not_lt.2 (Nat.le_of_lt hlt))

theorem Awaits.hear {msgs : List (ServerMessage Desc)} (h : Awaits c p k)
    (hanswers : answersDown p msgs = []) : Awaits c p (k.hear msgs) where
  single := by
    unfold Player.hear
    rw [answersDown_append, hanswers, List.append_nil]
    exact h.single
  timely := by
    unfold late Player.hear
    rw [pastFirst_append, show pastFirst _ _ k.down = [] from h.timely,
      show msgs.filterMap (downFrom p answerOf) = [] from hanswers, pastFirst_nil hanswers]
    exact ite_self _

end

/-- Messages that are no notice of `p` and in which `f` finds nothing of `p`. -/
structure Plain {α : Type} (p : PlayerId) (f : SignalPayload Desc → Option α)
    (msgs : List (ServerMessage Desc)) : Prop where
  noticed : noticed p msgs = false
  picks : msgs.filterMap (downFrom p f) = []

section
variable {α : Type} {f : SignalPayload Desc → Option α}

theorem Plain.nil (p : PlayerId) (f : SignalPayload Desc → Option α) : Plain p f [] := ⟨rfl, rfl⟩

theorem plain_signal {p q : PlayerId} {payload : SignalPayload Desc}
    (h : q ≠ p ∨ f payload = none) : Plain p f [.signal q payload] where
  noticed := by simp [noticed, isNotice, noticeOf]
  picks := by rcases h with h | h <;> simp [downFrom, h]

end

end Lobbylink.System.Exchange
