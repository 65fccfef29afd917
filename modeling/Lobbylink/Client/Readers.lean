import Lobbylink.Client.Story

/-! A story does not depend on how its reader holds what has not been put together yet: with
another reader of the same messages, a client goes through the same. -/
namespace Lobbylink.Client.Readers
open Protocol Roster Framing Story
open Native (PeerState Event)

variable {R R' Sdp : Type} {reader : Reader R} {reader' : Reader R'}

/-- What one reader holds is what the other holds, written another way. -/
structure Translates (reader : Reader R) (reader' : Reader R') (f : R → R') : Prop where
  empty : f reader.empty = reader'.empty
  take : ∀ r data now, reader'.take (f r) data now = (f (reader.take r data now).1,
    (reader.take r data now).2)

variable {f : R → R'}

def mapTie (f : R → R') (tie : Tie R) : Tie R' := ⟨tie.number, tie.initiator, f tie.held⟩

def mapped (f : R → R') (s : Session R) : Session R' where
  selfId := s.selfId
  maxPlayers := s.maxPlayers
  roster := s.roster
  started := s.started
  ties := fun p => (s.ties p).map (mapTie f)
  attempts := s.attempts
  failures := s.failures
  retries := s.retries
  ended := s.ended
  closed := s.closed
  keeps := s.keeps
  token := s.token
  told := s.told

theorem ties_update (f : R → R') (ties : PlayerId → Option (Tie R)) (p : PlayerId)
    (tie : Option (Tie R)) : (fun q => (Function.update ties p tie q).map (mapTie f)) =
      Function.update (fun q => (ties q).map (mapTie f)) p (tie.map (mapTie f)) :=
  Function.comp_update (Option.map (mapTie f)) ties p tie

theorem mapped_ite {c : Prop} [Decidable c] (s t : Session R) :
    mapped f (if c then s else t) = if c then mapped f s else mapped f t := apply_ite (mapped f) c s t

theorem mapped_tell (s : Session R) (e : Event) : mapped f (s.tell e) = (mapped f s).tell e := rfl

theorem mapped_drop (s : Session R) (p : PlayerId) : mapped f (s.drop p) = (mapped f s).drop p := by
  simp only [mapped, Session.drop, ties_update, Option.map_none]

theorem mapped_dropAll (s : Session R) : mapped f s.dropAll = (mapped f s).dropAll := rfl

theorem mapped_forget (s : Session R) : mapped f s.forget = (mapped f s).forget := by
  unfold Session.forget
  rw [mapped_ite]
  rfl

theorem mapped_renew (h : Translates reader reader' f) (s : Session R) (p : PlayerId)
    (initiator made : Bool) :
    mapped f (s.renew reader p initiator made) = (mapped f s).renew reader' p initiator made := by
  have htie : (if made then some ⟨s.attempts + 1, initiator, reader.empty⟩ else none :
      Option (Tie R)).map (mapTie f) =
        if made then some ⟨s.attempts + 1, initiator, reader'.empty⟩ else none := by
    rw [← h.empty]
    cases made <;> rfl
  simp only [mapped, Session.renew, ties_update, htie]

theorem mapped_meet (h : Translates reader reader' f) (s : Session R) (p : PlayerId) (made : Bool) :
    mapped f (s.meet reader p made) = (mapped f s).meet reader' p made := by
  have hdropped := mapped_drop (f := f) s p
  have hcleared : mapped f { s.drop p with failures := Function.update s.failures p none } =
      { (mapped f s).drop p with failures := Function.update (mapped f s).failures p none } := by
    rw [← hdropped]
    rfl
  unfold Session.meet
  simp only [mapped_ite, mapped_renew h, hcleared]
  rfl

theorem mapped_refuse (s : Session R) (code message : String) :
    mapped f (s.refuse code message) = (mapped f s).refuse code message := by
  unfold Session.refuse
  simp only [mapped_ite, mapped_tell, mapped_forget, mapped_dropAll]
  rfl

theorem mapped_hear (h : Translates reader reader' f) (s : Session R) (msg : ServerMessage Sdp)
    (makes : PlayerId → Bool) :
    mapped f (s.hear reader msg makes) = (mapped f s).hear reader' msg makes := by
  have hroster : mapped f { s with roster := updateRoster s.maxPlayers s.roster msg } =
      { mapped f s with roster := updateRoster s.maxPlayers s.roster msg } := rfl
  unfold Session.hear
  cases msg with
  | playerJoined | playerRejoined | playerReplaced => exact mapped_meet h _ _ _
  | playerLeft p reason => simp only [mapped_tell, mapped_ite, mapped_drop, hroster]; rfl
  | signal source payload =>
    cases payload with
    | offer sdp => simp only [mapped_ite, mapped_renew h, hroster]; rfl
    | answer | ice | unknown => rfl
  | error code message => exact mapped_refuse _ code message
  | roomStarted | joined | unknown => rfl

theorem tie_mapped (s : Session R) (p : PlayerId) (number : Nat) :
    (mapped f s).tie p number = (s.tie p number).map (mapTie f) := by
  show ((s.ties p).map (mapTie f)).filter _ = _
  rw [Option.filter_map]
  rfl

theorem mapped_fail (s : Session R) (p : PlayerId) (tie : Tie R) :
    mapped f (s.fail p tie) = (mapped f s).fail p (mapTie f tie) := by
  unfold Session.fail
  rw [mapped_ite]
  rfl

theorem mapped_report (s : Session R) (p : PlayerId) (number : Nat) (state : PeerState) :
    mapped f (s.report p number state) = (mapped f s).report p number state := by
  unfold Session.report
  rw [tie_mapped]
  cases s.tie p number with
  | none => rfl
  | some tie =>
    cases state with
    | failed => exact mapped_fail _ p tie
    | new | connecting | connected | disconnected | closed => rfl

theorem mapped_receive (h : Translates reader reader' f) (s : Session R) (p : PlayerId)
    (number : Nat) (data : Bytes) (now : Int) :
    mapped f (s.receive reader p number data now) =
      (mapped f s).receive reader' p number data now := by
  unfold Session.receive
  rw [tie_mapped]
  cases s.tie p number with
  | none => rfl
  | some tie =>
    have htake := h.take tie.held data now
    have hheld : mapped f { s with
        ties := Function.update s.ties p
          (some { tie with held := (reader.take tie.held data now).1 }) } = { mapped f s with
        ties := Function.update (mapped f s).ties p
          (some { mapTie f tie with held := (reader'.take (f tie.held) data now).1 }) } := by
      rw [htake]
      simp only [mapped, ties_update]
      rfl
    simp only [Option.map_some, mapTie] at hheld ⊢
    rw [← hheld, htake]
    cases (reader.take tie.held data now).2 <;> rfl

theorem mapped_begin (h : Translates reader reader' f) (s : Session R) (makes : PlayerId → Bool) :
    mapped f (s.begin reader makes) = (mapped f s).begin reader' makes := by
  have htargets : (mapped f s).targets = s.targets := rfl
  unfold Session.begin
  rw [htargets]
  generalize s.targets = targets
  induction targets generalizing s with
  | nil => rfl
  | cons p rest ih => rw [List.foldl_cons, List.foldl_cons, ih _ rfl, mapped_renew h]

theorem mapped_take (h : Translates reader reader' f) (s : Session R) (happening : Happening Sdp) :
    mapped f (s.take reader happening) = (mapped f s).take reader' happening := by
  unfold Session.take
  rw [mapped_ite]
  refine if_congr Iff.rfl rfl ?_
  cases happening with
  | begun makes => exact mapped_begin h s makes
  | message msg makes => exact mapped_hear h s msg makes
  | lost => exact mapped_ite _ _
  | state p number state => exact mapped_report s p number state
  | frame p number data now => exact mapped_receive h s p number data now
  | datagram | pair =>
    simp only [mapped_ite, tie_mapped, Option.isSome_map]
    rfl
  | retry p number failed makes =>
    unfold Session.retry
    simp only [mapped_ite, mapped_renew h, tie_mapped, Option.isSome_map]
    rfl
  | leave => exact mapped_forget _

theorem mapped_run (h : Translates reader reader' f) (s : Session R)
    (happenings : List (Happening Sdp)) :
    mapped f (s.run reader happenings) = (mapped f s).run reader' happenings := by
  induction happenings generalizing s with
  | nil => rfl
  | cons happening rest ih => exact (ih _).trans (congrArg (Session.run reader' · rest)
      (mapped_take h s happening))

def both (reader : Reader R) (reader' : Reader R') {sim : R → R' → Prop}
    (hempty : sim reader.empty reader'.empty)
    (htake : ∀ r r' data now, sim r r' → sim (reader.take r data now).1 (reader'.take r' data now).1 ∧
      (reader'.take r' data now).2 = (reader.take r data now).2) :
    Reader { x : R × R' // sim x.1 x.2 } where
  empty := ⟨(reader.empty, reader'.empty), hempty⟩
  take := fun x data now =>
    (⟨((reader.take x.1.1 data now).1, (reader'.take x.1.2 data now).1),
      (htake _ _ data now x.2).1⟩, (reader.take x.1.1 data now).2)

/-- Clients with readers that agree are the two sides of one client. -/
theorem run_both {sim : R → R' → Prop} (hempty : sim reader.empty reader'.empty)
    (htake : ∀ r r' data now, sim r r' → sim (reader.take r data now).1 (reader'.take r' data now).1 ∧
      (reader'.take r' data now).2 = (reader.take r data now).2)
    (joined : JoinedMsg) (keeps : Bool) (happenings : List (Happening Sdp)) :
    ∃ u : Session { x : R × R' // sim x.1 x.2 },
      (Session.new joined keeps).run reader happenings = mapped (fun x => x.1.1) u ∧
      (Session.new joined keeps).run reader' happenings = mapped (fun x => x.1.2) u := by
  let sides := both reader reader' hempty htake
  have hleft : Translates sides reader fun x => x.1.1 := ⟨rfl, fun _ _ _ => rfl⟩
  have hright : Translates sides reader' fun x => x.1.2 :=
    ⟨rfl, fun x data now => Prod.ext rfl (htake _ _ data now x.2).2⟩
  exact ⟨(Session.new joined keeps).run sides happenings,
    (mapped_run hleft (Session.new joined keeps) happenings).symm,
    (mapped_run hright (Session.new joined keeps) happenings).symm⟩

end Lobbylink.Client.Readers
