import Lobbylink.Server.Audience
import Lobbylink.Server.Signals

/-! Who hears that a slot has a new transport. Those who stay attached in the room
hear of it in the step it happens, and of no other; the new transport hears its
joined message and nobody's news. -/
namespace Lobbylink.Server.Handovers
open Protocol Lobby Registry Fanout Operations Effects Slots Announcements Audience Signals

/-- The player that a message reports a new transport of. -/
def noticeOf : Msg → Option Nat
  | .playerJoined id _ | .playerRejoined id _ | .playerReplaced id => some id
  | _ => none

theorem noticeOf_left {m : Msg} (h : IsLeft m) : noticeOf m = none := by
  obtain ⟨id, rfl⟩ := h
  rfl

variable {sha256 : String → TokenHash} {env : Env}

theorem acquired_notice {token : String} {id : Nat} {conn : Conn} {q r' : Room}
    {startedNow ok : Bool} {announced : Msg} {out : List Out} {d₁ d₂ : List Nat}
    (h : Acquired env token id conn q startedNow announced r' out ok d₁ d₂) :
    Says (fun m => noticeOf m = none ∨ m = announced) out := by
  obtain ⟨rest, rfl, hrest⟩ := h.first
  intro c m b hm
  rcases List.mem_cons.1 hm with heq | hm
  · cases heq
    exact .inl rfl
  · rcases hrest c m b hm with rfl | rfl | hleft
    · exact .inr rfl
    · exact .inl rfl
    · exact .inl (noticeOf_left hleft)

theorem does_notice {r r' : Room} {a : Act} {o : Outcome} {out : List Out}
    (h : Does sha256 env r a o r' out) :
    Says (fun m => ∀ j, noticeOf m = some j → o = .seated j) out := by
  have hsilent : ∀ {out : List Out}, Says IsLeft out →
      Says (fun m => ∀ j, noticeOf m = some j → o = .seated j) out := fun hs =>
    hs.mono fun m hleft j hj => by rw [noticeOf_left hleft] at hj; cases hj
  have hacquired : ∀ {token : String} {id : Nat} {conn : Conn} {q : Room} {startedNow ok : Bool}
      {announced : Msg} {out : List Out} {d₁ d₂ : List Nat},
      Acquired env token id conn q startedNow announced r' out ok d₁ d₂ →
      noticeOf announced = some id → o = .seated id →
      Says (fun m => ∀ j, noticeOf m = some j → o = .seated j) out := by
    intro token id conn q startedNow ok announced out d₁ d₂ hacq hid ho
    refine (acquired_notice hacq).mono ?_
    rintro m (hnone | rfl) j hj
    · rw [hnone] at hj
      cases hj
    · rw [ho, Option.some.inj (hid.symm.trans hj)]
  cases h with
  | stale | barred | rejected | touched | unsent => exact Says.nil _
  | relayed i conn dest c payload =>
    intro d m ok hm j hj
    cases List.mem_singleton.1 hm
    cases hj
  | overflowed i conn dest c payload out drops e hcur hne hc hsaid =>
    intro d m ok hm
    rcases List.mem_cons.1 hm with heq | hm
    · cases heq
      rintro j ⟨⟩
    rcases List.mem_cons.1 hm with heq | hm
    · cases heq
    · exact hsilent hsaid d m ok hm
  | freed i conn out drops e hcur hsaid =>
    refine hsaid.mono ?_
    rintro m (rfl | hleft) j hj
    · cases hj
    · rw [noticeOf_left hleft] at hj
      cases hj
  | detached i conn out drops e hcur hsaid => exact hsilent hsaid
  | resumed _ _ _ _ _ _ _ _ _ _ _ _ _ hacq =>
    exact (Silent.said (displaced_silent _ _ _) _).append (hacquired hacq rfl rfl)
  | occupied _ _ _ _ _ _ _ _ _ _ _ _ _ _ hacq => exact hacquired hacq rfl rfl
  | replaced _ _ _ _ _ _ _ _ _ _ _ _ _ hacq =>
    exact (Silent.said (displaced_silent _ _ _) _).append (hacquired hacq rfl rfl)

theorem does_seated_conn {r r' : Room} {a : Act} {j : Nat} {out : List Out}
    (h : Does sha256 env r a (.seated j) r' out) {d : Conn} (hd : (r'.slot j).conn = some d) :
    joining a = some d := by
  have hconn : ∀ {token : String} {conn : Conn} {q : Room} {startedNow ok : Bool}
      {announced : Msg} {out : List Out} {d₁ d₂ : List Nat},
      Acquired env token j conn q startedNow announced r' out ok d₁ d₂ →
      (q.slot j).conn = some conn → conn = d := by
    intro token conn q startedNow ok announced out d₁ d₂ hacq hq
    rw [hacq.room, slot_emptyAt] at hd
    exact Option.some.inj (hq.symm.trans (conn_detachAll.1 hd).2)
  cases h with
  | stale _ _ _ _ _ _ ho => rcases ho with ho | ho <;> cases ho
  | resumed _ _ token conn _ _ _ _ _ _ _ hfind _ hacq =>
    rw [← hconn hacq (by rw [slot_written (findToken_lt sha256 hfind).1, if_pos rfl]; rfl)]
    rfl
  | occupied _ _ token conn _ _ _ _ _ _ hlt _ _ hwhy hacq =>
    rw [← hconn hacq (by rw [slot_start, slot_written hlt, if_pos rfl]; rfl)]
    rcases hwhy with ⟨_, rfl, -⟩ | ⟨rfl, -⟩ <;> rfl
  | replaced _ token conn _ _ _ _ _ hocc _ _ _ _ hacq =>
    rw [← hconn hacq (by rw [slot_written (lt_of_occupied hocc), if_pos rfl]; rfl)]
    rfl

theorem does_seated_told {r r' : Room} {a : Act} {j : Nat} {out : List Out}
    (h : Does sha256 env r a (.seated j) r' out) (hd : Distinct r)
    (hfree : ∀ d, joining a = some d → ∀ k, (r.slot k).conn ≠ some d) {i : Nat} {c : Conn}
    (hc : (r'.slot i).conn = some c) (hij : i ≠ j) :
    ∃ m ∈ accepted c out, noticeOf m = some j := by
  have hnews : ∀ {token : String} {conn : Conn} {q : Room} {startedNow ok : Bool}
      {announced : Msg} {out : List Out} {d₁ d₂ : List Nat} {f : Slot → Slot},
      Acquired env token j conn q startedNow announced r' out ok d₁ d₂ → joining a = some conn →
      (∀ k, q.slot k = if k = j then f (r.slot j) else r.slot k) →
      (f (r.slot j)).conn = some conn → noticeOf announced = some j →
      ∃ m ∈ accepted c out, noticeOf m = some j := by
    intro token conn q startedNow ok announced out d₁ d₂ f hacq ha hq hf hnotice
    obtain ⟨-, ⟨rfl, -⟩ | ⟨-, -, hacc⟩⟩ :=
      acquired_heard hacq (distinct_taken hd (hfree conn ha) hq hf) hq hc
    · exact absurd rfl hij
    · exact ⟨announced, by rw [hacc]; exact List.mem_cons_self, hnotice⟩
  have happend : ∀ {before out : List Out}, (∃ m ∈ accepted c out, noticeOf m = some j) →
      ∃ m ∈ accepted c (before ++ out), noticeOf m = some j := by
    rintro before out ⟨m, hm, hj⟩
    exact ⟨m, by rw [accepted_append]; exact List.mem_append_right _ hm, hj⟩
  cases h with
  | stale _ _ _ _ _ _ ho => rcases ho with ho | ho <;> cases ho
  | resumed _ _ token conn _ _ _ _ _ _ _ hfind _ hacq =>
    exact happend (hnews hacq rfl (slot_written (findToken_lt sha256 hfind).1
      (Slot.resumed conn (sha256 token) env.now) env.now) rfl rfl)
  | occupied _ _ token conn _ _ _ _ _ _ hlt _ _ hwhy hacq =>
    have ha : joining a = some conn := by
      rcases hwhy with ⟨_, rfl, -⟩ | ⟨rfl, -⟩ <;> rfl
    exact hnews (f := fun _ => Slot.occupiedBy conn (sha256 token) env.now) hacq ha
      (fun k => by rw [slot_start]; exact slot_written hlt _ _ k) rfl rfl
  | replaced _ token conn _ _ _ _ _ hocc _ _ _ _ hacq =>
    exact happend (hnews hacq rfl (slot_written (lt_of_occupied hocc)
      (Slot.replaced conn (sha256 token) env.now) env.now) rfl rfl)

theorem told_notice {m : Manager} {op : Op} {res : Result} {ref i : Nat} {c : Conn}
    (h : Reached sha256 env m op res ref i c) {msg : Msg} (hm : msg ∈ accepted c res.out) {j : Nat}
    (hj : noticeOf msg = some j) {d : Conn}
    (hd : ((res.manager.room ref).slot j).conn = some d) : opJoining op = some d := by
  cases h with
  | nothing _ _ hacc =>
    rw [hacc] at hm
    cases hm
  | heard r a o swept out hfound hop hdoes hans hhears hsil hres =>
    rw [hres, accepted_append, hsil.accepted, List.nil_append] at hm
    obtain rfl := accepted_said (does_notice hdoes) hm j hj
    rw [opJoining, hop]
    exact does_seated_conn hdoes hd

theorem notice_told {m : Manager} {op : Op} {res : Result} (h : Effect sha256 env m op res)
    (hp : Placed m) (hl : Loose m op) {ref i j : Nat} {c d : Conn}
    (hc : ((res.manager.room ref).slot i).conn = some c)
    (hd : ((res.manager.room ref).slot j).conn = some d) (hij : i ≠ j)
    (hnew : opJoining op = some d) : ∃ msg ∈ accepted c res.out, noticeOf msg = some j := by
  cases effect_reached h hp hl hc with
  | nothing heq _ _ =>
    rw [heq] at hd
    exact absurd hd (hl d hnew ref j)
  | heard r a o swept out hfound hop hdoes hans hhears hsil hres =>
    have hfree : ∀ e, joining a = some e → ∀ k, (r.slot k).conn ≠ some e := by
      intro e he k
      rw [found_slot hfound]
      exact loose_act hl hop e he ref k
    have hseat := slotStep_conn (does_slot hdoes j) hd
    rcases hseat with hold | ⟨-, rfl⟩
    · rw [opJoining, hop] at hnew
      exact absurd hold (hfree d hnew j)
    have hdist : Distinct r := by
      intro k k' e hk hk'
      rw [found_slot hfound] at hk hk'
      exact hp.distinct ref k k' e hk hk'
    obtain ⟨msg, hmsg, hj⟩ := does_seated_told hdoes hdist hfree hc hij
    refine ⟨msg, ?_, hj⟩
    rw [hres, accepted_append]
    exact List.mem_append_right _ hmsg

theorem newcomer_told {m : Manager} {op : Op} {res : Result} (h : Effect sha256 env m op res)
    (hp : Placed m) (hl : Loose m op) {ref i : Nat} {c : Conn}
    (hc : ((res.manager.room ref).slot i).conn = some c) (hnew : opJoining op = some c) :
    ∃ (msg : Joined) (ids : List Nat), msg.selfID = i ∧
      accepted c res.out = .joined msg :: ids.map leftMsg := by
  cases effect_reached h hp hl hc with
  | nothing _ hold _ => exact absurd hold (hl c hnew ref i)
  | heard r a o swept out hfound hop hdoes hans hhears hsil hres =>
    rw [hres, accepted_append, hsil.accepted, List.nil_append]
    rcases hhears.heard with ⟨hold, -⟩ | ⟨-, -, hgreet⟩
    · rw [found_slot hfound] at hold
      exact absurd hold (hl c hnew ref i)
    · generalize accepted c out = heard at hgreet
      cases hgreet with
      | joined q token now ids => exact ⟨_, ids, rfl, rfl⟩

/-- A joined message goes to the transport that asked, for the slot it gets. -/
theorem does_joined {r r' : Room} {a : Act} {o : Outcome} {out : List Out}
    (h : Does sha256 env r a o r' out) {c : Conn} {msg : Joined} {ok : Bool}
    (hm : .enqueue c (.joined msg) ok ∈ out) : o = .seated msg.selfID ∧ joining a = some c := by
  have hno : ∀ {out : List Out} {p : Msg → Prop}, Says p out → ¬p (.joined msg) →
      .enqueue c (.joined msg) ok ∉ out := fun hs hp hm => hp (hs c _ ok hm)
  have hleft : ¬IsLeft (.joined msg) := by
    rintro ⟨id, heq⟩
    cases heq
  have hacquired : ∀ {token : String} {id : Nat} {conn : Conn} {q : Room} {startedNow ok' : Bool}
      {announced : Msg} {out : List Out} {d₁ d₂ : List Nat},
      Acquired env token id conn q startedNow announced r' out ok' d₁ d₂ →
      noticeOf announced = some id → .enqueue c (.joined msg) ok ∈ out →
      id = msg.selfID ∧ conn = c := by
    intro token id conn q startedNow ok' announced out d₁ d₂ hacq hid hm
    obtain ⟨rest, rfl, hrest⟩ := hacq.first
    rcases List.mem_cons.1 hm with heq | hm
    · cases heq
      exact ⟨rfl, rfl⟩
    · refine absurd hm (hno hrest ?_)
      rintro (rfl | heq | h)
      · cases hid
      · cases heq
      · exact hleft h
  have hdisplaced : ∀ {old : Option Conn} {code : ErrCode} {text : String} {out : List Out},
      .enqueue c (.joined msg) ok ∈ displacedKick old code text ++ out →
      .enqueue c (.joined msg) ok ∈ out := by
    intro old code text out hm
    refine (List.mem_append.1 hm).resolve_left ?_
    exact hno (Silent.said (displaced_silent old code text) (fun _ => False)) id
  cases h with
  | stale | barred | rejected | touched | unsent => cases hm
  | relayed => cases List.mem_singleton.1 hm
  | overflowed i conn dest d payload out drops e hcur hne hc hsaid =>
    rcases List.mem_cons.1 hm with heq | hm
    · cases heq
    rcases List.mem_cons.1 hm with heq | hm
    · cases heq
    · exact absurd hm (hno hsaid hleft)
  | freed i conn out drops e hcur hsaid =>
    refine absurd hm (hno hsaid ?_)
    rintro (heq | h)
    · cases heq
    · exact hleft h
  | detached i conn out drops e hcur hsaid => exact absurd hm (hno hsaid hleft)
  | resumed _ _ _ _ _ _ _ _ _ _ _ _ _ hacq =>
    obtain ⟨rfl, rfl⟩ := hacquired hacq rfl (hdisplaced hm)
    exact ⟨rfl, rfl⟩
  | occupied _ _ _ _ _ _ _ _ _ _ _ _ _ hwhy hacq =>
    obtain ⟨rfl, rfl⟩ := hacquired hacq rfl hm
    refine ⟨rfl, ?_⟩
    rcases hwhy with ⟨_, rfl, -⟩ | ⟨rfl, -⟩ <;> rfl
  | replaced _ _ _ _ _ _ _ _ _ _ _ _ _ hacq =>
    obtain ⟨rfl, rfl⟩ := hacquired hacq rfl (hdisplaced hm)
    exact ⟨rfl, rfl⟩

theorem mem_accepted {c : Conn} {msg : Msg} {out : List Out} (h : msg ∈ accepted c out) :
    .enqueue c msg true ∈ out := by
  obtain ⟨o, ho, heq⟩ := List.mem_filterMap.1 h
  unfold acceptedBy at heq
  split at heq
  · split_ifs at heq with hd
    · cases heq
      rwa [← hd]
  · cases heq

theorem joined_told {m : Manager} {op : Op} {res : Result} (h : Effect sha256 env m op res)
    {c : Conn} {msg : Joined} (hm : .joined msg ∈ accepted c res.out) :
    opJoining op = some c ∧ ∃ ref, res.reply = .session (.ok ⟨ref, msg.selfID⟩) := by
  cases h with
  | declined m' out reply _ hswept =>
    rw [hswept.silent.accepted] at hm
    cases hm
  | reached ref a o r' out reply hreach hdoes hans =>
    obtain ⟨ho, hjoin⟩ := does_joined hdoes (mem_accepted hm)
    rw [opJoining, reaches_opAct hreach]
    exact ⟨hjoin, ref, (hans.seated _).2 ⟨ho, rfl⟩⟩
  | created m₁ swept a o r' out reply hmake hdoes hans =>
    cases hmake with
    | join appID code resumeToken opts conn m₀ _ hlook hswept =>
      rw [accepted_append, hswept.silent.accepted, List.nil_append] at hm
      obtain ⟨ho, hjoin⟩ := does_joined hdoes (mem_accepted hm)
      exact ⟨hjoin, _, (hans.seated ⟨_, _⟩).2 ⟨ho, rfl⟩⟩

end Lobbylink.Server.Handovers
