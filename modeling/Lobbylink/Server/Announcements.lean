import Lobbylink.Server.Slots

/-! What the transports of a room hear of an operation, next to what it does to
the room. A transport that stays attached hears an announcement of every change
of the seats and of the start; a newly attached one hears its joined message. -/
namespace Lobbylink.Server.Announcements
open Protocol Lobby Registry Fanout Operations Effects Slots

/-- Whether a slot is occupied, and whether a transport is attached to it. -/
def Slot.seat (t : Slot) : Bool × Bool := (t.occupied, t.conn.isSome)

def seat (r : Room) (i : Nat) : Bool × Bool := Slot.seat (r.slot i)

/-- The seats of `f` without the transports of the slots in `ids`. -/
def without (f : Nat → Bool × Bool) (ids : List Nat) (i : Nat) : Bool × Bool :=
  if i ∈ ids then ((f i).1, false) else f i

theorem seat_detachAll (r : Room) (ids : List Nat) (i : Nat) :
    seat (detachAll r ids) i = without (seat r) ids i := by
  unfold seat without
  rw [slot_detachAll]
  split_ifs <;> rfl

def IsHanded (id : Nat) (msg : Msg) : Prop :=
  msg = .playerRejoined id false ∨ msg = .playerReplaced id

def IsSignal (msg : Msg) : Prop := ∃ source payload, msg = .signal source payload

/-- What a transport hears that stays attached while `r` becomes `r'`. A slot
can be handed to a transport that refuses its joined message: then `lost` holds
of the slot, and nobody hears that it is detached again. -/
inductive Announced (lost : Nat → Prop) (r r' : Room) : List Msg → Prop where
  | dropped (own : List Msg) (ids : List Nat) :
      (∀ m ∈ own, IsSignal m) → (∀ j, seat r' j = without (seat r) ids j) →
      r'.started = r.started → Announced lost r r' (own ++ ids.map leftMsg)
  | left (i : Nat) (ids : List Nat) :
      (∀ j, seat r' j = without (fun k => if k = i then (false, false) else seat r k) ids j) →
      r'.started = r.started → Announced lost r r' (.playerLeft i .explicit :: ids.map leftMsg)
  | handed (id : Nat) (ok : Bool) (ids : List Nat) (msg : Msg) :
      IsHanded id msg → id < r.slots.length → (ok = false → id ∉ ids ∧ lost id) →
      (∀ j, seat r' j =
        without (fun k => if k = id then (true, true) else seat r k) (refused ok id ++ ids) j) →
      r'.started = r.started → Announced lost r r' (msg :: ids.map leftMsg)
  | joined (id : Nat) (q : Room) (now : Time) (startedNow : Bool) (d₁ d₂ : List Nat) :
      q.slots.length = r.slots.length → (∀ j, seat r' j = without (seat q) (d₁ ++ d₂) j) →
      r'.started = (r.started || startedNow) → (startedNow = true → r.started = false) →
      (startedNow = false → d₂ = []) →
      Announced lost r r' (news (.playerJoined id (q.snapshot now)) startedNow d₁ d₂)

theorem Announced.mono {lost lost' : Nat → Prop} {r r' : Room} {msgs : List Msg}
    (h : Announced lost r r' msgs) (himp : ∀ id, lost id → lost' id) :
    Announced lost' r r' msgs := by
  cases h with
  | dropped own ids hown hseat hstart => exact .dropped own ids hown hseat hstart
  | left i ids hseat hstart => exact .left i ids hseat hstart
  | handed id ok ids msg hmsg hlt hids hseat hstart =>
    exact .handed id ok ids msg hmsg hlt (fun h => ⟨(hids h).1, himp _ (hids h).2⟩) hseat hstart
  | joined id q now startedNow d₁ d₂ hlen hseat hstart hnow hquiet =>
    exact .joined id q now startedNow d₁ d₂ hlen hseat hstart hnow hquiet

/-- What a transport hears that `r'` has attached. -/
inductive Greeted (i : Nat) (r' : Room) : List Msg → Prop where
  | joined (q : Room) (token : String) (now : Time) (ids : List Nat) :
      q.opts.maxPlayers = r'.slots.length → q.slots.length = r'.slots.length →
      (∀ j, seat r' j = without (seat q) ids j) → r'.started = q.started →
      Greeted i r' (buildJoined q i token now :: ids.map leftMsg)

variable {sha256 : String → TokenHash} {env : Env}

theorem without_append (f : Nat → Bool × Bool) (a b : List Nat) (i : Nat) :
    without (without f a) b i = without f (a ++ b) i := by
  unfold without
  by_cases ha : i ∈ a <;> by_cases hb : i ∈ b <;> simp [ha, hb]

theorem seat_refreshed (r : Room) (i j : Nat) (now : Time) :
    seat (refreshed r i now) j = seat r j := by
  unfold seat
  rw [slot_refreshed]
  split_ifs with h
  · rw [h.1]
    rfl
  · rfl

theorem seat_freed {r : Room} {i : Nat} (hlt : i < r.slots.length) (now : Time) (j : Nat) :
    seat (Operations.freed r i now) j = if j = i then (false, false) else seat r j := by
  unfold seat
  rw [slot_freed]
  by_cases h : j = i
  · rw [if_pos ⟨h, hlt⟩, if_pos h]
    rfl
  · rw [if_neg (fun hj => h hj.1), if_neg h]

theorem seat_taken {r q : Room} {id : Nat} {f : Slot → Slot}
    (hq : ∀ j, q.slot j = if j = id then f (r.slot id) else r.slot j)
    (hf : Slot.seat (f (r.slot id)) = (true, true)) (j : Nat) :
    seat q j = if j = id then (true, true) else seat r j := by
  unfold seat
  rw [hq]
  split_ifs
  · exact hf
  · rfl

theorem distinct_taken {r q : Room} {id : Nat} {conn : Conn} {f : Slot → Slot} (hd : Distinct r)
    (hfree : ∀ j, (r.slot j).conn ≠ some conn)
    (hq : ∀ j, q.slot j = if j = id then f (r.slot id) else r.slot j)
    (hf : (f (r.slot id)).conn = some conn) : Distinct q := by
  intro i j c hi hj
  rw [hq] at hi hj
  split_ifs at hi hj with h₁ h₂ h₂
  · rw [h₁, h₂]
  · rw [hf] at hi
    exact absurd (hi ▸ hj) (hfree j)
  · rw [hf] at hj
    exact absurd (hj ▸ hi) (hfree i)
  · exact hd i j c hi hj

/-- A transport attached after an acquisition. -/
theorem acquired_heard {token : String} {id : Nat} {conn : Conn} {r q r' : Room}
    {startedNow ok : Bool} {announced : Msg} {out : List Out} {d₁ d₂ : List Nat}
    {f : Slot → Slot} (hacq : Acquired env token id conn q startedNow announced r' out ok d₁ d₂)
    (hd : Distinct q) (hq : ∀ j, q.slot j = if j = id then f (r.slot id) else r.slot j)
    {i : Nat} {c : Conn} (hc : (r'.slot i).conn = some c) :
    kicks c out = [] ∧ (i = id ∧ ok = true ∧
        accepted c out = buildJoined q id token env.now :: (d₁ ++ d₂).map leftMsg ∨
      i ≠ id ∧ (r.slot i).conn = some c ∧ accepted c out = news announced startedNow d₁ d₂) := by
  rw [hacq.room, slot_emptyAt] at hc
  obtain ⟨hi, hc⟩ := conn_detachAll.1 hc
  obtain ⟨hacc, hkick⟩ := (hacq.heard hd).stays i c hi hc
  refine ⟨hkick, ?_⟩
  by_cases h : i = id
  · subst h
    rw [if_pos rfl] at hacc
    refine .inl ⟨rfl, ?_, hacc⟩
    cases ok
    · simp [refused] at hi
    · rfl
  · rw [if_neg h] at hacc
    rw [hq, if_neg h] at hc
    exact .inr ⟨h, hc, hacc⟩

theorem seat_acquired {token : String} {id : Nat} {conn : Conn} {q r' : Room}
    {startedNow ok : Bool} {announced : Msg} {out : List Out} {d₁ d₂ : List Nat}
    (hacq : Acquired env token id conn q startedNow announced r' out ok d₁ d₂) (j : Nat) :
    seat r' j = without (seat q) (refused ok id ++ (d₁ ++ d₂)) j := by
  rw [hacq.room, ← seat_detachAll]
  rfl

theorem not_mem_drops {token : String} {id : Nat} {conn : Conn} {q r' : Room}
    {startedNow : Bool} {announced : Msg} {out : List Out} {d₁ d₂ : List Nat}
    (hacq : Acquired env token id conn q startedNow announced r' out false d₁ d₂)
    (hd : Distinct q) : id ∉ d₁ ++ d₂ := by
  have h := (hacq.heard hd).nodup
  exact (List.nodup_cons.1 h).1

/-- An occupied slot was given away, and its new transport refused to join. -/
def Lost (r : Room) (o : Outcome) (out : List Out) (id : Nat) : Prop :=
  o = .seated id ∧ (r.slot id).occupied = true ∧ ∃ c msg, .enqueue c (.joined msg) false ∈ out

/-- What an attached transport heard, and that it refused nothing meanwhile. -/
structure Hears (r r' : Room) (i : Nat) (c : Conn) (a : Act) (o : Outcome) (out : List Out) :
    Prop where
  unrefused : ∀ msg, .enqueue c msg false ∉ out
  heard : (r.slot i).conn = some c ∧ Announced (Lost r o out) r r' (accepted c out) ∨
    joining a = some c ∧ o = .seated i ∧ Greeted i r' (accepted c out)

theorem hears_dropped {r q r' : Room} {i : Nat} {c : Conn} {a : Act} {o : Outcome}
    {out : List Out} {ids : List Nat} {own : Nat → List Msg}
    (hdel : Delivered q out (fun j => own j ++ ids.map leftMsg) ids)
    (hq : ∀ j, seat q j = seat r j) (hconn : ∀ j, (q.slot j).conn = (r.slot j).conn)
    (hstart : r'.started = r.started) (hr' : ∀ j, r'.slot j = (detachAll q ids).slot j)
    (hown : ∀ j, ∀ m ∈ own j, IsSignal m) (hc : (r'.slot i).conn = some c) :
    Hears r r' i c a o out := by
  rw [hr'] at hc
  obtain ⟨hi, hc⟩ := conn_detachAll.1 hc
  obtain ⟨hacc, hkick⟩ := hdel.stays i c hi hc
  refine ⟨fun m hm => hdel.answered c m hm hkick, .inl ⟨hconn i ▸ hc, ?_⟩⟩
  rw [hacc]
  refine .dropped (own i) ids (hown i) (fun j => ?_) hstart
  have hs : seat r' j = seat (detachAll q ids) j := congrArg Slot.seat (hr' j)
  rw [hs, seat_detachAll]
  unfold without
  rw [hq]

theorem hears_quiet {r r' : Room} {i : Nat} {c : Conn} {a : Act} {o : Outcome} {out : List Out}
    (hseat : ∀ j, seat r' j = seat r j) (hstart : r'.started = r.started)
    (hold : (r.slot i).conn = some c) (hout : ∀ msg, .enqueue c msg false ∉ out)
    (hacc : ∀ m ∈ accepted c out, IsSignal m) : Hears r r' i c a o out := by
  refine ⟨hout, .inl ⟨hold, ?_⟩⟩
  have h : Announced (Lost r o out) r r' (accepted c out ++ [].map leftMsg) :=
    .dropped _ [] hacc (fun j => by simpa [without] using hseat j) hstart
  simpa using h

theorem started_acquired {token : String} {id : Nat} {conn : Conn} {q r' : Room}
    {startedNow ok : Bool} {announced : Msg} {out : List Out} {d₁ d₂ : List Nat}
    (hacq : Acquired env token id conn q startedNow announced r' out ok d₁ d₂) :
    r'.started = q.started ∧ r'.slots.length = q.slots.length ∧ r'.opts = q.opts := by
  rw [hacq.room]
  exact ⟨rfl, length_detachAll .., rfl⟩

theorem greeted_acquired {token : String} {id : Nat} {conn : Conn} {q r' : Room}
    {startedNow : Bool} {announced : Msg} {out : List Out} {d₁ d₂ : List Nat}
    (hacq : Acquired env token id conn q startedNow announced r' out true d₁ d₂) :
    Greeted id r' (buildJoined q id token env.now :: (d₁ ++ d₂).map leftMsg) := by
  obtain ⟨hstart, hlen, -⟩ := started_acquired hacq
  refine .joined q token env.now _ ?_ hlen.symm (fun j => ?_) hstart
  · rw [hlen, q.slots_length]
  · simpa [refused] using seat_acquired hacq j

theorem kicks_displaced {r : Room} {id : Nat} {c : Conn} (code : ErrCode) (text : String)
    (h : (r.slot id).conn ≠ some c) : kicks c (displacedKick (r.slot id).conn code text) = [] := by
  cases hold : (r.slot id).conn with
  | none => rfl
  | some old =>
    have hne : old ≠ c := fun he => h (by rw [hold, he])
    simp [displacedKick, hne]

theorem accepted_displaced (c : Conn) (old : Option Conn) (code : ErrCode) (text : String) :
    accepted c (displacedKick old code text) = [] := by
  cases old <;> simp [displacedKick]

theorem hears_handed {r q r' : Room} {a : Act} {id : Nat} {token : String} {conn : Conn}
    {out : List Out} {ok : Bool} {ids : List Nat} {f : Slot → Slot} {msg : Msg} (hd : Distinct r)
    (hfree : ∀ j, (r.slot j).conn ≠ some conn)
    (hq : ∀ j, q.slot j = if j = id then f (r.slot id) else r.slot j)
    (hconn : (f (r.slot id)).conn = some conn) (hocc : (f (r.slot id)).occupied = true)
    (hwas : (r.slot id).occupied = true) (hstart : q.started = r.started) (hmsg : IsHanded id msg)
    (ha : joining a = some conn)
    (hacq : Acquired env token id conn q false msg r' out ok ids []) (code : ErrCode)
    (text : String) {i : Nat} {c : Conn} (hc : (r'.slot i).conn = some c) :
    Hears r r' i c a (.seated id) (displacedKick (r.slot id).conn code text ++ out) := by
  have hdq := distinct_taken hd hfree hq hconn
  have hseat : ∀ j, seat q j = if j = id then (true, true) else seat r j :=
    seat_taken hq (by simp [Slot.seat, hocc, hconn])
  obtain ⟨hkick, hheard⟩ := acquired_heard hacq hdq hq hc
  refine ⟨fun m hm => ?_, ?_⟩
  · rcases List.mem_append.1 hm with hm | hm
    · exact (Silent.said (displaced_silent _ code text) (fun _ => False) _ _ _ hm).elim
    · exact (hacq.heard hdq).answered c m hm hkick
  rw [accepted_append, accepted_displaced, List.nil_append]
  rcases hheard with ⟨rfl, rfl, hacc⟩ | ⟨hi, hold, hacc⟩
  · right
    refine ⟨?_, rfl, hacc ▸ greeted_acquired hacq⟩
    rw [hacq.room, slot_emptyAt] at hc
    have hc := (conn_detachAll.1 hc).2
    rw [hq, if_pos rfl, hconn] at hc
    rw [ha, hc]
  · left
    refine ⟨hold, ?_⟩
    rw [hacc]
    have hids : ok = false → id ∉ ids ∧ Lost r (.seated id)
        (displacedKick (r.slot id).conn code text ++ out) id := by
      rintro rfl
      obtain ⟨rest, hout, -⟩ := hacq.first
      refine ⟨by simpa using not_mem_drops hacq hdq, rfl, hwas, conn,
        joinResult q id token env.now, ?_⟩
      exact List.mem_append_right _ (hout ▸ List.mem_cons_self)
    have hnews : news msg false ids [] = msg :: ids.map leftMsg := by simp [news]
    rw [hnews]
    refine .handed id ok ids msg hmsg (lt_of_occupied hwas) hids (fun j => ?_)
      ((started_acquired hacq).1.trans hstart)
    rw [seat_acquired hacq, List.append_nil]
    unfold without
    rw [hseat]

theorem hears_joined {r q r' : Room} {a : Act} {id : Nat} {token : String} {conn : Conn}
    {out : List Out} {startedNow ok : Bool} {d₁ d₂ : List Nat} {f : Slot → Slot} (hd : Distinct r)
    (hfree : ∀ j, (r.slot j).conn ≠ some conn)
    (hq : ∀ j, q.slot j = if j = id then f (r.slot id) else r.slot j)
    (hconn : (f (r.slot id)).conn = some conn) (hlen : q.slots.length = r.slots.length)
    (hstart : q.started = (r.started || startedNow))
    (hnow : startedNow = true → r.started = false) (ha : joining a = some conn)
    (hacq : Acquired env token id conn q startedNow
      (.playerJoined id ((detachAll q (refused ok id)).snapshot env.now)) r' out ok d₁ d₂)
    {i : Nat} {c : Conn} (hc : (r'.slot i).conn = some c) : Hears r r' i c a (.seated id) out := by
  have hdq := distinct_taken hd hfree hq hconn
  obtain ⟨hkick, hheard⟩ := acquired_heard hacq hdq hq hc
  refine ⟨fun m hm => (hacq.heard hdq).answered c m hm hkick, ?_⟩
  rcases hheard with ⟨rfl, rfl, hacc⟩ | ⟨hi, hold, hacc⟩
  · right
    refine ⟨?_, rfl, hacc ▸ greeted_acquired hacq⟩
    rw [hacq.room, slot_emptyAt] at hc
    have hc := (conn_detachAll.1 hc).2
    rw [hq, if_pos rfl, hconn] at hc
    rw [ha, hc]
  · left
    refine ⟨hold, ?_⟩
    rw [hacc]
    refine .joined id (detachAll q (refused ok id)) env.now startedNow d₁ d₂
      (by rw [length_detachAll, hlen]) (fun j => ?_)
      ((started_acquired hacq).1.trans hstart) hnow hacq.quiet
    rw [seat_acquired hacq, funext (seat_detachAll q (refused ok id)), without_append]

theorem started_start (r : Room) :
    r.start.started = (r.started || r.startsNow) ∧ (r.startsNow = true → r.started = false) := by
  have hnot : r.startsNow = true → r.started = false := by
    intro h
    simp only [Room.startsNow, Bool.and_eq_true, Bool.not_eq_true'] at h
    exact h.1
  refine ⟨?_, hnot⟩
  unfold Room.start
  split_ifs with h
  · simp [h]
  · simp [h]

theorem does_hears {r r' : Room} {a : Act} {o : Outcome} {out : List Out}
    (h : Does sha256 env r a o r' out) (hd : Distinct r)
    (hfree : ∀ d, joining a = some d → ∀ j, (r.slot j).conn ≠ some d) {i : Nat} {c : Conn}
    (hc : (r'.slot i).conn = some c) : Hears r r' i c a o out := by
  cases h with
  | stale | barred => exact hears_quiet (fun _ => rfl) rfl hc (by simp) (by simp)
  | rejected => exact hears_quiet (fun _ => rfl) rfl hc (by simp) (by simp)
  | touched j conn =>
    rw [conn_refreshed] at hc
    exact hears_quiet (fun k => seat_refreshed r j k _) rfl hc (by simp) (by simp)
  | unsent j conn =>
    rw [conn_refreshed] at hc
    exact hears_quiet (fun k => seat_refreshed r j k _) rfl hc (by simp) (by simp)
  | relayed j conn dest d payload =>
    rw [conn_refreshed] at hc
    refine hears_quiet (fun k => seat_refreshed r j k _) rfl hc (by simp) fun m hm => ?_
    by_cases hcd : d = c
    · exact ⟨j, payload, by simpa [hcd] using hm⟩
    · simp [hcd] at hm
  | overflowed j conn dest d payload out drops e hcur hne hdest hsaid hdel =>
    have hdel' := (hdel hd).congr (fun k c hk => show (if k = dest then _ else _) =
      (if k = dest then [Msg.signal j payload] else []) ++ (dest :: drops).map leftMsg by
        split_ifs <;> rfl)
    refine hears_dropped hdel' (fun k => seat_refreshed r j k _) (fun k => conn_refreshed ..) rfl
      (fun k => rfl) (fun k m hm => ?_) hc
    by_cases hk : k = dest
    · exact ⟨j, payload, by simpa [hk] using hm⟩
    · simp [hk] at hm
  | freed j conn out drops e hcur hsaid hdel =>
    rw [slot_emptyAt] at hc
    obtain ⟨hi, hc⟩ := conn_detachAll.1 hc
    obtain ⟨hacc, hkick⟩ := (hdel hd).stays i c hi hc
    refine ⟨fun m hm => (hdel hd).answered c m hm hkick, .inl ⟨conn_freed hc, ?_⟩⟩
    rw [hacc]
    refine .left j drops (fun k => ?_) rfl
    rw [← funext (seat_freed (lt_of_conn hcur.2.2) env.now), ← seat_detachAll]
    rfl
  | detached j conn out drops e hcur hsaid hdel =>
    rw [slot_emptyAt, ← List.singleton_append, ← detachAll_append] at hc
    obtain ⟨hi, hc⟩ := conn_detachAll.1 hc
    obtain ⟨hacc, hkick⟩ := (hdel hd).stays i c hi hc
    refine ⟨fun m hm => (hdel hd).answered c m hm hkick, .inl ⟨(conn_detachAll.1 hc).2, ?_⟩⟩
    rw [hacc]
    refine .dropped [] (j :: drops) (by simp) (fun k => ?_) rfl
    rw [← seat_detachAll]
    rfl
  | resumed id resumeToken token conn r' out ok drops hdes hne hallow hfind ht hacq =>
    have hq := slot_written (findToken_lt sha256 hfind).1
      (Slot.resumed conn (sha256 token) env.now) env.now
    exact hears_handed hd (hfree conn rfl) hq rfl (findToken_occupied hfind)
      (findToken_occupied hfind) rfl (.inl rfl) rfl hacq _ _ hc
  | occupied a id token conn r' out ok d₁ d₂ hdes hlt hocc ht hwhy hacq =>
    have ha : joining a = some conn := by
      rcases hwhy with ⟨_, rfl, -⟩ | ⟨rfl, -⟩ <;> rfl
    obtain ⟨hstart, hnow⟩ := started_start ((noted r env.now).modifySlot id
      fun _ => Slot.occupiedBy conn (sha256 token) env.now)
    exact hears_joined (f := fun _ => Slot.occupiedBy conn (sha256 token) env.now) hd
      (hfree conn ha) (fun j => by rw [slot_start]; exact slot_written hlt _ _ j) rfl
      ((sameRoom_modifySlot ..).start.length) hstart hnow ha hacq hc
  | replaced id token conn r' out ok drops hdes hocc hallow hpolicy hsilent ht hacq =>
    have hq := slot_written (lt_of_occupied hocc) (Slot.replaced conn (sha256 token) env.now)
      env.now
    exact hears_handed hd (hfree conn rfl) hq rfl hocc hocc rfl (.inr rfl) rfl hacq _ _ hc

/-- An operation calls only the transports of its room and the one it attaches. -/
theorem does_others {r r' : Room} {a : Act} {o : Outcome} {out : List Out}
    (h : Does sha256 env r a o r' out) (hd : Distinct r)
    (hfree : ∀ d, joining a = some d → ∀ j, (r.slot j).conn ≠ some d) {c : Conn}
    (hc : ∀ j, (r.slot j).conn ≠ some c) (hj : joining a ≠ some c) :
    accepted c out = [] ∧ kicks c out = [] := by
  have hafter : ∀ (q : Room) (id : Nat) (f : Slot → Slot) (conn : Conn), conn ≠ c →
      (∀ j, q.slot j = if j = id then f (r.slot id) else r.slot j) →
      (f (r.slot id)).conn = some conn → ∀ j, (q.slot j).conn ≠ some c := by
    intro q id f conn hne hq hf j hcj
    rw [hq] at hcj
    split_ifs at hcj
    · exact hne (Option.some.inj (hf.symm.trans hcj))
    · exact hc j hcj
  cases h with
  | stale | barred | rejected | touched | unsent => exact ⟨rfl, rfl⟩
  | relayed i conn dest d payload hcur hne hdest =>
    have hdc : d ≠ c := fun h => hc dest (h ▸ hdest)
    simp [hdc]
  | overflowed i conn dest d payload out drops e hcur hne hdest hsaid hdel =>
    exact (hdel hd).others c fun j => by rw [conn_refreshed]; exact hc j
  | freed i conn out drops e hcur hsaid hdel =>
    exact (hdel hd).others c fun j hcj => hc j (conn_freed hcj)
  | detached i conn out drops e hcur hsaid hdel =>
    exact (hdel hd).others c fun j hcj => hc j (conn_detachAll.1 hcj).2
  | resumed id resumeToken token conn r' out ok drops hdes hne hallow hfind ht hacq =>
    have hq := slot_written (findToken_lt sha256 hfind).1
      (Slot.resumed conn (sha256 token) env.now) env.now
    have hconn : conn ≠ c := fun h => hj (by rw [← h]; rfl)
    obtain ⟨h₁, h₂⟩ := (hacq.heard (distinct_taken hd (hfree conn rfl) hq rfl)).others c
      (hafter _ id _ conn hconn hq rfl)
    rw [accepted_append, kicks_append, accepted_displaced, kicks_displaced _ _ (hc id), h₁, h₂]
    exact ⟨rfl, rfl⟩
  | occupied a id token conn r' out ok d₁ d₂ hdes hlt hocc ht hwhy hacq =>
    have ha : joining a = some conn := by
      rcases hwhy with ⟨_, rfl, -⟩ | ⟨rfl, -⟩ <;> rfl
    have hconn : conn ≠ c := fun h => hj (by rw [← h]; exact ha)
    have hq : ∀ j, (((noted r env.now).modifySlot id
        fun _ => Slot.occupiedBy conn (sha256 token) env.now).start).slot j = if j = id then
          (fun _ => Slot.occupiedBy conn (sha256 token) env.now) (r.slot id) else r.slot j :=
      fun j => by rw [slot_start]; exact slot_written hlt _ _ j
    let f : Slot → Slot := fun _ => Slot.occupiedBy conn (sha256 token) env.now
    exact (hacq.heard (distinct_taken (f := f) hd (hfree conn ha) hq rfl)).others c
      (hafter _ id f conn hconn hq rfl)
  | replaced id token conn r' out ok drops hdes hocc hallow hpolicy hsilent ht hacq =>
    have hq := slot_written (lt_of_occupied hocc) (Slot.replaced conn (sha256 token) env.now)
      env.now
    have hconn : conn ≠ c := fun h => hj (by rw [← h]; rfl)
    obtain ⟨h₁, h₂⟩ := (hacq.heard (distinct_taken hd (hfree conn rfl) hq rfl)).others c
      (hafter _ id _ conn hconn hq rfl)
    rw [accepted_append, kicks_append, accepted_displaced, kicks_displaced _ _ (hc id), h₁, h₂]
    exact ⟨rfl, rfl⟩

end Lobbylink.Server.Announcements
