import Lobbylink.Server.Operations

/-! One operation seen from the whole lobby. A creating join may sweep and add a
room; after that at most one room does something, and every other room is left
as it was or closed by the sweep. -/
namespace Lobbylink.Server.Effects
open Protocol Lobby Registry Fanout Operations

@[simp] theorem heap_setRoom (m : Manager) (ref : Nat) (r : Room) :
    (m.setRoom ref r).heap.length = m.heap.length := List.length_set

theorem room_setRoom (m : Manager) (ref j : Nat) (r : Room) :
    (m.setRoom ref r).room j = if j = ref ∧ ref < m.heap.length then r else m.room j := by
  unfold Manager.room Manager.setRoom
  simp only [List.getD_eq_getElem?_getD, List.getElem?_set]
  by_cases hj : j = ref
  · subst hj
    by_cases hlt : j < m.heap.length <;> simp [hlt]
  · simp [hj, Ne.symm hj]

theorem room_setRoom_self (m : Manager) (ref : Nat) : m.setRoom ref (m.room ref) = m := by
  unfold Manager.room Manager.setRoom
  by_cases hlt : ref < m.heap.length
  · simp [List.getD_eq_getElem?_getD, hlt]
  · rw [List.set_eq_of_length_le (Nat.le_of_not_lt hlt)]

theorem room_of_ge (m : Manager) {ref : Nat} (h : m.heap.length ≤ ref) : m.room ref = absent := by
  simp [Manager.room, List.getD_eq_getElem?_getD, h]

theorem room_create (m : Manager) (r : Room) (j : Nat) :
    (m.create r).1.room j = if j = m.heap.length then r else m.room j := by
  unfold Manager.room Manager.create
  simp only [List.getD_eq_getElem?_getD, List.getElem?_append]
  by_cases hj : j < m.heap.length
  · simp [hj, Nat.ne_of_lt hj]
  · by_cases he : j = m.heap.length
    · simp [he]
    · have hgt : j - m.heap.length ≠ 0 := by omega
      have hge : m.heap.length ≤ j := Nat.le_of_not_lt hj
      rw [if_neg hj, if_neg he, List.getElem?_eq_none hge, List.getElem?_eq_none]
      simp only [List.length_singleton]
      omega

theorem destroyed_absent (m : Manager) {ref : Nat} (h : (m.room ref).destroyed = false) :
    ref < m.heap.length := by
  by_contra hlt
  rw [room_of_ge m (Nat.le_of_not_lt hlt)] at h
  cases h

@[simp] theorem slot_absent (i : Nat) : absent.slot i = {} := by
  cases i <;> rfl

@[simp] theorem slot_newRoom (appID code : String) (opts : RoomOptions) (now : Time) (i : Nat) :
    (newRoom appID code opts now).slot i = {} := by
  unfold Room.slot newRoom
  simp only [List.getD_eq_getElem?_getD, List.getElem?_replicate]
  split_ifs <;> rfl

def closed (r : Room) : Room :=
  { detachAll r (List.range r.slots.length) with destroyed := true }

theorem slot_closed (r : Room) (i : Nat) : (closed r).slot i = (r.slot i).clearConn := by
  change (detachAll r (List.range r.slots.length)).slot i = _
  rw [slot_detachAll]
  split_ifs with h
  · rfl
  · rw [slot_of_ge r (Nat.le_of_not_lt (by simpa using h))]
    rfl

theorem closed_idem (r : Room) : closed (closed r) = closed r := by
  unfold closed
  simp only [detachAll, List.length_mapIdx, List.mapIdx_mapIdx, Room.mk.injEq, true_and, and_true]
  congr 1
  funext i s
  by_cases h : i ∈ List.range r.slots.length <;> simp [h, Slot.clearConn]

def Silent (out : List Out) : Prop := ∀ o ∈ out, ∃ c, ∃ code, ∃ text, o = .kick c code text

theorem Silent.accepted {out : List Out} (h : Silent out) (c : Conn) : accepted c out = [] := by
  unfold Fanout.accepted
  rw [List.filterMap_eq_nil_iff]
  intro o ho
  obtain ⟨d, code, text, rfl⟩ := h o ho
  rfl

theorem Silent.said {out : List Out} (h : Silent out) (p : Msg → Prop) : Says p out := by
  intro c m ok hm
  obtain ⟨d, code, text, heq⟩ := h _ hm
  cases heq

theorem Silent.append {a b : List Out} (ha : Silent a) (hb : Silent b) : Silent (a ++ b) := by
  intro o ho
  exact (List.mem_append.1 ho).elim (ha o) (hb o)

theorem displaced_silent (old : Option Conn) (code : ErrCode) (text : String) :
    Silent (displacedKick old code text) := by
  cases old with
  | none => simp [displacedKick, Silent]
  | some c =>
    intro o ho
    obtain rfl := List.mem_singleton.1 ho
    exact ⟨c, code, text, rfl⟩

theorem expireLoop_spec (l : List Nat) (s : Call) :
    ∃ out, expireLoop l s = ⟨detachAll s.room l, s.out ++ out⟩ ∧ Silent out := by
  induction l generalizing s with
  | nil => exact ⟨[], by simp [expireLoop, detachAll_nil], by simp [Silent]⟩
  | cons i rest ih =>
    unfold expireLoop
    obtain ⟨out, heq, hsil⟩ := ih (s.displace i .roomExpired "room expired")
    rw [heq]
    unfold Call.displace
    cases hc : (s.room.slot i).conn with
    | none =>
      refine ⟨out, ?_, hsil⟩
      have hroom : detachAll s.room [i] = s.room := detachAll_of_none (by simpa using hc)
      simp only
      conv_lhs => rw [← hroom, detachAll_append]
      rfl
    | some c =>
      refine ⟨.kick c .roomExpired "room expired" :: out, ?_, ?_⟩
      · simp [Call.kick, Call.modifySlot, modifySlot_clearConn, detachAll_append]
      · intro o ho
        rcases List.mem_cons.1 ho with rfl | ho
        · exact ⟨c, _, _, rfl⟩
        · exact hsil o ho

theorem expireRoom_spec (s : Call) :
    ∃ out, expireRoom s = ⟨closed s.room, s.out ++ out⟩ ∧ Silent out := by
  unfold expireRoom
  exact expireLoop_spec _ _

/-- What a sweep at `now` may do. -/
structure Swept (now : Time) (m m' : Manager) (out : List Out) : Prop where
  length : m'.heap.length = m.heap.length
  limits : m'.limits = m.limits
  silent : Silent out
  rooms : ∀ ref, m'.room ref = m.room ref ∨
    m.limits.expired now (m.room ref) = true ∧ m'.room ref = closed (m.room ref)

theorem Swept.refl (now : Time) (m : Manager) : Swept now m m [] where
  length := rfl
  limits := rfl
  silent := by simp [Silent]
  rooms := fun _ => .inl rfl

theorem gcRoom_swept {now : Time} {m : Manager} {sweep : Sweep} {entry : String × Nat}
    (h : Swept now m sweep.manager sweep.out) :
    Swept now m (gcRoom now sweep entry).manager (gcRoom now sweep entry).out := by
  unfold gcRoom
  by_cases hexp : sweep.manager.limits.expired now (sweep.manager.room entry.2) = true
  · simp only [hexp, if_true]
    obtain ⟨out, heq, hsil⟩ := expireRoom_spec ⟨sweep.manager.room entry.2, sweep.out⟩
    rw [heq]
    refine ⟨by simp [Manager.setRoom, h.length], h.limits, h.silent.append hsil, ?_⟩
    intro ref
    change (sweep.manager.setRoom entry.2 (closed (sweep.manager.room entry.2))).room ref = _ ∨
      _ ∧ (sweep.manager.setRoom entry.2 (closed (sweep.manager.room entry.2))).room ref = _
    rw [room_setRoom]
    split_ifs with hj
    · rw [hj.1]
      rcases h.rooms entry.2 with hr | ⟨hr, hr'⟩
      · right
        rw [hr] at hexp ⊢
        rw [h.limits] at hexp
        exact ⟨hexp, rfl⟩
      · exact .inr ⟨hr, by rw [hr', closed_idem]⟩
    · exact h.rooms ref
  · rw [if_neg hexp]
    exact h

theorem gcLocked_swept (now : Time) (m : Manager) :
    Swept now m (gcLocked now m).manager (gcLocked now m).out := by
  unfold gcLocked
  have hfold : ∀ (l : List (String × Nat)) (sweep : Sweep),
      Swept now m sweep.manager sweep.out →
      Swept now m (l.foldl (gcRoom now) sweep).manager (l.foldl (gcRoom now) sweep).out := by
    intro l
    induction l with
    | nil => exact fun _ h => h
    | cons e rest ih => exact fun sweep h => ih _ (gcRoom_swept h)
  exact hfold _ _ (Swept.refl now m)

/-- The room an operation reaches, and what it asks of it. -/
inductive Reaches (m : Manager) : Op → Nat → Act → Prop where
  | join (appID code resumeToken : String) (create : Option RoomOptions) (conn : Conn) (ref : Nat) :
      m.lookup code = some ref →
      Reaches m (.join appID code resumeToken create conn) ref (.join resumeToken conn)
  | claim (appID code : String) (playerID : Int) (conn : Conn) (ref : Nat) :
      m.lookup code = some ref →
      Reaches m (.claim appID code playerID conn) ref (.claim playerID conn)
  | signal (sess : Session) (conn : Conn) (target : Int) (payload : String) :
      Reaches m (.signal sess conn target payload) sess.room
        (.signal sess.playerID conn target payload)
  | leave (sess : Session) (conn : Conn) :
      Reaches m (.leave sess conn) sess.room (.leave sess.playerID conn)
  | disconnect (sess : Session) (conn : Conn) :
      Reaches m (.disconnect sess conn) sess.room (.disconnect sess.playerID conn)
  | touch (sess : Session) (conn : Conn) :
      Reaches m (.touch sess conn) sess.room (.touch sess.playerID conn)

/-- The manager once a creating join has added its room, and the calls of the
sweep made before. -/
inductive Creates (now : Time) (m : Manager) : Op → Manager → List Out → Act → Prop where
  | join (appID code resumeToken : String) (opts : RoomOptions) (conn : Conn) (m₀ : Manager)
      (out : List Out) :
      m.lookup code = none → Swept now m m₀ out →
      Creates now m (.join appID code resumeToken (some opts) conn)
        (m₀.create (newRoom appID code opts now)).1 out (.join resumeToken conn)

structure Answers (ref : Nat) (o : Outcome) (reply : Reply) : Prop where
  seated : ∀ sess, reply = .session (.ok sess) ↔ o = .seated sess.playerID ∧ sess.room = ref
  relayed : reply = .relayed (.ok ()) ↔ o = .relayed

structure Declined (reply : Reply) : Prop where
  seated : ∀ sess, reply ≠ .session (.ok sess)
  relayed : reply ≠ .relayed (.ok ())

inductive Effect (sha256 : String → TokenHash) (env : Env) (m : Manager) (op : Op) :
    Result → Prop where
  | declined (m' : Manager) (out : List Out) (reply : Reply) :
      (∀ ref a, ¬Reaches m op ref a) → Swept env.now m m' out → Declined reply →
      Effect sha256 env m op ⟨m', out, reply⟩
  | reached (ref : Nat) (a : Act) (o : Outcome) (r' : Room) (out : List Out) (reply : Reply) :
      Reaches m op ref a → Does sha256 env (m.room ref) a o r' out → Answers ref o reply →
      Effect sha256 env m op ⟨m.setRoom ref r', out, reply⟩
  | created (m₁ : Manager) (swept : List Out) (a : Act) (o : Outcome) (r' : Room)
      (out : List Out) (reply : Reply) :
      Creates env.now m op m₁ swept a →
      Does sha256 env (m₁.room m.heap.length) a o r' out → Answers m.heap.length o reply →
      Effect sha256 env m op ⟨m₁.setRoom m.heap.length r', swept ++ out, reply⟩

variable (sha256 : String → TokenHash)

theorem answers_entered {ref : Nat} {o : Outcome} {res : Except ProtoError Nat}
    (h : ∀ id, o = .seated id ↔ res = .ok id) (hno : o ≠ .relayed) :
    Answers ref o (.session (res.map (Session.mk ref))) where
  seated := by
    rintro ⟨room, id⟩
    rw [h id]
    cases res with
    | error e => simp [Except.map]
    | ok k =>
      simp only [Except.map, Reply.session.injEq, Except.ok.injEq, Session.mk.injEq]
      exact ⟨fun h => ⟨h.2, h.1.symm⟩, fun h => ⟨h.2.symm, h.1⟩⟩
  relayed := by simp [hno]

theorem answers_relayed {ref : Nat} {o : Outcome} {res : Except ProtoError Unit}
    (h : o = .relayed ↔ res = .ok ()) (hno : ∀ id, o ≠ .seated id) :
    Answers ref o (.relayed res) where
  seated := by simp [hno]
  relayed := by simp [h]

theorem does_join_outcome {env : Env} {r r' : Room} {tok : String} {conn : Conn} {o : Outcome}
    {out : List Out} (h : Does sha256 env r (.join tok conn) o r' out) : o ≠ .relayed := by
  cases h with
  | stale _ _ _ _ hs => cases hs
  | _ => simp

theorem does_claim_outcome {env : Env} {r r' : Room} {id : Int} {conn : Conn} {o : Outcome}
    {out : List Out} (h : Does sha256 env r (.claim id conn) o r' out) : o ≠ .relayed := by
  cases h with
  | stale _ _ _ _ hs => cases hs
  | _ => simp

theorem does_session_outcome {env : Env} {r r' : Room} {a : Act} {o : Outcome}
    {out : List Out} (h : Does sha256 env r a o r' out) (ha : a.session.isSome) (id : Nat) :
    o ≠ .seated id := by
  rintro rfl
  cases h with
  | stale _ _ _ _ _ _ ho => rcases ho with ho | ho <;> cases ho
  | occupied _ _ _ _ _ _ _ _ _ _ _ _ _ hcase =>
    rcases hcase with ⟨_, rfl, -⟩ | ⟨rfl, -⟩ <;> simp [Act.session] at ha
  | _ => simp [Act.session] at ha

def sweepFor (now : Time) (m : Manager) : Sweep :=
  if m.rooms.length ≥ m.limits.maxRooms then gcLocked now m else ⟨m, [], 0⟩

theorem sweepFor_full {now : Time} {m : Manager} (h : m.limits.maxRooms ≤ m.rooms.length) :
    sweepFor now m = gcLocked now m := if_pos h

theorem sweepFor_room {now : Time} {m : Manager} (h : ¬m.limits.maxRooms ≤ m.rooms.length) :
    sweepFor now m = ⟨m, [], 0⟩ := if_neg h

theorem sweepFor_swept (now : Time) (m : Manager) :
    Swept now m (sweepFor now m).manager (sweepFor now m).out := by
  by_cases hfull : m.limits.maxRooms ≤ m.rooms.length
  · rw [sweepFor_full hfull]
    exact gcLocked_swept now m
  · rw [sweepFor_room hfull]
    exact Swept.refl now m

def withRoom (now : Time) (m : Manager) (r : Room) : Manager :=
  ((sweepFor now m).manager.create r).1

theorem heap_withRoom (now : Time) (m : Manager) (r : Room) :
    (withRoom now m r).heap.length = m.heap.length + 1 := by
  rw [← (sweepFor_swept now m).length]
  exact List.length_append

theorem room_withRoom (now : Time) (m : Manager) (r : Room) (ref : Nat) :
    (withRoom now m r).room ref =
      if ref = m.heap.length then r else (sweepFor now m).manager.room ref := by
  rw [withRoom, room_create, (sweepFor_swept now m).length]

/-- The room is there, is not to be created, is one too many, or is new. -/
inductive Joins (env : Env) (m : Manager) (appID code resumeToken : String) (conn : Conn) :
    Option RoomOptions → Entered → Prop where
  | found (create : Option RoomOptions) (ref : Nat) : m.lookup code = some ref →
      Joins env m appID code resumeToken conn create
        (entered ref (m.onRoom [] ref (joinRoom sha256 env appID code resumeToken conn)))
  | missing (err : ProtoError) : m.lookup code = none →
      Joins env m appID code resumeToken conn none (m, [], .error err)
  | refused (opts : RoomOptions) (err : ProtoError) : m.lookup code = none →
      Joins env m appID code resumeToken conn (some opts)
        ((sweepFor env.now m).manager, (sweepFor env.now m).out, .error err)
  | created (opts : RoomOptions) : m.lookup code = none →
      ((sweepFor env.now m).manager.rooms.length : Int) <
        (sweepFor env.now m).manager.limits.maxRooms →
      Joins env m appID code resumeToken conn (some opts)
        (entered m.heap.length ((withRoom env.now m (newRoom appID code opts env.now)).onRoom
          (sweepFor env.now m).out m.heap.length
          (joinRoom sha256 env appID code resumeToken conn)))

theorem join_joins (env : Env) (m : Manager) (appID code resumeToken : String)
    (create : Option RoomOptions) (conn : Conn) :
    Joins sha256 env m appID code resumeToken conn create
      (Registry.join sha256 env appID code resumeToken create conn m) := by
  unfold Registry.join
  cases hlook : m.lookup code with
  | some ref => exact .found create ref hlook
  | none =>
    cases create with
    | none => exact .missing _ hlook
    | some opts =>
      simp only
      have hsweep : (if (m.rooms.length : Int) ≥ m.limits.maxRooms then gcLocked env.now m
          else ⟨m, [], 0⟩) = sweepFor env.now m := rfl
      rw [hsweep]
      by_cases hfull : ((sweepFor env.now m).manager.rooms.length : Int) ≥
          (sweepFor env.now m).manager.limits.maxRooms
      · rw [if_pos hfull]
        exact .refused opts _ hlook
      · have hmake : (sweepFor env.now m).manager.create (newRoom appID code opts env.now) =
            (withRoom env.now m (newRoom appID code opts env.now), m.heap.length) := by
          rw [← (sweepFor_swept env.now m).length]
          rfl
        rw [if_neg hfull, hmake]
        exact .created opts hlook (Int.not_le.1 hfull)

theorem apply_effect (env : Env) (m : Manager) (op : Op) :
    Effect sha256 env m op (m.apply sha256 env op) := by
  cases op with
  | join appID code resumeToken create conn =>
    have hno : m.lookup code = none →
        ∀ ref a, ¬Reaches m (.join appID code resumeToken create conn) ref a := by
      rintro hlook ref a ⟨⟩
      simp_all
    have hjoin := join_joins sha256 env m appID code resumeToken create conn
    unfold Manager.apply
    simp only
    generalize Registry.join sha256 env appID code resumeToken create conn m = res at hjoin ⊢
    cases hjoin with
    | found create ref hlook =>
      obtain ⟨r', out, o, heq, hdoes, hres⟩ :=
        joinRoom_does sha256 env appID code resumeToken conn ⟨m.room ref, []⟩
      simp only [Manager.onRoom, entered, Entered.result, heq, List.nil_append]
      exact .reached ref _ o r' out _ (.join appID code resumeToken create conn ref hlook) hdoes
        (answers_entered hres (does_join_outcome sha256 hdoes))
    | missing err hlook =>
      exact .declined m [] _ (hno hlook) (Swept.refl _ _) ⟨by simp, by simp⟩
    | refused opts err hlook =>
      exact .declined _ _ _ (hno hlook) (sweepFor_swept env.now m) ⟨by simp, by simp⟩
    | created opts hlook hspace =>
      obtain ⟨r', out, o, heq, hdoes, hres⟩ := joinRoom_does sha256 env appID code resumeToken
        conn ⟨(withRoom env.now m (newRoom appID code opts env.now)).room m.heap.length,
          (sweepFor env.now m).out⟩
      simp only [Manager.onRoom, entered, Entered.result, heq]
      exact .created _ (sweepFor env.now m).out _ o r' out _
        (.join appID code resumeToken opts conn _ _ hlook (sweepFor_swept env.now m)) hdoes
        (answers_entered hres (does_join_outcome sha256 hdoes))
  | claim appID code playerID conn =>
    simp only [Manager.apply, Registry.claim]
    cases hlook : m.lookup code with
    | none =>
      refine .declined m [] _ ?_ (Swept.refl _ _) ⟨by simp, by simp⟩
      rintro ref a ⟨⟩
      simp_all
    | some ref =>
      obtain ⟨r', out, o, heq, hdoes, hres⟩ :=
        claimRoom_does sha256 env appID code playerID conn ⟨m.room ref, []⟩
      simp only [Manager.onRoom, entered, Entered.result, heq, List.nil_append]
      exact .reached ref _ o r' out _ (.claim appID code playerID conn ref hlook) hdoes
        (answers_entered hres (does_claim_outcome sha256 hdoes))
  | signal sess conn target payload =>
    obtain ⟨r', out, o, heq, hdoes, hres⟩ :=
      signal_does sha256 env sess.playerID conn target payload ⟨m.room sess.room, []⟩
    simp only [Manager.apply, Manager.onRoom, heq, List.nil_append]
    exact .reached sess.room _ o r' out _ (.signal sess conn target payload) hdoes
      (answers_relayed hres (does_session_outcome sha256 hdoes rfl))
  | leave sess conn =>
    obtain ⟨r', out, heq, hdoes⟩ := leave_does sha256 env sess.playerID conn ⟨m.room sess.room, []⟩
    simp only [Manager.apply, Manager.onSession, Manager.onRoom, heq, List.nil_append]
    exact .reached sess.room _ .done r' out _ (.leave sess conn) hdoes ⟨by simp, by simp⟩
  | disconnect sess conn =>
    obtain ⟨r', out, heq, hdoes⟩ :=
      disconnect_does sha256 env sess.playerID conn ⟨m.room sess.room, []⟩
    simp only [Manager.apply, Manager.onSession, Manager.onRoom, heq, List.nil_append]
    exact .reached sess.room _ .done r' out _ (.disconnect sess conn) hdoes ⟨by simp, by simp⟩
  | touch sess conn =>
    obtain ⟨r', heq, hdoes⟩ := touch_does sha256 env sess.playerID conn ⟨m.room sess.room, []⟩
    simp only [Manager.apply, Manager.onSession, Manager.onRoom, heq]
    exact .reached sess.room _ .done r' [] _ (.touch sess conn) hdoes ⟨by simp, by simp⟩
  | gc =>
    refine .declined _ _ _ ?_ (gcLocked_swept env.now m) ⟨by simp, by simp⟩
    rintro ref a ⟨⟩

end Lobbylink.Server.Effects
