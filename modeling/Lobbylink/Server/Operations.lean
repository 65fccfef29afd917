import Lobbylink.Server.Fanout

/-! One specification for each operation on a room. The three ways to acquire a
slot share theirs: they differ in the slot they write and in what they announce. -/
namespace Lobbylink.Server.Operations
open Protocol Lobby Fanout

/-- The room with another `emptySince`. -/
def emptyAt (r : Room) (t : Time) : Room := { r with emptySince := t }

@[simp] theorem slot_emptyAt (r : Room) (t : Time) (i : Nat) : (emptyAt r t).slot i = r.slot i := rfl
@[simp] theorem slots_emptyAt (r : Room) (t : Time) : (emptyAt r t).slots = r.slots := rfl
@[simp] theorem emptyAt_emptyAt (r : Room) (t u : Time) : emptyAt (emptyAt r t) u = emptyAt r u := rfl
@[simp] theorem emptySince_emptyAt (r : Room) (t : Time) : (emptyAt r t).emptySince = t := rfl

theorem updateEmpty_eq (r : Room) (t : Time) :
    r.updateEmpty t = emptyAt r (r.updateEmpty t).emptySince := by
  unfold Room.updateEmpty
  split_ifs <;> rfl

@[simp] theorem detachAll_emptyAt (r : Room) (ids : List Nat) (t : Time) :
    detachAll (emptyAt r t) ids = emptyAt (detachAll r ids) t := rfl

@[simp] theorem buildJoined_updateEmpty (r : Room) (t : Time) (id : Nat) (token : String)
    (now : Time) : buildJoined (r.updateEmpty t) id token now = buildJoined r id token now := by
  rw [updateEmpty_eq]
  rfl

@[simp] theorem snapshot_updateEmpty (r : Room) (t now : Time) :
    (r.updateEmpty t).snapshot now = r.snapshot now := by
  rw [updateEmpty_eq]
  rfl

theorem modifySlot_modifySlot (r : Room) (i : Nat) (f g : Slot → Slot) :
    (r.modifySlot i f).modifySlot i g = r.modifySlot i (g ∘ f) := by
  cases r
  simp [Room.modifySlot, List.modify_modify_eq]

/-- `emptySince` as an operation leaves it. -/
def Settled (env : Env) (r : Room) : Prop :=
  if r.slots.any (·.conn.isSome) then r.emptySince = 0 else Reads env r.emptySince

def Pending (env : Env) (r : Room) : Prop := r.emptySince = 0 ∨ Reads env r.emptySince

theorem Settled.pending {env : Env} {r : Room} (h : Settled env r) : Pending env r := by
  unfold Settled at h
  split at h
  · exact .inl h
  · exact .inr h

theorem Pending.settled {env : Env} {r : Room} (h : Pending env r) {t : Time}
    (ht : Reads env t) : Settled env (r.updateEmpty t) := by
  unfold Settled
  rw [slots_updateEmpty]
  unfold Room.updateEmpty
  by_cases hany : r.slots.any (·.conn.isSome) = true
  · simp [hany]
  · simp only [hany, if_false, Bool.false_eq_true]
    by_cases hz : Time.isZero r.emptySince = true
    · simpa [hz] using ht
    · have hne : r.emptySince ≠ 0 := by simpa [Time.isZero] using hz
      simpa [hz] using h.resolve_left hne

theorem Pending.detachAll {env : Env} {r : Room} (h : Pending env r) (ids : List Nat) :
    Pending env (detachAll r ids) := h

def refused (ok : Bool) (id : Nat) : List Nat := if ok then [] else [id]

def refusedKick (ok : Bool) (conn : Conn) : List Out :=
  if ok then [] else [.kick conn .slowConsumer slowConsumerText]

theorem delivered_first {r : Room} (hd : Distinct r) {id : Nat} {conn : Conn} (msg : Msg)
    (hc : (r.slot id).conn = some conn) (ok : Bool) :
    Delivered r (.enqueue conn msg ok :: refusedKick ok conn)
      (fun j => if j = id then [msg] else []) (refused ok id) := by
  cases ok
  · exact delivered_refuse hd msg hc
  · exact delivered_accept hd hc

theorem deliverJoinedLocked_spec (env : Env) (id : Nat) (token : String) (conn : Conn)
    (s : Call) (hp : Pending env s.room) :
    ∃ e, deliverJoinedLocked env id token conn s =
        ⟨emptyAt (detachAll s.room (refused (s.accepts env) id)) e,
          s.out ++ .enqueue conn (buildJoined s.room id token env.now) (s.accepts env) ::
            refusedKick (s.accepts env) conn⟩ ∧
      (e = 0 ∨ Reads env e) := by
  unfold deliverJoinedLocked
  by_cases hok : s.accepts env = true
  · refine ⟨s.room.emptySince, ?_, hp⟩
    simp only [hok, if_true, refused, refusedKick, detachAll_nil, Call.enqueue]
    rfl
  · refine ⟨((detachAll s.room [id]).updateEmpty env.now).emptySince, ?_,
      ((hp.detachAll [id]).settled (.inl rfl)).pending⟩
    simp only [hok, refused, refusedKick, if_false, Bool.false_eq_true]
    rw [← updateEmpty_eq]
    simp [hok, Call.enqueue, Call.kick, Call.modifySlot, Call.updateEmpty,
      modifySlot_clearConn]

def news (announced : Msg) (startedNow : Bool) (d₁ d₂ : List Nat) : List Msg :=
  announced :: d₁.map leftMsg ++ if startedNow then .roomStarted :: d₂.map leftMsg else []

/-- The transport `conn`, just attached to slot `id` of `r`, was offered its
joined message and the others were told. `d₁` and `d₂` are the slots dropped
during the two broadcasts; the second is made only when the room starts. -/
structure Acquired (env : Env) (token : String) (id : Nat) (conn : Conn) (r : Room)
    (startedNow : Bool) (announced : Msg) (r' : Room) (out : List Out) (ok : Bool)
    (d₁ d₂ : List Nat) : Prop where
  room : r' = emptyAt (detachAll r (refused ok id ++ (d₁ ++ d₂))) r'.emptySince
  settled : Settled env r'
  quiet : startedNow = false → d₂ = []
  first : ∃ rest, out = .enqueue conn (buildJoined r id token env.now) ok :: rest ∧
    Says (fun m => m = announced ∨ m = .roomStarted ∨ IsLeft m) rest
  heard : Distinct r → Delivered r out
    (fun i => if i = id then buildJoined r id token env.now :: (d₁ ++ d₂).map leftMsg
      else news announced startedNow d₁ d₂)
    (refused ok id ++ (d₁ ++ d₂))

theorem deliver_announce (env : Env) (token : String) (id : Nat) (conn : Conn) (s : Call)
    (hp : Pending env s.room) (hc : (s.room.slot id).conn = some conn)
    (announced : Call → Msg) (msg : Msg)
    (hmsg : announced (deliverJoinedLocked env id token conn s) = msg) :
    ∃ r' out d,
      broadcastLocked env (announced (deliverJoinedLocked env id token conn s)) (some id)
        (deliverJoinedLocked env id token conn s) = ⟨r', s.out ++ out⟩ ∧
      Acquired env token id conn s.room false msg r' out (s.accepts env) d [] := by
  obtain ⟨e, hdel, he⟩ := deliverJoinedLocked_spec env id token conn s hp
  rw [hmsg, hdel]
  set ok := s.accepts env with hok
  obtain ⟨out, d, t, heq, ht, hsaid, hheard⟩ := broadcastLocked_spec env msg (some id)
    ⟨emptyAt (detachAll s.room (refused ok id)) e,
      s.out ++ .enqueue conn (buildJoined s.room id token env.now) ok :: refusedKick ok conn⟩
  simp only [detachAll_emptyAt, detachAll_append] at heq
  refine ⟨(emptyAt (detachAll s.room (refused ok id ++ d)) e).updateEmpty t,
    .enqueue conn (buildJoined s.room id token env.now) ok :: refusedKick ok conn ++ out,
    d, ?_, ?_, ?_, fun _ => rfl, ?_, ?_⟩
  · rw [heq]
    simp only [List.append_assoc]
  · rw [updateEmpty_eq]
    simp
  · have hpend : Pending env (emptyAt (detachAll s.room (refused ok id ++ d)) e) := he
    exact hpend.settled ht
  · refine ⟨refusedKick ok conn ++ out, by simp, Says.append ?_ (hsaid.mono ?_)⟩
    · intro c m b hm
      unfold refusedKick at hm
      split at hm <;> simp at hm
    · rintro m (rfl | hm)
      · exact .inl rfl
      · exact .inr (.inr hm)
  · intro hd
    have hfirst := delivered_first hd (buildJoined s.room id token env.now) hc ok
    have hrest := hheard (hd.detachAll (refused ok id))
    rw [List.append_nil]
    refine (hfirst.trans hd (hrest.of_slots fun _ => rfl)).congr ?_
    intro i c _
    by_cases hi : i = id
    · simp [hi, told]
    · have hne : some i ≠ some id := fun h => hi (Option.some.inj h)
      simp [hi, told, news]

/-- The broadcast of the start after that of the join. -/
theorem Acquired.announceStart {env : Env} {token : String} {id : Nat} {conn : Conn} {r r₁ : Room}
    {announced : Msg} {out : List Out} {ok : Bool} {d : List Nat}
    (a : Acquired env token id conn r false announced r₁ out ok d []) (before : List Out) :
    ∃ r' out' d₂, broadcastLocked env .roomStarted (some id) ⟨r₁, before ++ out⟩ =
        ⟨r', before ++ (out ++ out')⟩ ∧
      Acquired env token id conn r true announced r' (out ++ out') ok d d₂ := by
  obtain ⟨out', d₂, t, heq, ht, hsaid, hheard⟩ :=
    broadcastLocked_spec env .roomStarted (some id) ⟨r₁, before ++ out⟩
  have hroom := a.room
  rw [List.append_nil] at hroom
  refine ⟨_, out', d₂, ?_, ?_, (a.settled.pending.detachAll d₂).settled ht, by simp, ?_, ?_⟩
  · rw [heq, List.append_assoc]
  · rw [updateEmpty_eq, hroom]
    simp [detachAll_append]
  · obtain ⟨rest, hout, hrest⟩ := a.first
    refine ⟨rest ++ out', by simp [hout], hrest.append (hsaid.mono ?_)⟩
    rintro m (rfl | hm)
    · exact .inr (.inl rfl)
    · exact .inr (.inr hm)
  · intro hd
    have hfirst := a.heard hd
    have hrest : Delivered (detachAll r (refused ok id ++ (d ++ []))) out' _ d₂ :=
      (hheard (by rw [hroom]; exact hd.detachAll _)).of_slots fun i => by
        rw [a.room]
        rfl
    refine List.append_assoc .. ▸ List.append_nil d ▸ (hfirst.trans hd hrest).congr ?_
    intro i c _
    by_cases hi : i = id
    · simp [hi, told]
    · simp [hi, told, news]

theorem pending_of_attached {env : Env} {r : Room} {i : Nat} {c : Conn}
    (hc : (r.slot i).conn = some c) (t : Time) : Pending env (r.updateEmpty t) := by
  have hany : r.slots.any (·.conn.isSome) = true := by
    refine List.any_eq_true.2 ⟨r.slot i, ?_, by simp [hc]⟩
    rw [slot_of_lt r (lt_of_conn hc)]
    exact List.getElem_mem _
  refine .inl ?_
  unfold Room.updateEmpty
  rw [if_pos hany]

theorem Acquired.of_updateEmpty {env : Env} {token : String} {id : Nat} {conn : Conn} {r r' : Room}
    {startedNow : Bool} {announced : Msg} {out : List Out} {ok : Bool} {d₁ d₂ : List Nat}
    {t : Time}
    (a : Acquired env token id conn (r.updateEmpty t) startedNow announced r' out ok d₁ d₂) :
    Acquired env token id conn r startedNow announced r' out ok d₁ d₂ where
  room := by
    have h := a.room
    rw [updateEmpty_eq r] at h
    simpa using h
  settled := a.settled
  quiet := a.quiet
  first := by simpa using a.first
  heard := by
    intro hd
    have h := a.heard (hd.of_slots fun i c hc => by simpa using hc)
    simpa using h.of_slots fun i => by simp

def displacedKick (old : Option Conn) (code : ErrCode) (message : String) : List Out :=
  match old with
  | none => []
  | some c => [.kick c code message]

theorem displace_modifySlot (s : Call) (id : Nat) (code : ErrCode) (message : String)
    (f : Slot → Slot) (hf : ∀ t, f t.clearConn = f t) :
    (s.displace id code message).modifySlot id f =
      ⟨s.room.modifySlot id f, s.out ++ displacedKick (s.room.slot id).conn code message⟩ := by
  unfold Call.displace
  cases hc : (s.room.slot id).conn with
  | none => simp [Call.modifySlot, displacedKick]
  | some old =>
    have hcomp : f ∘ Slot.clearConn = f := funext hf
    simp [Call.modifySlot, Call.kick, displacedKick, modifySlot_modifySlot, hcomp]

theorem conn_modifySlot {r : Room} {id : Nat} (hid : id < r.slots.length) {f : Slot → Slot} :
    (r.modifySlot id f).slot id = f (r.slot id) := by
  rw [slot_modifySlot]
  simp [hid]

/-- The outcome of an acquisition that writes slot `id` with `f`. -/
def Enters (env : Env) (token : String) (id : Nat) (conn : Conn) (before : List Out) (r : Room)
    (startedNow : Bool) (announced : Bool → Msg) (res : Call × Except ProtoError Nat) : Prop :=
  ∃ r' out ok d₁ d₂, res = (⟨r', before ++ out⟩, .ok id) ∧
    Acquired env token id conn r startedNow (announced ok) r' out ok d₁ d₂

theorem resumeLocked_spec (sha256 : String → TokenHash) (env : Env) (id : Nat) (conn : Conn)
    (s : Call) {token : String} (ht : env.token = some token) (hid : id < s.room.slots.length) :
    Enters env token id conn
      (s.out ++ displacedKick (s.room.slot id).conn .superseded supersededText)
      (s.room.modifySlot id (Slot.resumed conn (sha256 token) env.now)) false
      (fun _ => .playerRejoined id false) (resumeLocked sha256 env id conn s) := by
  simp only [resumeLocked, newToken, ht, Option.map_some]
  rw [displace_modifySlot _ _ _ _ _ fun t => rfl]
  set r := s.room.modifySlot id (Slot.resumed conn (sha256 token) env.now) with hr
  have hc : (r.slot id).conn = some conn := by
    rw [hr, conn_modifySlot hid]
    rfl
  obtain ⟨r', out, d, heq, hacq⟩ := deliver_announce env token id conn
    ⟨r.updateEmpty env.now,
      s.out ++ displacedKick (s.room.slot id).conn .superseded supersededText⟩
    (pending_of_attached hc _) (by simpa using hc) (fun _ => .playerRejoined id false) _ rfl
  exact ⟨r', out, _, d, [], by simp only [Call.updateEmpty, heq], hacq.of_updateEmpty⟩

theorem replaceLocked_spec (sha256 : String → TokenHash) (env : Env) (id : Nat) (conn : Conn)
    (s : Call) {token : String} (ht : env.token = some token) (hid : id < s.room.slots.length) :
    Enters env token id conn
      (s.out ++ displacedKick (s.room.slot id).conn .replaced replacedText)
      (s.room.modifySlot id (Slot.replaced conn (sha256 token) env.now)) false
      (fun _ => .playerReplaced id) (replaceLocked sha256 env id conn s) := by
  simp only [replaceLocked, newToken, ht, Option.map_some]
  rw [displace_modifySlot _ _ _ _ _ fun t => rfl]
  set r := s.room.modifySlot id (Slot.replaced conn (sha256 token) env.now) with hr
  have hc : (r.slot id).conn = some conn := by
    rw [hr, conn_modifySlot hid]
    rfl
  obtain ⟨r', out, d, heq, hacq⟩ := deliver_announce env token id conn
    ⟨r.updateEmpty env.now, s.out ++ displacedKick (s.room.slot id).conn .replaced replacedText⟩
    (pending_of_attached hc _) (by simpa using hc) (fun _ => .playerReplaced id) _ rfl
  exact ⟨r', out, _, d, [], by simp only [Call.updateEmpty, heq], hacq.of_updateEmpty⟩

theorem occupyLocked_spec (sha256 : String → TokenHash) (env : Env) (id : Nat) (conn : Conn)
    (s : Call) {token : String} (ht : env.token = some token) (hid : id < s.room.slots.length) :
    let r := s.room.modifySlot id fun _ => Slot.occupiedBy conn (sha256 token) env.now
    Enters env token id conn s.out r.start r.startsNow
      (fun ok => .playerJoined id ((detachAll r.start (refused ok id)).snapshot env.now))
      (occupyLocked sha256 env id conn s) := by
  intro r
  simp only [occupyLocked, newToken, ht, Option.map_some]
  have hc : (r.start.slot id).conn = some conn := by
    have h : (r.slot id).conn = some conn := by
      rw [conn_modifySlot hid]
      rfl
    unfold Room.start
    split <;> exact h
  let s₁ : Call := ⟨r.start.updateEmpty env.now, s.out⟩
  obtain ⟨e, hdel, -⟩ := deliverJoinedLocked_spec env id token conn s₁ (pending_of_attached hc _)
  obtain ⟨r₁, out, d, heq, hacq⟩ := deliver_announce env token id conn s₁
    (pending_of_attached hc _) (by simpa [s₁] using hc)
    (fun s => .playerJoined id (s.room.snapshot env.now))
    (.playerJoined id ((detachAll r.start (refused (s₁.accepts env) id)).snapshot env.now)) (by
      rw [hdel, show s₁.room = r.start.updateEmpty env.now from rfl, updateEmpty_eq]
      rfl)
  have hstep : (s.modifySlot id fun _ => Slot.occupiedBy conn (sha256 token) env.now).room = r := rfl
  simp only [hstep, Call.updateEmpty]
  change Enters _ _ _ _ _ _ _ _ (if r.startsNow = true then _ else _, _)
  by_cases hstart : r.startsNow = true
  · obtain ⟨r', out', d₂, heq', hacq'⟩ := hacq.announceStart s.out
    refine ⟨r', out ++ out', s₁.accepts env, d, d₂, ?_, hstart ▸ hacq'.of_updateEmpty⟩
    rw [if_pos hstart]
    refine Prod.ext ?_ rfl
    simp only
    rw [← heq', ← heq]
    rfl
  · refine ⟨r₁, out, s₁.accepts env, d, [], ?_, ?_⟩
    · rw [if_neg hstart, ← heq]
      rfl
    · rw [Bool.not_eq_true] at hstart
      exact hstart ▸ hacq.of_updateEmpty

theorem isCurrent_iff (r : Room) (i : Nat) (conn : Conn) :
    r.isCurrent i conn = true ↔ (r.slot i).occupied = true ∧ (r.slot i).conn = some conn := by
  unfold Room.isCurrent
  constructor
  · intro h
    split at h
    · cases h
    · simpa using h
  · rintro ⟨hocc, hconn⟩
    have hlt := lt_of_conn hconn
    rw [if_neg (by simp [hlt])]
    simp [hocc, hconn]

def Slot.seenAt (now : Time) (t : Slot) : Slot := { t with lastSeenAt := now }

def Slot.freed (t : Slot) : Slot :=
  { t with occupied := false, conn := none, hasToken := false, tokenHash := zeroHash }

/-- The room after a message of player `i`. -/
def refreshed (r : Room) (i : Nat) (now : Time) : Room :=
  { r.modifySlot i (Slot.seenAt now) with lastActivity := now }

/-- The room after player `i` left, before anyone is told. -/
def freed (r : Room) (i : Nat) (now : Time) : Room :=
  { r.modifySlot i Slot.freed with lastActivity := now }

def noted (r : Room) (now : Time) : Room := { r with lastActivity := now }

theorem slot_refreshed (r : Room) (i j : Nat) (now : Time) :
    (refreshed r i now).slot j =
      if j = i ∧ i < r.slots.length then Slot.seenAt now (r.slot i) else r.slot j :=
  slot_modifySlot r i j (Slot.seenAt now)

theorem slot_freed (r : Room) (i j : Nat) (now : Time) :
    (freed r i now).slot j =
      if j = i ∧ i < r.slots.length then Slot.freed (r.slot i) else r.slot j :=
  slot_modifySlot r i j Slot.freed

@[simp] theorem conn_refreshed (r : Room) (i j : Nat) (now : Time) :
    ((refreshed r i now).slot j).conn = (r.slot j).conn := by
  rw [slot_refreshed]
  split_ifs with h
  · rw [h.1]
    rfl
  · rfl

theorem conn_freed {r : Room} {i j : Nat} {now : Time} {c : Conn}
    (h : ((freed r i now).slot j).conn = some c) : (r.slot j).conn = some c := by
  rw [slot_freed] at h
  split_ifs at h with hij
  · simp [Slot.freed] at h
  · exact h

theorem Distinct.refreshed {r : Room} (hd : Distinct r) (i : Nat) (now : Time) :
    Distinct (refreshed r i now) := hd.of_slots fun j c hc => by simpa using hc

theorem Distinct.freed {r : Room} (hd : Distinct r) (i : Nat) (now : Time) :
    Distinct (freed r i now) := hd.of_slots fun _ _ => conn_freed

inductive Act where
  | join (resumeToken : String) (conn : Conn)
  | claim (playerID : Int) (conn : Conn)
  | signal (playerID : Nat) (conn : Conn) (target : Int) (payload : String)
  | leave (playerID : Nat) (conn : Conn)
  | disconnect (playerID : Nat) (conn : Conn)
  | touch (playerID : Nat) (conn : Conn)

/-- The player and transport a per-session operation claims to act for. -/
def Act.session : Act → Option (Nat × Conn)
  | .join .. | .claim .. => none
  | .signal i conn .. | .leave i conn | .disconnect i conn | .touch i conn => some (i, conn)

inductive Outcome where
  | seated (id : Nat) | relayed | failed | done

def Current (r : Room) (i : Nat) (conn : Conn) : Prop :=
  r.destroyed = false ∧ (r.slot i).occupied = true ∧ (r.slot i).conn = some conn

/-- All that an operation can do to a room, with the conditions under which it
does it. -/
inductive Does (sha256 : String → TokenHash) (env : Env) (r : Room) :
    Act → Outcome → Room → List Out → Prop where
  | stale (a : Act) (i : Nat) (conn : Conn) (o : Outcome) :
      a.session = some (i, conn) → ¬Current r i conn → o = .failed ∨ o = .done →
      Does sha256 env r a o r []
  | barred (a : Act) : a.session = none → Does sha256 env r a .failed r []
  | rejected (a : Act) : a.session = none → Does sha256 env r a .failed (noted r env.now) []
  | touched (i : Nat) (conn : Conn) : Current r i conn →
      Does sha256 env r (.touch i conn) .done (refreshed r i env.now) []
  | unsent (i : Nat) (conn : Conn) (target : Int) (payload : String) : Current r i conn →
      Does sha256 env r (.signal i conn target payload) .failed (refreshed r i env.now) []
  | relayed (i : Nat) (conn : Conn) (dest : Nat) (c : Conn) (payload : String) :
      Current r i conn → dest ≠ i → (r.slot dest).conn = some c →
      Does sha256 env r (.signal i conn dest payload) .relayed (refreshed r i env.now)
        [.enqueue c (.signal i payload) true]
  | overflowed (i : Nat) (conn : Conn) (dest : Nat) (c : Conn) (payload : String)
      (out : List Out) (drops : List Nat) (e : Time) :
      Current r i conn → dest ≠ i → (r.slot dest).conn = some c →
      Says IsLeft out →
      (Distinct r → Delivered (refreshed r i env.now)
        (.enqueue c (.signal i payload) false :: .kick c .slowConsumer slowConsumerText :: out)
        (fun j => if j = dest then .signal i payload :: (dest :: drops).map leftMsg
          else (dest :: drops).map leftMsg) (dest :: drops)) →
      (Pending env r →
        Settled env (emptyAt (detachAll (refreshed r i env.now) (dest :: drops)) e)) →
      Does sha256 env r (.signal i conn dest payload) .failed
        (emptyAt (detachAll (refreshed r i env.now) (dest :: drops)) e)
        (.enqueue c (.signal i payload) false :: .kick c .slowConsumer slowConsumerText :: out)
  | freed (i : Nat) (conn : Conn) (out : List Out) (drops : List Nat) (e : Time) :
      Current r i conn → Says (fun m => m = .playerLeft i .explicit ∨ IsLeft m) out →
      (Distinct r → Delivered (freed r i env.now) out
        (fun _ => .playerLeft i .explicit :: drops.map leftMsg) drops) →
      (Pending env r → Settled env (emptyAt (detachAll (freed r i env.now) drops) e)) →
      Does sha256 env r (.leave i conn) .done
        (emptyAt (detachAll (freed r i env.now) drops) e) out
  | detached (i : Nat) (conn : Conn) (out : List Out) (drops : List Nat) (e : Time) :
      Current r i conn → Says IsLeft out →
      (Distinct r → Delivered (detachAll r [i]) out (fun _ => (i :: drops).map leftMsg) drops) →
      (Pending env r → Settled env (emptyAt (detachAll r (i :: drops)) e)) →
      Does sha256 env r (.disconnect i conn) .done
        (emptyAt (detachAll r (i :: drops)) e) out
  | resumed (id : Nat) (resumeToken token : String) (conn : Conn) (r' : Room) (out : List Out)
      (ok : Bool) (drops : List Nat) :
      r.destroyed = false → resumeToken ≠ "" → r.opts.allowReconnect = true →
      r.findToken sha256 resumeToken = some id → env.token = some token →
      Acquired env token id conn
        ((noted r env.now).modifySlot id (Slot.resumed conn (sha256 token) env.now)) false
        (.playerRejoined id false) r' out ok drops [] →
      Does sha256 env r (.join resumeToken conn) (.seated id) r'
        (displacedKick (r.slot id).conn .superseded supersededText ++ out)
  | occupied (a : Act) (id : Nat) (token : String) (conn : Conn) (r' : Room)
      (out : List Out) (ok : Bool) (d₁ d₂ : List Nat) :
      r.destroyed = false → id < r.slots.length → (r.slot id).occupied = false →
      env.token = some token →
      ((∃ resumeToken, a = .join resumeToken conn ∧
          (r.started = true → r.opts.allowLateJoin = true) ∧ Registry.freeSlot r = some id) ∨
        (a = .claim id conn ∧ r.opts.allowReplacement = true ∧
          r.opts.reconnectPolicy.allowsClaim = true)) →
      Acquired env token id conn
        ((noted r env.now).modifySlot id
          fun _ => Slot.occupiedBy conn (sha256 token) env.now).start
        ((noted r env.now).modifySlot id
          fun _ => Slot.occupiedBy conn (sha256 token) env.now).startsNow
        (.playerJoined id ((detachAll ((noted r env.now).modifySlot id
          fun _ => Slot.occupiedBy conn (sha256 token) env.now).start
            (refused ok id)).snapshot env.now)) r' out ok d₁ d₂ →
      Does sha256 env r a (.seated id) r' out
  | replaced (id : Nat) (token : String) (conn : Conn) (r' : Room) (out : List Out)
      (ok : Bool) (drops : List Nat) :
      r.destroyed = false → (r.slot id).occupied = true → r.opts.allowReplacement = true →
      r.opts.reconnectPolicy.allowsClaim = true →
      r.opts.claimAfter ≤ Time.sub env.now (r.slot id).lastSeenAt → env.token = some token →
      Acquired env token id conn
        ((noted r env.now).modifySlot id (Slot.replaced conn (sha256 token) env.now)) false
        (.playerReplaced id) r' out ok drops [] →
      Does sha256 env r (.claim id conn) (.seated id) r'
        (displacedKick (r.slot id).conn .replaced replacedText ++ out)

variable (sha256 : String → TokenHash)

theorem broadcast_settle (env : Env) (msg : Msg) (r : Room) (before : List Out) :
    ∃ out drops e, (broadcastLocked env msg none ⟨r, before⟩).updateEmpty env.now =
        ⟨emptyAt (detachAll r drops) e, before ++ out⟩ ∧
      Says (fun m => m = msg ∨ IsLeft m) out ∧
      (Distinct r → Delivered r out (fun _ => msg :: drops.map leftMsg) drops) ∧
      (Pending env r → Settled env (emptyAt (detachAll r drops) e)) := by
  obtain ⟨out, drops, t, heq, ht, hsaid, hdel⟩ := broadcastLocked_spec env msg none ⟨r, before⟩
  have hroom : ((detachAll r drops).updateEmpty t).updateEmpty env.now =
      emptyAt (detachAll r drops) (((detachAll r drops).updateEmpty t).updateEmpty
        env.now).emptySince := by
    rw [updateEmpty_eq ((detachAll r drops).updateEmpty t), updateEmpty_eq (detachAll r drops) t]
    rfl
  refine ⟨out, drops, (((detachAll r drops).updateEmpty t).updateEmpty env.now).emptySince,
    ?_, hsaid, fun hd => (hdel hd).congr fun i c _ => by simp [told], ?_⟩
  · rw [heq, Call.updateEmpty]
    exact congrArg (Call.mk · _) hroom
  · intro hp
    rw [← hroom]
    exact ((hp.detachAll drops).settled ht).pending.settled (.inl rfl)

theorem isLeft_of_left {i : Nat} (m : Msg) (h : m = leftMsg i ∨ IsLeft m) : IsLeft m := by
  rcases h with rfl | h
  · exact ⟨i, rfl⟩
  · exact h

theorem not_current {r : Room} {i : Nat} {conn : Conn}
    (h : (r.destroyed || !r.isCurrent i conn) = true) : ¬Current r i conn := by
  rintro ⟨hd, hcur⟩
  rw [hd, (isCurrent_iff r i conn).2 hcur] at h
  cases h

theorem current_of {r : Room} {i : Nat} {conn : Conn}
    (h : ¬(r.destroyed || !r.isCurrent i conn) = true) : Current r i conn := by
  rw [Bool.not_eq_true, Bool.or_eq_false_iff, Bool.not_eq_false'] at h
  exact ⟨h.1, (isCurrent_iff r i conn).1 h.2⟩

theorem touch_does (env : Env) (i : Nat) (conn : Conn) (s : Call) :
    ∃ r', touch env i conn s = ⟨r', s.out⟩ ∧
      Does sha256 env s.room (.touch i conn) .done r' [] := by
  unfold touch
  split_ifs with h
  · exact ⟨_, rfl, .stale _ i conn _ rfl (not_current h) (.inr rfl)⟩
  · exact ⟨_, rfl, .touched i conn (current_of h)⟩

theorem leave_does (env : Env) (i : Nat) (conn : Conn) (s : Call) :
    ∃ r' out, leave env i conn s = ⟨r', s.out ++ out⟩ ∧
      Does sha256 env s.room (.leave i conn) .done r' out := by
  unfold leave
  split_ifs with h
  · exact ⟨s.room, [], by simp, .stale _ i conn _ rfl (not_current h) (.inr rfl)⟩
  · obtain ⟨out, drops, e, heq, hsaid, hdel, hset⟩ := broadcast_settle env
      (.playerLeft i .explicit) (freed s.room i env.now) s.out
    exact ⟨_, out, heq, .freed i conn out drops e (current_of h) hsaid
      (fun hd => hdel (Distinct.freed hd i env.now)) hset⟩

theorem disconnect_does (env : Env) (i : Nat) (conn : Conn) (s : Call) :
    ∃ r' out, disconnect env i conn s = ⟨r', s.out ++ out⟩ ∧
      Does sha256 env s.room (.disconnect i conn) .done r' out := by
  unfold disconnect
  split_ifs with h
  · exact ⟨s.room, [], by simp, .stale _ i conn _ rfl (not_current h) (.inr rfl)⟩
  · obtain ⟨out, drops, e, heq, hsaid, hdel, hset⟩ := broadcast_settle env
      (leftMsg i) (detachAll s.room [i]) s.out
    rw [detachAll_append] at heq hset
    refine ⟨_, out, ?_, .detached i conn out drops e (current_of h)
      (hsaid.mono isLeft_of_left) (fun hd => hdel (hd.detachAll [i]))
      fun hp => hset (hp.detachAll [i])⟩
    rw [← modifySlot_clearConn] at heq
    exact heq

theorem relay_does (env : Env) (r : Room) (before : List Out) (i : Nat) (conn : Conn)
    (target : Int) (payload : String) (hcur : Current r i conn) :
    ∃ r' out o, (relay env i target payload ⟨refreshed r i env.now, before⟩).1 =
        ⟨r', before ++ out⟩ ∧
      Does sha256 env r (.signal i conn target payload) o r' out ∧
      (o = .relayed ↔ (relay env i target payload ⟨refreshed r i env.now, before⟩).2 = .ok ()) := by
  have hunsent : Does sha256 env r (.signal i conn target payload) .failed
    (refreshed r i env.now) [] := .unsent i conn target payload hcur
  unfold relay
  by_cases hself : target = i
  · simp only [hself, if_true]
    exact ⟨_, [], .failed, by simp, hself ▸ hunsent, by simp⟩
  rw [if_neg hself]
  by_cases hrange : target < 0 ∨ target ≥ (refreshed r i env.now).slots.length
  · simp only [hrange, if_true]
    exact ⟨_, [], .failed, by simp, hunsent, by simp⟩
  rw [if_neg hrange]
  obtain ⟨dest, rfl⟩ : ∃ dest : Nat, target = dest := ⟨target.toNat, by omega⟩
  have hne : dest ≠ i := fun h => hself (by rw [h])
  simp only [Int.toNat_natCast]
  by_cases hocc : ((refreshed r i env.now).slot dest).occupied = false
  · simp only [hocc, if_true]
    exact ⟨_, [], .failed, by simp, hunsent, by simp⟩
  rw [if_neg hocc]
  cases hc : ((refreshed r i env.now).slot dest).conn with
  | none => exact ⟨_, [], .failed, by simp, hunsent, by simp⟩
  | some c =>
    rw [conn_refreshed] at hc
    simp only [Call.accepts]
    by_cases hok : env.accepts before.length = true
    · simp only [hok, if_true]
      refine ⟨refreshed r i env.now, [.enqueue c (.signal i payload) true], .relayed, ?_,
        .relayed i conn dest c payload hcur hne hc, by simp⟩
      simp [Call.enqueue, Call.accepts, hok]
    · simp only [hok, if_false, Bool.false_eq_true]
      let before' := before ++ [.enqueue c (.signal i payload) false,
        .kick c .slowConsumer slowConsumerText]
      obtain ⟨out, drops, e, heq, hsaid, hdel, hset⟩ := broadcast_settle env (leftMsg dest)
        (detachAll (refreshed r i env.now) [dest]) before'
      rw [detachAll_append] at heq hset
      refine ⟨_, _, .failed, ?_, .overflowed i conn dest c payload out drops e hcur hne hc
        (hsaid.mono isLeft_of_left) ?_ fun hp => hset (Pending.detachAll hp [dest]), by simp⟩
      · rw [← modifySlot_clearConn] at heq
        simpa [before', Call.enqueue, Call.kick, Call.modifySlot, Call.accepts, hok] using heq
      · intro hd
        have hd' := Distinct.refreshed hd i env.now
        have hc' : ((refreshed r i env.now).slot dest).conn = some c := by rwa [conn_refreshed]
        refine ((delivered_refuse hd' (.signal i payload) hc').trans hd'
          (hdel (hd'.detachAll [dest]))).congr fun j _ _ => ?_
        by_cases hj : j = dest <;> simp [hj]

theorem signal_does (env : Env) (i : Nat) (conn : Conn) (target : Int) (payload : String)
    (s : Call) :
    ∃ r' out o, (signal env i conn target payload s).1 = ⟨r', s.out ++ out⟩ ∧
      Does sha256 env s.room (.signal i conn target payload) o r' out ∧
      (o = .relayed ↔ (signal env i conn target payload s).2 = .ok ()) := by
  have hstale (h : ¬Current s.room i conn) :
      Does sha256 env s.room (.signal i conn target payload) .failed s.room [] :=
    .stale _ i conn _ rfl h (.inl rfl)
  unfold signal
  by_cases hdes : s.room.destroyed = true
  · rw [if_pos hdes]
    exact ⟨s.room, [], .failed, by simp, hstale fun h => by simp [h.1] at hdes, by simp⟩
  rw [if_neg hdes]
  by_cases hcur : s.room.isCurrent i conn = true
  · rw [if_neg (by simpa using hcur)]
    exact relay_does sha256 env s.room s.out i conn target payload
      ⟨by simpa using hdes, (isCurrent_iff ..).1 hcur⟩
  · rw [if_pos (by simpa using hcur)]
    exact ⟨s.room, [], .failed, by simp, hstale fun h => hcur ((isCurrent_iff ..).2 h.2), by simp⟩

@[simp] theorem slot_activity (s : Call) (now : Time) (i : Nat) :
    (s.activity now).room.slot i = s.room.slot i := rfl

@[simp] theorem opts_activity (s : Call) (now : Time) :
    (s.activity now).room.opts = s.room.opts := rfl

@[simp] theorem out_activity (s : Call) (now : Time) : (s.activity now).out = s.out := rfl

theorem findToken_lt {r : Room} {token : String} {id : Nat}
    (h : r.findToken sha256 token = some id) :
    id < r.slots.length ∧ (r.slot id).holdsToken (sha256 token) = true := by
  obtain ⟨hlt, hp, -⟩ := List.findIdx?_eq_some_iff_getElem.1 h
  exact ⟨hlt, by rwa [slot_of_lt r hlt]⟩

theorem freeSlot_lt {r : Room} {id : Nat} (h : Registry.freeSlot r = some id) :
    id < r.slots.length ∧ (r.slot id).occupied = false ∧
      ∀ j : Nat, j < id → (r.slot j).occupied = true := by
  obtain ⟨hlt, hp, hmin⟩ := List.findIdx?_eq_some_iff_getElem.1 h
  refine ⟨hlt, by rw [slot_of_lt r hlt]; simpa using hp, ?_⟩
  intro j hj
  rw [slot_of_lt r (Nat.lt_trans hj hlt)]
  simpa using hmin j hj

theorem freshJoin_does (env : Env) (code resumeToken : String) (conn : Conn) (r : Room)
    (before : List Out) (hdes : r.destroyed = false) :
    ∃ r' out o, (Registry.freshJoin sha256 env code conn ⟨noted r env.now, before⟩).1 =
        ⟨r', before ++ out⟩ ∧ Does sha256 env r (.join resumeToken conn) o r' out ∧
      ∀ id, o = .seated id ↔
        (Registry.freshJoin sha256 env code conn ⟨noted r env.now, before⟩).2 = .ok id := by
  have hrejected : Does sha256 env r (.join resumeToken conn) .failed (noted r env.now) [] :=
    .rejected _ rfl
  unfold Registry.freshJoin
  split_ifs with hstart
  · exact ⟨_, [], .failed, by simp, hrejected, by simp⟩
  cases hfree : Registry.freeSlot (noted r env.now) with
  | none => exact ⟨_, [], .failed, by simp, hrejected, by simp⟩
  | some id =>
    simp only
    obtain ⟨hlt, hocc, -⟩ := freeSlot_lt hfree
    cases ht : env.token with
    | none =>
      simp only [occupyLocked, newToken, ht, Option.map_none]
      exact ⟨_, [], .failed, by simp, hrejected, by simp⟩
    | some token =>
      obtain ⟨r', out, ok, d₁, d₂, heq, hacq⟩ := occupyLocked_spec sha256 env id conn
        ⟨noted r env.now, before⟩ ht hlt
      refine ⟨r', out, .seated id, by rw [heq], .occupied _ id token conn r' out ok d₁ d₂ hdes
        hlt hocc ht (.inl ⟨resumeToken, rfl, ?_, hfree⟩) hacq, ?_⟩
      · intro h
        change (r.started && !r.opts.allowLateJoin) ≠ true at hstart
        simpa [h] using hstart
      · intro k
        rw [heq]
        simp

theorem joinRoom_does (env : Env) (appID code resumeToken : String) (conn : Conn) (s : Call) :
    ∃ r' out o, (Registry.joinRoom sha256 env appID code resumeToken conn s).1 =
        ⟨r', s.out ++ out⟩ ∧ Does sha256 env s.room (.join resumeToken conn) o r' out ∧
      ∀ id, o = .seated id ↔
        (Registry.joinRoom sha256 env appID code resumeToken conn s).2 = .ok id := by
  have hbarred : Does sha256 env s.room (.join resumeToken conn) .failed s.room [] :=
    .barred _ rfl
  unfold Registry.joinRoom
  by_cases hdes : s.room.destroyed = true
  · rw [if_pos hdes]
    exact ⟨_, [], .failed, by simp, hbarred, by simp⟩
  rw [if_neg hdes]
  by_cases happ : s.room.appID ≠ appID
  · rw [if_pos happ]
    exact ⟨_, [], .failed, by simp, hbarred, by simp⟩
  rw [if_neg happ]
  simp only
  by_cases hresume : resumeToken ≠ "" ∧ (s.activity env.now).room.opts.allowReconnect = true
  · rw [if_pos hresume]
    cases hfind : (noted s.room env.now).findToken sha256 resumeToken with
    | none =>
      have hfind' : (s.activity env.now).room.findToken sha256 resumeToken = none := hfind
      rw [hfind']
      exact freshJoin_does sha256 env code resumeToken conn s.room s.out (by simpa using hdes)
    | some id =>
      have hfind' : (s.activity env.now).room.findToken sha256 resumeToken = some id := hfind
      rw [hfind']
      simp only
      cases ht : env.token with
      | none =>
        simp only [resumeLocked, newToken, ht, Option.map_none]
        exact ⟨noted s.room env.now, [], .failed, by simp [Call.activity, noted],
          .rejected _ rfl, by simp⟩
      | some token =>
        obtain ⟨r', out, ok, d₁, d₂, heq, hacq⟩ := resumeLocked_spec sha256 env id conn
          (s.activity env.now) ht (findToken_lt sha256 hfind).1
        obtain rfl := hacq.quiet rfl
        refine ⟨r', _, .seated id, ?_, .resumed id resumeToken token conn r' out ok d₁
          (by simpa using hdes) hresume.1 hresume.2 hfind ht hacq, ?_⟩
        · rw [heq]
          simp [Call.activity, List.append_assoc, Room.slot]
        · intro k
          rw [heq]
          simp
  · rw [if_neg hresume]
    exact freshJoin_does sha256 env code resumeToken conn s.room s.out (by simpa using hdes)

theorem claimRoom_does (env : Env) (appID code : String) (playerID : Int) (conn : Conn)
    (s : Call) :
    ∃ r' out o, (Registry.claimRoom sha256 env appID code playerID conn s).1 =
        ⟨r', s.out ++ out⟩ ∧ Does sha256 env s.room (.claim playerID conn) o r' out ∧
      ∀ id, o = .seated id ↔
        (Registry.claimRoom sha256 env appID code playerID conn s).2 = .ok id := by
  have hbarred : Does sha256 env s.room (.claim playerID conn) .failed s.room [] :=
    .barred _ rfl
  have hrejected : Does sha256 env s.room (.claim playerID conn) .failed
    (s.activity env.now).room [] := .rejected _ rfl
  unfold Registry.claimRoom
  by_cases hdes : s.room.destroyed = true
  · rw [if_pos hdes]
    exact ⟨_, [], .failed, by simp, hbarred, by simp⟩
  rw [if_neg hdes]
  rw [Bool.not_eq_true] at hdes
  by_cases happ : s.room.appID ≠ appID
  · rw [if_pos happ]
    exact ⟨_, [], .failed, by simp, hbarred, by simp⟩
  rw [if_neg happ]
  simp only
  by_cases hrange : playerID < 0 ∨ playerID ≥ (s.activity env.now).room.slots.length
  · rw [if_pos hrange]
    exact ⟨_, [], .failed, by simp [Call.activity], hrejected, by simp⟩
  rw [if_neg hrange]
  obtain ⟨id, rfl⟩ : ∃ id : Nat, playerID = id := ⟨playerID.toNat, by omega⟩
  have hlt : id < (s.activity env.now).room.slots.length := by omega
  split_ifs with hpolicy hocc hsilent
  · exact ⟨_, [], .failed, by simp [Call.activity], hrejected, by simp⟩
  · simp only [Int.toNat_natCast] at hocc ⊢
    rw [Bool.or_eq_true, not_or] at hpolicy
    cases ht : env.token with
    | none =>
      simp only [occupyLocked, newToken, ht, Option.map_none]
      exact ⟨_, [], .failed, by simp [Call.activity], hrejected, by simp⟩
    | some token =>
      obtain ⟨r', out, ok, d₁, d₂, heq, hacq⟩ := occupyLocked_spec sha256 env id conn
        (s.activity env.now) ht hlt
      refine ⟨r', out, .seated id, by rw [heq]; rfl, .occupied _ id token conn r' out ok d₁ d₂
        hdes hlt (by simpa using hocc) ht (.inr ⟨rfl, ?_, ?_⟩) hacq, ?_⟩
      · simpa using hpolicy.1
      · simpa using hpolicy.2
      · intro k
        rw [heq]
        simp
  · exact ⟨_, [], .failed, by simp [Call.activity], hrejected, by simp⟩
  · simp only [Int.toNat_natCast] at hocc hsilent ⊢
    rw [Bool.or_eq_true, not_or] at hpolicy
    cases ht : env.token with
    | none =>
      simp only [replaceLocked, newToken, ht, Option.map_none]
      exact ⟨_, [], .failed, by simp [Call.activity], hrejected, by simp⟩
    | some token =>
      obtain ⟨r', out, ok, d₁, d₂, heq, hacq⟩ := replaceLocked_spec sha256 env id conn
        (s.activity env.now) ht hlt
      obtain rfl := hacq.quiet rfl
      refine ⟨r', _, .seated id, ?_, .replaced id token conn r' out ok d₁ hdes
        (by simpa using hocc) (by simpa using hpolicy.1) (by simpa using hpolicy.2)
        (Int.not_lt.1 hsilent) ht hacq, ?_⟩
      · rw [heq]
        simp [Call.activity, List.append_assoc, Room.slot]
      · intro k
        rw [heq]
        simp

end Lobbylink.Server.Operations
