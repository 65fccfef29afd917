import Lobbylink.Server.Effects

/-! One operation seen from one slot, and from the fields a room never changes.
What an operation may do to a slot is said once here; the invariants of the
lobby are read off it. -/
namespace Lobbylink.Server.Slots
open Protocol Lobby Registry Fanout Operations Effects

/-- All that an operation can leave in slot `i`, and why. A slow consumer's
transport can be cleared on top of anything else. -/
inductive SlotStep (sha256 : String → TokenHash) (env : Env) (r : Room) (a : Act)
    (o : Outcome) (i : Nat) : Slot → Prop where
  | kept : SlotStep sha256 env r a o i (r.slot i)
  | seen (conn : Conn) : Current r i conn → a.session = some (i, conn) →
      SlotStep sha256 env r a o i (Slot.seenAt env.now (r.slot i))
  | freed (conn : Conn) : Current r i conn → a = .leave i conn →
      SlotStep sha256 env r a o i (Slot.freed (r.slot i))
  | resumed (conn : Conn) (resumeToken token : String) :
      a = .join resumeToken conn → o = .seated i → r.destroyed = false → resumeToken ≠ "" →
      r.opts.allowReconnect = true → r.findToken sha256 resumeToken = some i →
      env.token = some token →
      SlotStep sha256 env r a o i (Slot.resumed conn (sha256 token) env.now (r.slot i))
  | occupied (conn : Conn) (token : String) :
      o = .seated i → r.destroyed = false → (r.slot i).occupied = false →
      env.token = some token →
      ((∃ resumeToken, a = .join resumeToken conn ∧
          (r.started = true → r.opts.allowLateJoin = true) ∧ freeSlot r = some i) ∨
        (a = .claim i conn ∧ r.opts.allowReplacement = true ∧
          r.opts.reconnectPolicy.allowsClaim = true)) →
      SlotStep sha256 env r a o i (Slot.occupiedBy conn (sha256 token) env.now)
  | replaced (conn : Conn) (token : String) :
      a = .claim i conn → o = .seated i → r.destroyed = false → (r.slot i).occupied = true →
      r.opts.allowReplacement = true → r.opts.reconnectPolicy.allowsClaim = true →
      r.opts.claimAfter ≤ Time.sub env.now (r.slot i).lastSeenAt → env.token = some token →
      SlotStep sha256 env r a o i (Slot.replaced conn (sha256 token) env.now (r.slot i))
  | dropped (t : Slot) : SlotStep sha256 env r a o i t → SlotStep sha256 env r a o i t.clearConn

variable {sha256 : String → TokenHash} {env : Env}

theorem slotStep_detached {r : Room} {a : Act} {o : Outcome} {i : Nat} {q : Room}
    (h : SlotStep sha256 env r a o i (q.slot i)) (ids : List Nat) :
    SlotStep sha256 env r a o i ((detachAll q ids).slot i) := by
  rw [slot_detachAll]
  split_ifs
  · exact .dropped _ h
  · exact h

theorem slotStep_refreshed {r : Room} {a : Act} {o : Outcome} {j : Nat} {conn : Conn} (i : Nat)
    (hcur : Current r j conn) (ha : a.session = some (j, conn)) :
    SlotStep sha256 env r a o i ((refreshed r j env.now).slot i) := by
  rw [slot_refreshed]
  split_ifs with h
  · obtain ⟨rfl, -⟩ := h
    exact .seen conn hcur ha
  · exact .kept

theorem slotStep_acquired {r q : Room} {a : Act} {o : Outcome} {i id : Nat} {token : String}
    {conn : Conn} {startedNow ok : Bool} {announced : Msg} {r' : Room} {out : List Out}
    {d₁ d₂ : List Nat} {f : Slot → Slot}
    (hacq : Acquired env token id conn q startedNow announced r' out ok d₁ d₂)
    (hq : ∀ j, q.slot j = if j = id then f (r.slot id) else r.slot j)
    (hid : SlotStep sha256 env r a o id (f (r.slot id))) :
    SlotStep sha256 env r a o i (r'.slot i) := by
  rw [hacq.room, slot_emptyAt]
  refine slotStep_detached ?_ _
  rw [hq]
  split_ifs with h
  · subst h
    exact hid
  · exact .kept

theorem slot_start (r : Room) (i : Nat) : r.start.slot i = r.slot i := by
  unfold Room.start
  split_ifs <;> rfl

theorem slot_written {r : Room} {id : Nat} (hid : id < r.slots.length) (f : Slot → Slot)
    (now : Time) (j : Nat) :
    ((noted r now).modifySlot id f).slot j = if j = id then f (r.slot id) else r.slot j := by
  rw [slot_modifySlot]
  have hlt : id < (noted r now).slots.length := hid
  simp only [hlt, and_true]
  rfl

theorem does_slot {r r' : Room} {a : Act} {o : Outcome} {out : List Out}
    (h : Does sha256 env r a o r' out) (i : Nat) : SlotStep sha256 env r a o i (r'.slot i) := by
  cases h with
  | stale | barred | rejected => exact .kept
  | touched j conn hcur => exact slotStep_refreshed i hcur rfl
  | unsent j conn target payload hcur => exact slotStep_refreshed i hcur rfl
  | relayed j conn dest c payload hcur => exact slotStep_refreshed i hcur rfl
  | overflowed j conn dest c payload out drops e hcur =>
    rw [slot_emptyAt]
    exact slotStep_detached (slotStep_refreshed i hcur rfl) _
  | freed j conn out drops e hcur =>
    rw [slot_emptyAt]
    refine slotStep_detached ?_ _
    rw [slot_freed]
    split_ifs with hij
    · obtain ⟨rfl, -⟩ := hij
      exact .freed conn hcur rfl
    · exact .kept
  | detached j conn out drops e hcur =>
    rw [slot_emptyAt]
    exact slotStep_detached .kept _
  | resumed id resumeToken token conn r' out ok drops hdes hne hallow hfind ht hacq =>
    exact slotStep_acquired hacq (slot_written (findToken_lt sha256 hfind).1 _ _)
      (.resumed conn resumeToken token rfl rfl hdes hne hallow hfind ht)
  | occupied a id token conn r' out ok d₁ d₂ hdes hlt hocc ht hwhy hacq =>
    refine slotStep_acquired hacq (f := fun _ => Slot.occupiedBy conn (sha256 token) env.now)
      (fun j => ?_) (.occupied conn token rfl hdes hocc ht hwhy)
    rw [slot_start]
    exact slot_written hlt _ _ j
  | replaced id token conn r' out ok drops hdes hocc hallow hpolicy hsilent ht hacq =>
    exact slotStep_acquired hacq (slot_written (lt_of_occupied hocc) _ _)
      (.replaced conn token rfl rfl hdes hocc hallow hpolicy hsilent ht)

/-- What an operation leaves of a room besides its slots and its timestamps. -/
structure SameRoom (r r' : Room) : Prop where
  destroyed : r'.destroyed = r.destroyed
  code : r'.code = r.code
  appID : r'.appID = r.appID
  opts : r'.opts = r.opts
  createdAt : r'.createdAt = r.createdAt
  length : r'.slots.length = r.slots.length

theorem SameRoom.refl (r : Room) : SameRoom r r := ⟨rfl, rfl, rfl, rfl, rfl, rfl⟩

theorem SameRoom.emptyAt_detachAll {r q : Room} (h : SameRoom r q) (ids : List Nat) (e : Time) :
    SameRoom r (emptyAt (detachAll q ids) e) where
  destroyed := h.destroyed
  code := h.code
  appID := h.appID
  opts := h.opts
  createdAt := h.createdAt
  length := by simpa using h.length

theorem SameRoom.acquired {r q : Room} (h : SameRoom r q) {token : String} {id : Nat}
    {conn : Conn} {startedNow ok : Bool} {announced : Msg} {r' : Room} {out : List Out}
    {d₁ d₂ : List Nat}
    (hacq : Acquired env token id conn q startedNow announced r' out ok d₁ d₂) :
    SameRoom r r' := by
  rw [hacq.room]
  exact h.emptyAt_detachAll _ _

theorem sameRoom_modifySlot (r : Room) (now : Time) (i : Nat) (f : Slot → Slot) :
    SameRoom r ((noted r now).modifySlot i f) :=
  ⟨rfl, rfl, rfl, rfl, rfl, length_modifySlot ..⟩

theorem SameRoom.start {r q : Room} (h : SameRoom r q) : SameRoom r q.start := by
  unfold Room.start
  split_ifs
  · exact ⟨h.destroyed, h.code, h.appID, h.opts, h.createdAt, h.length⟩
  · exact h

theorem sameRoom_refreshed (r : Room) (i : Nat) (now : Time) : SameRoom r (refreshed r i now) :=
  ⟨rfl, rfl, rfl, rfl, rfl, length_modifySlot ..⟩

theorem sameRoom_freed (r : Room) (i : Nat) (now : Time) : SameRoom r (Operations.freed r i now) :=
  ⟨rfl, rfl, rfl, rfl, rfl, length_modifySlot ..⟩

theorem does_sameRoom {r r' : Room} {a : Act} {o : Outcome} {out : List Out}
    (h : Does sha256 env r a o r' out) : SameRoom r r' := by
  cases h with
  | stale | barred => exact .refl r
  | rejected => exact ⟨rfl, rfl, rfl, rfl, rfl, rfl⟩
  | touched | unsent | relayed => exact sameRoom_refreshed ..
  | overflowed => exact (sameRoom_refreshed ..).emptyAt_detachAll _ _
  | freed => exact (sameRoom_freed ..).emptyAt_detachAll _ _
  | detached => exact (SameRoom.refl r).emptyAt_detachAll _ _
  | resumed _ _ _ _ _ _ _ _ _ _ _ _ _ hacq => exact (sameRoom_modifySlot ..).acquired hacq
  | occupied _ _ _ _ _ _ _ _ _ _ _ _ _ _ hacq =>
    exact (sameRoom_modifySlot ..).start.acquired hacq
  | replaced _ _ _ _ _ _ _ _ _ _ _ _ _ hacq => exact (sameRoom_modifySlot ..).acquired hacq

def joining : Act → Option Conn
  | .join _ conn | .claim _ conn => some conn
  | _ => none

theorem slotStep_conn {r : Room} {a : Act} {o : Outcome} {i : Nat} {t : Slot}
    (h : SlotStep sha256 env r a o i t) {c : Conn} (hc : t.conn = some c) :
    (r.slot i).conn = some c ∨ joining a = some c ∧ o = .seated i := by
  induction h with
  | kept | seen => exact .inl hc
  | freed => cases hc
  | resumed conn _ _ ha ho => exact .inr ⟨by rw [ha, ← hc]; rfl, ho⟩
  | occupied conn _ ho _ _ _ hwhy =>
    refine .inr ⟨?_, ho⟩
    rcases hwhy with ⟨tok, rfl, -⟩ | ⟨rfl, -⟩ <;> exact hc
  | replaced conn _ ha ho => exact .inr ⟨by rw [ha, ← hc]; rfl, ho⟩
  | dropped => cases hc

/-- A transport is attached to occupied slots of live rooms only. -/
def Sound (r : Room) : Prop :=
  ∀ i c, (r.slot i).conn = some c → (r.slot i).occupied = true ∧ r.destroyed = false

theorem Sound.current {r : Room} (h : Sound r) {i : Nat} {c : Conn}
    (hc : (r.slot i).conn = some c) : Current r i c := ⟨(h i c hc).2, (h i c hc).1, hc⟩

theorem Sound.unoccupied {r : Room} (h : Sound r) {i : Nat} (hi : (r.slot i).occupied = false) :
    (r.slot i).conn = none := by
  by_contra hne
  obtain ⟨c, hc⟩ := Option.ne_none_iff_exists'.1 hne
  rw [(h i c hc).1] at hi
  cases hi

theorem findToken_occupied {r : Room} {token : String} {i : Nat}
    (h : r.findToken sha256 token = some i) : (r.slot i).occupied = true := by
  have hold := (findToken_lt sha256 h).2
  simp only [Slot.holdsToken, Bool.and_eq_true] at hold
  exact hold.1.1

theorem slotStep_occupied {r : Room} (hs : Sound r) {a : Act} {o : Outcome} {i : Nat} {t : Slot}
    (h : SlotStep sha256 env r a o i t) (ht : t.conn.isSome) : t.occupied = true := by
  induction h with
  | kept =>
    obtain ⟨c, hc⟩ := Option.isSome_iff_exists.1 ht
    exact (hs i c hc).1
  | seen conn hcur => exact hcur.2.1
  | freed => simp [Slot.freed] at ht
  | resumed _ _ _ _ _ _ _ _ hfind => exact findToken_occupied hfind
  | occupied => rfl
  | replaced _ _ _ _ _ hocc => exact hocc
  | dropped => simp [Slot.clearConn] at ht

theorem slotStep_alive {r : Room} (hs : Sound r) {a : Act} {o : Outcome} {i : Nat} {t : Slot}
    (h : SlotStep sha256 env r a o i t) (ht : t.conn.isSome) : r.destroyed = false := by
  induction h with
  | kept =>
    obtain ⟨c, hc⟩ := Option.isSome_iff_exists.1 ht
    exact (hs i c hc).2
  | seen conn hcur => exact hcur.1
  | freed => simp [Slot.freed] at ht
  | resumed _ _ _ _ _ hdes => exact hdes
  | occupied _ _ _ hdes => exact hdes
  | replaced _ _ _ _ hdes => exact hdes
  | dropped => simp [Slot.clearConn] at ht

theorem does_sound {r r' : Room} {a : Act} {o : Outcome} {out : List Out}
    (h : Does sha256 env r a o r' out) (hs : Sound r) : Sound r' := by
  intro i c hc
  have hstep := does_slot h i
  have hsome : (r'.slot i).conn.isSome := by rw [hc]; rfl
  exact ⟨slotStep_occupied hs hstep hsome,
    (does_sameRoom h).destroyed.trans (slotStep_alive hs hstep hsome)⟩

theorem sound_closed (r : Room) : Sound (closed r) := by
  intro i c hc
  rw [slot_closed] at hc
  cases hc

theorem sound_newRoom (appID code : String) (opts : RoomOptions) (now : Time) :
    Sound (newRoom appID code opts now) := by
  intro i c hc
  rw [slot_newRoom] at hc
  cases hc

def opAct : Op → Option Act
  | .join _ _ resumeToken _ conn => some (.join resumeToken conn)
  | .claim _ _ playerID conn => some (.claim playerID conn)
  | .signal sess conn target payload => some (.signal sess.playerID conn target payload)
  | .leave sess conn => some (.leave sess.playerID conn)
  | .disconnect sess conn => some (.disconnect sess.playerID conn)
  | .touch sess conn => some (.touch sess.playerID conn)
  | .gc => none

def opJoining (op : Op) : Option Conn := (opAct op).bind joining

/-- Room `ref` as an operation finds it: a room it creates is new. -/
def Found (m : Manager) (ref : Nat) (now : Time) (r : Room) : Prop :=
  ref < m.heap.length ∧ r = m.room ref ∨
    ref = m.heap.length ∧ ∃ appID code opts, r = newRoom appID code opts now

inductive RoomStep (sha256 : String → TokenHash) (env : Env) (m : Manager) (op : Op)
    (res : Result) (ref : Nat) : Prop where
  | idle : res.manager.room ref = m.room ref → RoomStep sha256 env m op res ref
  | closed : m.limits.expired env.now (m.room ref) = true →
      res.manager.room ref = closed (m.room ref) → RoomStep sha256 env m op res ref
  | does (r : Room) (a : Act) (o : Outcome) (swept out : List Out) :
      Found m ref env.now r → opAct op = some a →
      Does sha256 env r a o (res.manager.room ref) out → Answers ref o res.reply →
      Silent swept → res.out = swept ++ out → RoomStep sha256 env m op res ref

theorem reaches_opAct {m : Manager} {op : Op} {ref : Nat} {a : Act} (h : Reaches m op ref a) :
    opAct op = some a := by
  cases h <;> rfl

theorem apply_reached (sha256 : String → TokenHash) (env : Env) {m : Manager} {op : Op} {ref : Nat}
    {a : Act} (h : Reaches m op ref a) :
    ∃ ref' r', SameRoom (m.room ref') r' ∧
      (m.apply sha256 env op).manager = m.setRoom ref' r' := by
  have heff := apply_effect sha256 env m op
  generalize m.apply sha256 env op = res at heff ⊢
  cases heff with
  | declined m' out reply hno => exact absurd h (hno ref a)
  | reached ref' a' o r' out reply hreach hdoes => exact ⟨ref', r', does_sameRoom hdoes, rfl⟩
  | created m₁ swept a' o r' out reply hmake =>
    cases hmake with
    | join appID code resumeToken opts conn m₀ _ hlook =>
      cases h with
      | join _ _ _ _ _ _ hfound =>
        rw [hlook] at hfound
        cases hfound

theorem swept_room {m m' : Manager} {out : List Out} {op : Op} {res : Result} {ref : Nat}
    (h : Swept env.now m m' out) (hres : res.manager.room ref = m'.room ref) :
    RoomStep sha256 env m op res ref := by
  rcases h.rooms ref with hr | ⟨hexp, hr⟩
  · exact .idle (hres.trans hr)
  · exact .closed hexp (hres.trans hr)

theorem effect_room {m : Manager} {op : Op} {res : Result} (h : Effect sha256 env m op res)
    (ref : Nat) : RoomStep sha256 env m op res ref := by
  cases h with
  | declined m' out reply _ hswept => exact swept_room hswept rfl
  | reached at' a o r' out reply hreach hdoes hans =>
    by_cases href : ref = at' ∧ at' < m.heap.length
    · obtain ⟨rfl, hlt⟩ := href
      have hroom : (m.setRoom ref r').room ref = r' := by
        rw [room_setRoom, if_pos ⟨rfl, hlt⟩]
      exact .does (m.room ref) a o [] out (.inl ⟨hlt, rfl⟩) (reaches_opAct hreach)
        (by simpa only [hroom] using hdoes) hans (by simp [Silent]) rfl
    · exact .idle (by simp only [room_setRoom, if_neg href])
  | created m₁ swept a o r' out reply hmake hdoes hans =>
    cases hmake with
    | join appID code resumeToken opts conn m₀ _ hlook hswept =>
      have hlen : m.heap.length < (m₀.create (newRoom appID code opts env.now)).1.heap.length := by
        simp [Manager.create, hswept.length]
      by_cases href : ref = m.heap.length
      · subst href
        have hnew : (m₀.create (newRoom appID code opts env.now)).1.room m.heap.length =
            newRoom appID code opts env.now := by rw [room_create, if_pos hswept.length.symm]
        have hroom : ((m₀.create (newRoom appID code opts env.now)).1.setRoom m.heap.length
            r').room m.heap.length = r' := by rw [room_setRoom, if_pos ⟨rfl, hlen⟩]
        exact .does _ _ o swept out (.inr ⟨rfl, appID, code, opts, rfl⟩) rfl
          (by rw [hnew] at hdoes; simpa only [hroom] using hdoes) hans hswept.silent rfl
      · refine swept_room hswept ?_
        simp only [room_setRoom, href, false_and, if_false]
        rw [room_create, if_neg (by rw [hswept.length]; exact href)]

theorem apply_room (sha256 : String → TokenHash) (env : Env) (m : Manager) (op : Op) (ref : Nat) :
    RoomStep sha256 env m op (m.apply sha256 env op) ref := effect_room (apply_effect ..) ref

theorem found_slot {m : Manager} {ref : Nat} {now : Time} {r : Room} (h : Found m ref now r)
    (i : Nat) : r.slot i = (m.room ref).slot i := by
  rcases h with ⟨-, rfl⟩ | ⟨href, appID, code, opts, rfl⟩
  · rfl
  · rw [slot_newRoom, room_of_ge m (Nat.le_of_eq href.symm), slot_absent]

theorem found_sound {m : Manager} {ref : Nat} {now : Time} {r : Room} (h : Found m ref now r)
    (hs : Sound (m.room ref)) : Sound r := by
  rcases h with ⟨-, rfl⟩ | ⟨-, appID, code, opts, rfl⟩
  · exact hs
  · exact sound_newRoom appID code opts now

theorem roomStep_sound {m : Manager} {op : Op} {res : Result} {ref : Nat}
    (h : RoomStep sha256 env m op res ref) (hs : Sound (m.room ref)) :
    Sound (res.manager.room ref) := by
  cases h with
  | idle heq => rwa [heq]
  | closed _ heq =>
    rw [heq]
    exact sound_closed _
  | does r a o swept out hfound _ hdoes => exact does_sound hdoes (found_sound hfound hs)

theorem slotStep_freed {r : Room} {a : Act} {o : Outcome} {i : Nat} {t : Slot}
    (h : SlotStep sha256 env r a o i t) (hwas : (r.slot i).occupied = true)
    (hnow : t.occupied = false) : ∃ conn, a = .leave i conn ∧ Current r i conn := by
  induction h with
  | freed conn hcur ha => exact ⟨conn, ha, hcur⟩
  | kept | seen | resumed | replaced => exact absurd (hwas.symm.trans hnow) (by simp)
  | occupied => cases hnow
  | dropped t _ ih => exact ih hnow

/-- A slot is freed only by a leave of the transport attached to it. -/
theorem effect_freed {m : Manager} {op : Op} {res : Result} (h : Effect sha256 env m op res)
    {ref i : Nat} (hwas : ((m.room ref).slot i).occupied = true)
    (hnow : ((res.manager.room ref).slot i).occupied = false) :
    ∃ conn, op = .leave ⟨ref, i⟩ conn ∧ Current (m.room ref) i conn := by
  have hidle : ∀ {m' : Manager} {out : List Out}, Swept env.now m m' out →
      ((m'.room ref).slot i).occupied = true := by
    intro m' out hswept
    rcases hswept.rooms ref with hr | ⟨-, hr⟩
    · rwa [hr]
    · rw [hr, slot_closed]
      exact hwas
  cases h with
  | declined m' out reply _ hswept => exact absurd ((hidle hswept).symm.trans hnow) (by simp)
  | reached at' a o r' out reply hreach hdoes hans =>
    by_cases href : ref = at' ∧ at' < m.heap.length
    · obtain ⟨rfl, hlt⟩ := href
      simp only [room_setRoom, hlt, and_self, if_true] at hnow
      obtain ⟨conn, rfl, hcur⟩ := slotStep_freed (does_slot hdoes i) hwas hnow
      cases hreach
      exact ⟨conn, rfl, hcur⟩
    · simp only [room_setRoom, if_neg href] at hnow
      exact absurd (hwas.symm.trans hnow) (by simp)
  | created m₁ swept a o r' out reply hmake hdoes hans =>
    cases hmake with
    | join appID code resumeToken opts conn m₀ _ hlook hswept =>
      by_cases href : ref = m.heap.length
      · rw [room_of_ge m (Nat.le_of_eq href.symm), slot_absent] at hwas
        cases hwas
      · simp only [room_setRoom, href, false_and, if_false] at hnow
        rw [room_create, if_neg (by rw [hswept.length]; exact href)] at hnow
        exact absurd ((hidle hswept).symm.trans hnow) (by simp)

theorem roomStep_conn {m : Manager} {op : Op} {res : Result} {ref : Nat}
    (h : RoomStep sha256 env m op res ref) {i : Nat} {c : Conn}
    (hc : ((res.manager.room ref).slot i).conn = some c) :
    ((m.room ref).slot i).conn = some c ∨
      opJoining op = some c ∧ res.reply = .session (.ok ⟨ref, i⟩) := by
  cases h with
  | idle heq => exact .inl (by rwa [heq] at hc)
  | closed _ heq =>
    rw [heq, slot_closed] at hc
    cases hc
  | does r a o swept out hfound hop hdoes hans =>
    rcases slotStep_conn (does_slot hdoes i) hc with hold | ⟨hjoin, ho⟩
    · exact .inl (by rwa [found_slot hfound] at hold)
    · exact .inr ⟨by rw [opJoining, hop]; exact hjoin, (hans.seated ⟨ref, i⟩).2 ⟨ho, rfl⟩⟩

/-- A slot as an acquisition leaves it, up to its transport. -/
structure Taken (sha256 : String → TokenHash) (env : Env) (token : String) (t : Slot) : Prop where
  occupied : t.occupied = true
  hasToken : t.hasToken = true
  tokenHash : t.tokenHash = sha256 token
  lastSeenAt : t.lastSeenAt = env.now

theorem does_seated {r r' : Room} {a : Act} {i : Nat} {out : List Out}
    (h : Does sha256 env r a (.seated i) r' out) :
    ∃ token, env.token = some token ∧ Taken sha256 env token (r'.slot i) ∧
      ∃ conn q ok, .enqueue conn (.joined (joinResult q i token env.now)) ok ∈ out := by
  have hfinish : ∀ {token : String} {conn : Conn} {q : Room} {startedNow ok : Bool}
      {announced : Msg} {out : List Out} {d₁ d₂ : List Nat},
      Acquired env token i conn q startedNow announced r' out ok d₁ d₂ →
      Taken sha256 env token (q.slot i) → Taken sha256 env token (r'.slot i) ∧
        .enqueue conn (.joined (joinResult q i token env.now)) ok ∈ out := by
    intro token conn q startedNow ok announced out d₁ d₂ hacq hq
    constructor
    · rw [hacq.room, slot_emptyAt, slot_detachAll]
      split_ifs
      · exact ⟨hq.occupied, hq.hasToken, hq.tokenHash, hq.lastSeenAt⟩
      · exact hq
    · obtain ⟨rest, rfl, -⟩ := hacq.first
      exact List.mem_cons_self
  cases h with
  | stale _ _ _ _ _ _ ho => rcases ho with ho | ho <;> cases ho
  | resumed _ tok token conn _ out ok drops hdes hne hallow hfind ht hacq =>
    obtain ⟨htaken, hmem⟩ := hfinish hacq (by
      rw [slot_written (findToken_lt sha256 hfind).1, if_pos rfl]
      exact ⟨findToken_occupied hfind, rfl, rfl, rfl⟩)
    exact ⟨token, ht, htaken, conn, _, ok, List.mem_append_right _ hmem⟩
  | occupied _ _ token conn _ _ ok d₁ d₂ hdes hlt hocc ht hwhy hacq =>
    obtain ⟨htaken, hmem⟩ := hfinish hacq (by
      rw [slot_start, slot_written hlt, if_pos rfl]
      exact ⟨rfl, rfl, rfl, rfl⟩)
    exact ⟨token, ht, htaken, conn, _, ok, hmem⟩
  | replaced _ token conn _ out ok drops hdes hocc hallow hpolicy hsilent ht hacq =>
    obtain ⟨htaken, hmem⟩ := hfinish hacq (by
      rw [slot_written (lt_of_occupied hocc), if_pos rfl]
      exact ⟨hocc, rfl, rfl, rfl⟩)
    exact ⟨token, ht, htaken, conn, _, ok, List.mem_append_right _ hmem⟩

theorem does_seated_alive {r r' : Room} {a : Act} {i : Nat} {out : List Out}
    (h : Does sha256 env r a (.seated i) r' out) : r.destroyed = false := by
  cases h with
  | stale _ _ _ _ _ _ ho => rcases ho with ho | ho <;> cases ho
  | resumed _ _ _ _ _ _ _ _ hdes => exact hdes
  | occupied _ _ _ _ _ _ _ _ _ hdes => exact hdes
  | replaced _ _ _ _ _ _ _ hdes => exact hdes

theorem effect_seated {m : Manager} {op : Op} {res : Result} (h : Effect sha256 env m op res)
    {ref i : Nat} (hreply : res.reply = .session (.ok ⟨ref, i⟩)) :
    ∃ r a swept out, Found m ref env.now r ∧ opAct op = some a ∧
      Does sha256 env r a (.seated i) (res.manager.room ref) out ∧ Silent swept ∧
      (ref < m.heap.length → swept = []) ∧ res.out = swept ++ out := by
  cases h with
  | declined m' out reply _ _ hdecl => exact absurd hreply (hdecl.seated _)
  | reached at' a o r' out reply hreach hdoes hans =>
    obtain ⟨rfl, hat⟩ := (hans.seated _).1 hreply
    change ref = at' at hat
    rw [← hat] at hreach hdoes ⊢
    have hlt := destroyed_absent m (does_seated_alive hdoes)
    have hroom : (m.setRoom ref r').room ref = r' := by rw [room_setRoom, if_pos ⟨rfl, hlt⟩]
    exact ⟨_, a, [], out, .inl ⟨hlt, rfl⟩, reaches_opAct hreach,
      by simpa only [hroom] using hdoes, by simp [Silent], fun _ => rfl, rfl⟩
  | created m₁ swept a o r' out reply hmake hdoes hans =>
    obtain ⟨rfl, rfl⟩ := (hans.seated _).1 hreply
    cases hmake with
    | join appID code tok opts conn m₀ _ hlook hswept =>
      have hlen : m.heap.length < (m₀.create (newRoom appID code opts env.now)).1.heap.length := by
        simp [Manager.create, hswept.length]
      have hroom : ((m₀.create (newRoom appID code opts env.now)).1.setRoom m.heap.length
          r').room m.heap.length = r' := by rw [room_setRoom, if_pos ⟨rfl, hlen⟩]
      rw [room_create, if_pos hswept.length.symm] at hdoes
      exact ⟨_, _, swept, out, .inr ⟨rfl, appID, code, opts, rfl⟩, rfl,
        by simpa only [hroom] using hdoes, hswept.silent, fun h => absurd h (Nat.lt_irrefl _), rfl⟩

end Lobbylink.Server.Slots
