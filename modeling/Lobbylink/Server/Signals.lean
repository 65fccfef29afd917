import Lobbylink.Server.Slots

/-! Acting for a slot. Calls of a transport that does not hold the slot it names
change nothing, and the signals a transport receives are those that the holders
of other slots addressed to it, each once and in the order of the calls. -/
namespace Lobbylink.Server.Signals
open Protocol Lobby Registry Fanout Operations Effects Slots

def play (sha256 : String → TokenHash) : List (Op × Env) → Manager → Manager
  | [], m => m
  | (op, env) :: rest, m => play sha256 rest (m.apply sha256 env op).manager

def sent (sha256 : String → TokenHash) : List (Op × Env) → Manager → List Out
  | [], _ => []
  | (op, env) :: rest, m =>
    let res := m.apply sha256 env op
    res.out ++ sent sha256 rest res.manager

variable (sha256 : String → TokenHash)

def Actor : Op → Option (Session × Conn)
  | .signal sess conn _ _ | .leave sess conn | .disconnect sess conn | .touch sess conn =>
    some (sess, conn)
  | _ => none

/-- The operation names a slot that its transport is not attached to. -/
def stale (m : Manager) (op : Op) : Bool :=
  match Actor op with
  | none => false
  | some (sess, conn) =>
    (m.room sess.room).destroyed || !(m.room sess.room).isCurrent sess.playerID conn

theorem stale_iff (m : Manager) (op : Op) : stale m op = true ↔
    ∃ sess conn, Actor op = some (sess, conn) ∧
      ¬Current (m.room sess.room) sess.playerID conn := by
  unfold stale
  cases hactor : Actor op with
  | none => simp
  | some p =>
    obtain ⟨sess, conn⟩ := p
    simp only [Option.some.injEq, Prod.mk.injEq]
    constructor
    · exact fun h => ⟨sess, conn, ⟨rfl, rfl⟩, not_current h⟩
    · rintro ⟨_, _, ⟨rfl, rfl⟩, hnot⟩
      by_contra h
      exact hnot (current_of h)

theorem reaches_actor {m : Manager} {op : Op} {sess : Session} {conn : Conn}
    (h : Actor op = some (sess, conn)) :
    ∃ a, Reaches m op sess.room a ∧ a.session = some (sess.playerID, conn) := by
  cases op with
  | join | claim | gc => cases h
  | signal => cases h; exact ⟨_, .signal .., rfl⟩
  | leave => cases h; exact ⟨_, .leave .., rfl⟩
  | disconnect => cases h; exact ⟨_, .disconnect .., rfl⟩
  | touch => cases h; exact ⟨_, .touch .., rfl⟩

theorem reaches_unique {m : Manager} {op : Op} {ref ref' : Nat} {a a' : Act}
    (h : Reaches m op ref a) (h' : Reaches m op ref' a') : ref = ref' ∧ a = a' := by
  cases h with
  | join _ _ _ _ _ _ hl =>
    cases h' with
    | join _ _ _ _ _ _ hl' => exact ⟨Option.some.inj (hl.symm.trans hl'), rfl⟩
  | claim _ _ _ _ _ hl =>
    cases h' with
    | claim _ _ _ _ _ hl' => exact ⟨Option.some.inj (hl.symm.trans hl'), rfl⟩
  | signal | leave | disconnect | touch =>
    cases h'
    exact ⟨rfl, rfl⟩

theorem does_stale {env : Env} {r r' : Room} {a : Act} {o : Outcome} {out : List Out}
    (h : Does sha256 env r a o r' out) {i : Nat} {conn : Conn}
    (ha : a.session = some (i, conn)) (hnot : ¬Current r i conn) : r' = r ∧ out = [] := by
  cases h with
  | stale => exact ⟨rfl, rfl⟩
  | barred _ hnone => rw [ha] at hnone; cases hnone
  | rejected _ hnone => rw [ha] at hnone; cases hnone
  | touched _ _ hcur => cases ha; exact absurd hcur hnot
  | unsent _ _ _ _ hcur => cases ha; exact absurd hcur hnot
  | relayed _ _ _ _ _ hcur => cases ha; exact absurd hcur hnot
  | overflowed _ _ _ _ _ _ _ _ hcur => cases ha; exact absurd hcur hnot
  | freed _ _ _ _ _ hcur => cases ha; exact absurd hcur hnot
  | detached _ _ _ _ _ hcur => cases ha; exact absurd hcur hnot
  | resumed => cases ha
  | occupied _ _ _ _ _ _ _ _ _ _ _ _ _ hwhy =>
    rcases hwhy with ⟨_, rfl, -⟩ | ⟨rfl, -⟩ <;> cases ha
  | replaced => cases ha

theorem effect_stale {env : Env} {m : Manager} {op : Op} {res : Result}
    (h : Effect sha256 env m op res) (hst : stale m op = true) :
    res.manager = m ∧ res.out = [] := by
  obtain ⟨sess, conn, hactor, hnot⟩ := (stale_iff m op).1 hst
  obtain ⟨a, hreach, ha⟩ := reaches_actor (m := m) hactor
  cases h with
  | declined _ _ _ hno => exact absurd hreach (hno _ _)
  | reached ref a' o r' out reply hreach' hdoes =>
    obtain ⟨rfl, rfl⟩ := reaches_unique hreach hreach'
    obtain ⟨rfl, rfl⟩ := does_stale sha256 hdoes ha hnot
    exact ⟨room_setRoom_self m _, rfl⟩
  | created _ _ _ _ _ _ _ hmake =>
    cases hmake
    cases hactor

def withoutStale : List (Op × Env) → Manager → List (Op × Env)
  | [], _ => []
  | (op, env) :: rest, m =>
    let after := withoutStale rest (m.apply sha256 env op).manager
    if stale m op then after else (op, env) :: after

theorem withoutStale_same (ops : List (Op × Env)) (m : Manager) :
    play sha256 (withoutStale sha256 ops m) m = play sha256 ops m ∧
      sent sha256 (withoutStale sha256 ops m) m = sent sha256 ops m := by
  induction ops generalizing m with
  | nil => exact ⟨rfl, rfl⟩
  | cons e rest ih =>
    obtain ⟨op, env⟩ := e
    have hrest := ih (m.apply sha256 env op).manager
    unfold withoutStale
    by_cases hst : stale m op = true
    · obtain ⟨hm, hout⟩ := effect_stale sha256 (apply_effect sha256 env m op) hst
      simp only [hst, if_true, play, sent, hout, List.nil_append]
      rwa [hm] at hrest ⊢
    · simp only [hst, if_false, Bool.false_eq_true, play, sent]
      exact ⟨hrest.1, by rw [hrest.2]⟩

theorem withoutStale_append (a b : List (Op × Env)) (m : Manager) :
    withoutStale sha256 (a ++ b) m =
      withoutStale sha256 a m ++ withoutStale sha256 b (play sha256 a m) := by
  induction a generalizing m with
  | nil => rfl
  | cons e rest ih =>
    obtain ⟨op, env⟩ := e
    simp only [List.cons_append, withoutStale, play, ih]
    split_ifs <;> rfl

def asSignal : Msg → Option (Nat × String)
  | .signal source payload => some (source, payload)
  | _ => none

/-- The signals transport `d` got out of a list of calls, in order. -/
def signalsTo (d : Conn) (out : List Out) : List (Nat × String) :=
  (accepted d out).filterMap asSignal

theorem signalsTo_append (d : Conn) (a b : List Out) :
    signalsTo d (a ++ b) = signalsTo d a ++ signalsTo d b := by
  simp only [signalsTo, accepted_append, List.filterMap_append]

theorem signalsTo_said {out : List Out} (h : Says (fun m => asSignal m = none) out) (d : Conn) :
    signalsTo d out = [] :=
  List.filterMap_eq_nil_iff.2 fun _ hm => accepted_said h hm

theorem asSignal_left {m : Msg} (h : IsLeft m) : asSignal m = none := by
  obtain ⟨id, rfl⟩ := h
  rfl

theorem acquired_said {env : Env} {token : String} {id : Nat} {conn : Conn} {r r' : Room}
    {startedNow ok : Bool} {announced : Msg} {out : List Out} {d₁ d₂ : List Nat}
    (h : Acquired env token id conn r startedNow announced r' out ok d₁ d₂)
    (hann : asSignal announced = none) : Says (fun m => asSignal m = none) out := by
  obtain ⟨rest, rfl, hrest⟩ := h.first
  intro c m b hm
  rcases List.mem_cons.1 hm with heq | hm
  · cases heq
    rfl
  · rcases hrest c m b hm with rfl | rfl | hleft
    · exact hann
    · rfl
    · exact asSignal_left hleft

/-- One successful call of `Signal`. -/
structure Relay where
  room : Nat
  source : Nat
  sender : Conn
  dest : Nat
  receiver : Conn
  payload : String

/-- The relay an operation makes: a signal whose call returned nil, on the
transport its target slot has. -/
def relayOf (m : Manager) (op : Op) (reply : Reply) : Option Relay :=
  match op, reply with
  | .signal sess conn target payload, .relayed (.ok ()) =>
    ((m.room sess.room).slot target.toNat).conn.map fun c =>
      ⟨sess.room, sess.playerID, conn, target.toNat, c, payload⟩
  | _, _ => none

/-- What makes a relay authentic in the lobby it happened in. -/
structure Authentic (m : Manager) (op : Op) (x : Relay) : Prop where
  call : op = .signal ⟨x.room, x.source⟩ x.sender x.dest x.payload
  holder : Current (m.room x.room) x.source x.sender
  other : x.dest ≠ x.source
  target : ((m.room x.room).slot x.dest).conn = some x.receiver

/-- A relay is the whole of what its call sends. -/
def Relay.call (x : Relay) : Out := .enqueue x.receiver (.signal x.source x.payload) true

theorem does_relays {env : Env} {r r' : Room} {a : Act} {o : Outcome} {out : List Out}
    (h : Does sha256 env r a o r' out) :
    (o ≠ .relayed ∧ ∀ d, signalsTo d out = []) ∨
      ∃ i conn dest c payload, o = .relayed ∧ a = .signal i conn (dest : Nat) payload ∧
        Current r i conn ∧ dest ≠ i ∧ (r.slot dest).conn = some c ∧
        out = [.enqueue c (.signal i payload) true] := by
  have hnone (out : List Out) (hs : Says (fun m => asSignal m = none) out) :
      ∀ d, signalsTo d out = [] := signalsTo_said hs
  cases h with
  | stale _ _ _ _ _ _ ho =>
    refine .inl ⟨?_, fun _ => rfl⟩
    rintro rfl
    rcases ho with ho | ho <;> cases ho
  | barred | rejected | touched | unsent => exact .inl ⟨by simp, fun _ => rfl⟩
  | relayed i conn dest c payload hcur hne hc =>
    exact .inr ⟨i, conn, dest, c, payload, rfl, rfl, hcur, hne, hc, rfl⟩
  | overflowed i conn dest c payload out drops e hcur hne hc hsaid =>
    refine .inl ⟨by simp, fun d => ?_⟩
    have hrest := hnone out (hsaid.mono fun _ => asSignal_left) d
    simpa [signalsTo] using hrest
  | freed i conn out drops e hcur hsaid =>
    refine .inl ⟨by simp, hnone _ (hsaid.mono ?_)⟩
    rintro m (rfl | hleft)
    · rfl
    · exact asSignal_left hleft
  | detached i conn out drops e hcur hsaid =>
    exact .inl ⟨by simp, hnone _ (hsaid.mono fun _ => asSignal_left)⟩
  | resumed _ _ _ _ _ _ _ _ _ _ _ _ _ hacq =>
    exact .inl ⟨by simp,
      hnone _ ((Silent.said (displaced_silent _ _ _) _).append (acquired_said hacq rfl))⟩
  | occupied _ _ _ _ _ _ _ _ _ _ _ _ _ _ hacq =>
    exact .inl ⟨by simp, hnone _ (acquired_said hacq rfl)⟩
  | replaced _ _ _ _ _ _ _ _ _ _ _ _ _ hacq =>
    exact .inl ⟨by simp,
      hnone _ ((Silent.said (displaced_silent _ _ _) _).append (acquired_said hacq rfl))⟩

theorem relayOf_none {m : Manager} {op : Op} {reply : Reply} (h : reply ≠ .relayed (.ok ())) :
    relayOf m op reply = none := by
  unfold relayOf
  split
  · exact absurd rfl h
  · rfl

theorem effect_relays {env : Env} {m : Manager} {op : Op} {res : Result}
    (h : Effect sha256 env m op res) :
    (res.reply ≠ .relayed (.ok ()) ∧ relayOf m op res.reply = none ∧
        ∀ d, signalsTo d res.out = []) ∨
      ∃ x, res.reply = .relayed (.ok ()) ∧ relayOf m op res.reply = some x ∧
        Authentic m op x ∧ res.out = [x.call] := by
  cases h with
  | declined m' out reply _ hswept hdecl =>
    refine .inl ⟨hdecl.relayed, relayOf_none hdecl.relayed, fun d => ?_⟩
    exact signalsTo_said (hswept.silent.said _) d
  | reached ref a o r' out reply hreach hdoes hans =>
    rcases does_relays sha256 hdoes with ⟨ho, hnone⟩ | ⟨i, conn, dest, c, payload, rfl, rfl,
      hcur, hne, hc, rfl⟩
    · have hreply : reply ≠ .relayed (.ok ()) := fun hr => ho (hans.relayed.1 hr)
      exact .inl ⟨hreply, relayOf_none hreply, hnone⟩
    · obtain rfl := hans.relayed.2 rfl
      cases hreach
      refine .inr ⟨⟨_, _, _, dest, c, _⟩, rfl, ?_, ⟨rfl, hcur, hne, hc⟩, rfl⟩
      simp only [relayOf, Int.toNat_natCast, hc, Option.map_some]
  | created m₁ swept a o r' out reply hmake hdoes hans =>
    cases hmake with
    | join appID code resumeToken opts conn m₀ _ hlook hswept =>
      have ho := does_join_outcome sha256 hdoes
      have hreply : reply ≠ .relayed (.ok ()) := fun hr => ho (hans.relayed.1 hr)
      refine .inl ⟨hreply, relayOf_none hreply, fun d => ?_⟩
      rcases does_relays sha256 hdoes with ⟨-, hnone⟩ | ⟨_, _, _, _, _, hrel, -⟩
      · simp only [signalsTo_append, hnone, signalsTo_said (hswept.silent.said _) d,
          List.append_nil]
      · exact absurd hrel ho

/-- The relays of a run, in the order of the calls. -/
def relays : List (Op × Env) → Manager → List Relay
  | [], _ => []
  | (op, env) :: rest, m =>
    let res := m.apply sha256 env op
    (relayOf m op res.reply).toList ++ relays rest res.manager

/-- Each relay is one call of `Signal` by the holder of its source slot. -/
theorem relays_authentic (ops : List (Op × Env)) (m : Manager) {before after : List Relay}
    {x : Relay} (h : relays sha256 ops m = before ++ x :: after) :
    ∃ a op env b, ops = a ++ (op, env) :: b ∧ relays sha256 a m = before ∧
      Authentic (play sha256 a m) op x ∧
      ((play sha256 a m).apply sha256 env op).out = [x.call] := by
  induction ops generalizing m before with
  | nil => simp [relays] at h
  | cons e rest ih =>
    obtain ⟨op, env⟩ := e
    simp only [relays] at h
    rcases effect_relays sha256 (apply_effect sha256 env m op) with
      ⟨-, hnone, -⟩ | ⟨y, -, hsome, hauth, hout⟩
    · rw [hnone] at h
      obtain ⟨a, op', env', b, rfl, hbefore, hrest⟩ := ih _ h
      refine ⟨(op, env) :: a, op', env', b, rfl, ?_, hrest⟩
      simp only [relays, hnone, hbefore]
      rfl
    · simp only [hsome, Option.toList_some, List.singleton_append] at h
      cases before with
      | nil =>
        obtain ⟨rfl, -⟩ := List.cons.inj h
        exact ⟨[], op, env, rest, rfl, rfl, hauth, hout⟩
      | cons z before =>
        obtain ⟨rfl, htail⟩ := List.cons.inj h
        obtain ⟨a, op', env', b, rfl, hbefore, hrest⟩ := ih _ htail
        refine ⟨(op, env) :: a, op', env', b, rfl, ?_, hrest⟩
        simp only [relays, hsome, hbefore]
        rfl

/-- The signals a transport receives are the relays made to it. -/
theorem signalsTo_sent (ops : List (Op × Env)) (m : Manager) (d : Conn) :
    signalsTo d (sent sha256 ops m) =
      ((relays sha256 ops m).filter (·.receiver == d)).map fun x => (x.source, x.payload) := by
  induction ops generalizing m with
  | nil => rfl
  | cons e rest ih =>
    obtain ⟨op, env⟩ := e
    simp only [sent, relays, signalsTo_append, List.filter_append, List.map_append, ih]
    congr 1
    rcases effect_relays sha256 (apply_effect sha256 env m op) with
      ⟨-, hnone, hno⟩ | ⟨x, -, hsome, -, hout⟩
    · rw [hnone, hno]
      rfl
    · rw [hsome, hout]
      by_cases hd : x.receiver = d <;> simp [Relay.call, signalsTo, asSignal, hd]

theorem sender_order (ops : List (Op × Env)) (m : Manager) (c d : Conn) :
    (((relays sha256 ops m).filter fun x => x.sender == c && x.receiver == d).map
      fun x => (x.source, x.payload)).Sublist (signalsTo d (sent sha256 ops m)) := by
  rw [signalsTo_sent, ← List.filter_filter]
  exact List.filter_sublist.map _

/-- Only the holder of a slot acts for it, and what it signals arrives as it was
sent, once, and in order. -/
theorem holder_acts (m : Manager) :
    -- calls for a slot the transport does not hold
    (∀ op env, stale m op = true →
      (m.apply sha256 env op).manager = m ∧ (m.apply sha256 env op).out = []) ∧
    (∀ a b : List (Op × Env), ∃ b',
      withoutStale sha256 (a ++ b) m = withoutStale sha256 a m ++ b' ∧
      play sha256 (withoutStale sha256 a m) m = play sha256 a m ∧
      ∀ d, accepted d (sent sha256 (withoutStale sha256 a m) m) =
        accepted d (sent sha256 a m)) ∧
    -- one signal for each successful call and none for the others
    (∀ op env, let res := m.apply sha256 env op
      (res.reply = .relayed (.ok ()) → ∃ x, Authentic m op x ∧ res.out = [x.call]) ∧
      (res.reply ≠ .relayed (.ok ()) → ∀ d, signalsTo d res.out = [])) ∧
    -- over a run: the signals received are the relays, which are distinct calls
    (∀ ops d, signalsTo d (sent sha256 ops m) =
      ((relays sha256 ops m).filter (·.receiver == d)).map fun x => (x.source, x.payload)) ∧
    (∀ ops before x after, relays sha256 ops m = before ++ x :: after →
      ∃ a op env b, ops = a ++ (op, env) :: b ∧ relays sha256 a m = before ∧
        Authentic (play sha256 a m) op x ∧
        ((play sha256 a m).apply sha256 env op).out = [x.call]) ∧
    (∀ ops c d, (((relays sha256 ops m).filter fun x => x.sender == c && x.receiver == d).map
      fun x => (x.source, x.payload)).Sublist (signalsTo d (sent sha256 ops m))) := by
  refine ⟨fun op env => effect_stale sha256 (apply_effect sha256 env m op), fun a b => ?_,
    fun op env => ?_, fun ops d => signalsTo_sent sha256 ops m d,
    fun ops before x after => relays_authentic sha256 ops m,
    fun ops c d => sender_order sha256 ops m c d⟩
  · have hsame := withoutStale_same sha256 a m
    exact ⟨_, withoutStale_append sha256 a b m, hsame.1, fun d => by rw [hsame.2]⟩
  · rcases effect_relays sha256 (apply_effect sha256 env m op) with
      ⟨hne, -, hno⟩ | ⟨x, heq, -, hauth, hout⟩
    · exact ⟨fun h => absurd h hne, fun _ => hno⟩
    · exact ⟨fun _ => ⟨x, hauth, hout⟩, fun h => absurd heq h⟩

end Lobbylink.Server.Signals
