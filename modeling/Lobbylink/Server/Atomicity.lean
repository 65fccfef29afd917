import Lobbylink.Server.Representation
import Lobbylink.Server.Sweeps

/-! A join or claim that fails leaves the lobby as it was, but for the bookkeeping that
precedes the failure: the activity of the room asked for, the sweep made for a new room,
and that room itself when no token can be had for its first player. -/
namespace Lobbylink.Server.Atomicity
open Protocol Lobby Registry Policy Fanout Operations Effects Slots Catalog Ledger
  Server.Representation Sessions Audience Websocket Sweeps Lib.Runs

variable {sha256 : String → TokenHash} {env : Env}

/-- The room code that a join or claim asks for. -/
def opCode : Op → Option String
  | .join _ code _ _ _ | .claim _ code _ _ => some code
  | _ => none

structure Bare (limits : Limits) (now : Time) (r : Room) : Prop where
  slots : ∀ i, r.slot i = {}
  started : r.started = false
  since : r.emptySince = r.createdAt ∧ r.createdAt = now
  collectable : now ≠ 0 → ∀ t, limits.emptyTTL ≤ Time.sub t now → limits.expired t r = true

/-- What a failed join or claim may leave of room `ref`. -/
inductive Spared (env : Env) (m : Manager) (op : Op) (ref : Nat) (r' : Room) : Prop where
  | same : r' = m.room ref → Spared env m op ref r'
  | active (code : String) : opCode op = some code → m.lookup code = some ref →
      r' = { m.room ref with lastActivity := env.now } → Spared env m op ref r'
  | swept : m.limits.maxRooms ≤ m.rooms.length → (m.room ref).destroyed = false →
      m.limits.expired env.now (m.room ref) = true → r' = closed (m.room ref) →
      Spared env m op ref r'
  | fresh (appID code token : String) (opts : RoomOptions) (conn : Conn) :
      op = .join appID code token (some opts) conn → m.lookup code = none →
      env.token = none → ref = m.heap.length → r' = newRoom appID code opts env.now →
      Bare m.limits env.now r' → Spared env m op ref r'

/-- What a failed join or claim of transport `c` may do at all. -/
structure Atomic (env : Env) (m : Manager) (op : Op) (c : Conn) (res : Result) : Prop where
  rooms : ∀ ref, Spared env m op ref (res.manager.room ref)
  listed : ∀ code ref, ref < m.heap.length →
    ((code, ref) ∈ res.manager.rooms ↔
      (code, ref) ∈ m.rooms ∧ (res.manager.room ref).destroyed = false)
  calls : ∀ o ∈ res.out, ∃ ref i d, o = expiryKick d ∧ ((m.room ref).slot i).conn = some d ∧
    m.limits.maxRooms ≤ m.rooms.length ∧ m.limits.expired env.now (m.room ref) = true ∧
    res.manager.room ref = closed (m.room ref)
  attached : ∀ ref i, ((res.manager.room ref).slot i).conn = some c →
    ((m.room ref).slot i).conn = some c

theorem bare_newRoom (limits : Limits) (appID code : String) (opts : RoomOptions) (now : Time) :
    Bare limits now (newRoom appID code opts now) where
  slots := slot_newRoom appID code opts now
  started := rfl
  since := ⟨rfl, rfl⟩
  collectable := by
    intro hnow t ht
    have hzero : Time.isZero now = false := by simpa [Time.isZero] using hnow
    simp [Limits.expired, newRoom, hzero, ht]

/-- An attempt to enter a room that failed there. -/
theorem does_failed {r r' : Room} {a : Act} {o : Outcome} {out : List Out}
    (h : Does sha256 env r a o r' out) (ha : a.session = none) (ho : ∀ id, o ≠ .seated id) :
    (r' = r ∨ r' = noted r env.now) ∧ out = [] := by
  cases h with
  | stale _ _ _ _ hsess =>
    rw [ha] at hsess
    cases hsess
  | barred => exact ⟨.inl rfl, rfl⟩
  | rejected => exact ⟨.inr rfl, rfl⟩
  | touched | unsent | relayed | overflowed | freed | detached => cases ha
  | resumed | occupied | replaced => exact absurd rfl (ho _)

theorem freshJoin_newRoom (appID code code' : String) (opts : RoomOptions) (conn : Conn)
    (out : List Out) :
    freshJoin sha256 env code' conn ⟨newRoom appID code opts env.now, out⟩ =
      occupyLocked sha256 env 0 conn ⟨newRoom appID code opts env.now, out⟩ := by
  have hpos : 0 < opts.maxPlayers := opts.positive
  have hfree : freeSlot (newRoom appID code opts env.now) = some 0 := by
    apply List.findIdx?_eq_some_iff_getElem.2
    refine ⟨by simpa [newRoom] using hpos, ?_, fun j hj => absurd hj (Nat.not_lt_zero j)⟩
    simp [newRoom]
  unfold freshJoin
  rw [if_neg (by simp [newRoom]), hfree]

theorem joinRoom_newRoom (sha256 : String → TokenHash) (env : Env) (appID code token : String)
    (opts : RoomOptions) (conn : Conn) (out : List Out) :
    joinRoom sha256 env appID code token conn ⟨newRoom appID code opts env.now, out⟩ =
      occupyLocked sha256 env 0 conn ⟨newRoom appID code opts env.now, out⟩ := by
  have hfind : (newRoom appID code opts env.now).findToken sha256 token = none := by
    apply List.findIdx?_eq_none_iff.2
    intro t ht
    obtain rfl := List.eq_of_mem_replicate ht
    rfl
  have hactive : Call.activity ⟨newRoom appID code opts env.now, out⟩ env.now =
      ⟨newRoom appID code opts env.now, out⟩ := rfl
  unfold joinRoom
  rw [if_neg (by simp [newRoom]), if_neg (by simp [newRoom])]
  simp only [hactive, hfind]
  split_ifs
  · exact freshJoin_newRoom appID code code opts conn out
  · exact freshJoin_newRoom appID code code opts conn out

theorem occupyLocked_error {id : Nat} {conn : Conn} {s : Call} {err : ProtoError}
    (h : (occupyLocked sha256 env id conn s).2 = .error err) :
    env.token = none ∧ (occupyLocked sha256 env id conn s).1 = s := by
  unfold occupyLocked newToken at h ⊢
  cases ht : env.token with
  | none => exact ⟨rfl, rfl⟩
  | some token =>
    rw [ht] at h
    cases h

theorem listed_kept {m m' : Manager} (h : Listed m) (h' : Listed m')
    (hcode : ∀ ref, ref < m.heap.length → (m'.room ref).code = (m.room ref).code ∧
      ((m'.room ref).destroyed = false → (m.room ref).destroyed = false))
    (code : String) (ref : Nat) (hlt : ref < m.heap.length) :
    (code, ref) ∈ m'.rooms ↔ (code, ref) ∈ m.rooms ∧ (m'.room ref).destroyed = false := by
  rw [h.live, h'.live, (hcode ref hlt).1]
  constructor
  · rintro ⟨hdes, hc⟩
    exact ⟨⟨(hcode ref hlt).2 hdes, hc⟩, hdes⟩
  · rintro ⟨⟨-, hc⟩, hdes⟩
    exact ⟨hdes, hc⟩

theorem Spared.code {m : Manager} {op : Op} {ref : Nat} {r' : Room}
    (h : Spared env m op ref r') (hlt : ref < m.heap.length) :
    r'.code = (m.room ref).code ∧ (r'.destroyed = false → (m.room ref).destroyed = false) := by
  cases h with
  | same heq => exact ⟨by rw [heq], fun h => by rwa [heq] at h⟩
  | active _ _ _ heq => exact ⟨by rw [heq], fun h => by rwa [heq] at h⟩
  | swept _ hdes _ heq => exact ⟨by rw [heq]; rfl, fun _ => hdes⟩
  | fresh _ _ _ _ _ _ _ _ href => exact absurd hlt (by rw [href]; exact Nat.lt_irrefl _)

theorem entered_failed {m : Manager} (op : Op) {code : String} (hop : opCode op = some code)
    {ref : Nat} (hlook : m.lookup code = some ref) {f : Call → Call × Except ProtoError Nat}
    {r' : Room} {out : List Out} {a : Act} {o : Outcome}
    (heq : (f ⟨m.room ref, []⟩).1 = ⟨r', [] ++ out⟩) (ha : a.session = none)
    (hdoes : Does sha256 env (m.room ref) a o r' out)
    (hres : ∀ id, o = .seated id ↔ (f ⟨m.room ref, []⟩).2 = .ok id) {err : ProtoError}
    (herr : (Entered.result (entered ref (m.onRoom [] ref f))).reply = .session (.error err)) :
    (Entered.result (entered ref (m.onRoom [] ref f))).out = [] ∧
      ∀ j, Spared env m op j ((Entered.result (entered ref (m.onRoom [] ref f))).manager.room j) := by
  have hfail : ∀ id, o ≠ .seated id := by
    intro id ho
    simp only [Entered.result, entered, Manager.onRoom, (hres id).1 ho] at herr
    cases herr
  obtain ⟨hroom, rfl⟩ := does_failed hdoes ha hfail
  simp only [Entered.result, entered, Manager.onRoom, heq]
  refine ⟨rfl, fun j => ?_⟩
  rw [room_setRoom]
  split_ifs with hj
  · rw [hj.1]
    rcases hroom with rfl | rfl
    · exact .same rfl
    · exact .active code hop hlook rfl
  · exact .same rfl

/-- What a creation does before it asks for a token. -/
theorem sweepFor_spared {m : Manager} (h : Listed m) (env : Env) (op : Op) (ref : Nat) :
    Spared env m op ref ((sweepFor env.now m).manager.room ref) := by
  by_cases hfull : m.limits.maxRooms ≤ m.rooms.length
  · rw [sweepFor_full hfull, gcLocked_room h]
    split_ifs with hexp
    · exact .swept hfull hexp.1 hexp.2 rfl
    · exact .same rfl
  · rw [sweepFor_room hfull]
    exact .same rfl

/-- The calls made by an operation that fails: the kicks of its sweep. -/
def Evicts (env : Env) (m m' : Manager) (out : List Out) : Prop :=
  ∀ o ∈ out, ∃ ref i d, o = expiryKick d ∧ ((m.room ref).slot i).conn = some d ∧
    m.limits.maxRooms ≤ m.rooms.length ∧ m.limits.expired env.now (m.room ref) = true ∧
    m'.room ref = closed (m.room ref)

theorem evicts_nil (env : Env) (m m' : Manager) : Evicts env m m' [] :=
  fun _ ho => absurd ho List.not_mem_nil

theorem sweepFor_evicts {m : Manager} (h : Listed m) (hs : ∀ ref, Sound (m.room ref)) (env : Env) :
    Evicts env m (sweepFor env.now m).manager (sweepFor env.now m).out := by
  by_cases hfull : m.limits.maxRooms ≤ m.rooms.length
  · rw [sweepFor_full hfull]
    intro o ho
    obtain ⟨ref, i, c, heq, hc, hexp⟩ := gcLocked_kicks env.now m o ho
    refine ⟨ref, i, c, heq, hc, hfull, hexp, ?_⟩
    rw [gcLocked_room h, if_pos ⟨(hs ref i c hc).2, hexp⟩]
  · rw [sweepFor_room hfull]
    exact evicts_nil env m m

theorem created_failed {m : Manager} {appID code token : String} {opts : RoomOptions} {c : Conn}
    {err : ProtoError}
    (herr : (Entered.result (entered m.heap.length
      ((withRoom env.now m (newRoom appID code opts env.now)).onRoom (sweepFor env.now m).out
        m.heap.length (joinRoom sha256 env appID code token c)))).reply = .session (.error err)) :
    env.token = none ∧
    Entered.result (entered m.heap.length
      ((withRoom env.now m (newRoom appID code opts env.now)).onRoom (sweepFor env.now m).out
        m.heap.length (joinRoom sha256 env appID code token c))) =
      ⟨withRoom env.now m (newRoom appID code opts env.now), (sweepFor env.now m).out,
        .session (.error err)⟩ := by
  have hroom : (withRoom env.now m (newRoom appID code opts env.now)).room m.heap.length =
      newRoom appID code opts env.now := by
    rw [room_withRoom, if_pos rfl]
  have hoccupy := joinRoom_newRoom sha256 env appID code token opts c (sweepFor env.now m).out
  simp only [Entered.result, entered, Manager.onRoom, hroom, hoccupy] at herr ⊢
  cases hres : (occupyLocked sha256 env 0 c
      ⟨newRoom appID code opts env.now, (sweepFor env.now m).out⟩).2 with
  | ok id =>
    rw [hres] at herr
    cases herr
  | error e =>
    rw [hres] at herr
    cases herr
    obtain ⟨htoken, hsame⟩ := occupyLocked_error hres
    have hself := room_setRoom_self (withRoom env.now m (newRoom appID code opts env.now))
      m.heap.length
    rw [hroom] at hself
    rw [hsame, hself]
    exact ⟨htoken, rfl⟩

theorem apply_failed {m : Manager} (h : Listed m) (hs : ∀ ref, Sound (m.room ref)) {op : Op}
    {c : Conn} (hop : opJoining op = some c) {err : ProtoError}
    (herr : (m.apply sha256 env op).reply = .session (.error err)) :
    (∀ ref, Spared env m op ref ((m.apply sha256 env op).manager.room ref)) ∧
      Evicts env m (m.apply sha256 env op).manager (m.apply sha256 env op).out := by
  cases op with
  | join appID code token create conn =>
    have hcase := join_joins sha256 env m appID code token create conn
    simp only [Manager.apply] at herr ⊢
    generalize Registry.join sha256 env appID code token create conn m = res at hcase herr ⊢
    cases hcase with
    | found create ref hlook =>
      obtain ⟨r', out, o, heq, hdoes, hres⟩ :=
        joinRoom_does sha256 env appID code token conn ⟨m.room ref, []⟩
      obtain ⟨hout, hrooms⟩ := entered_failed (.join appID code token create conn) rfl hlook
        heq rfl hdoes hres herr
      rw [hout]
      exact ⟨hrooms, evicts_nil env m _⟩
    | missing err hlook => exact ⟨fun ref => .same rfl, evicts_nil env m m⟩
    | refused opts err hlook => exact ⟨sweepFor_spared h env _, sweepFor_evicts h hs env⟩
    | created opts hlook hspace =>
      obtain ⟨htoken, hsame⟩ := created_failed herr
      rw [hsame]
      refine ⟨fun ref => ?_, fun o ho => ?_⟩
      · rw [room_withRoom]
        split_ifs with href
        · exact .fresh appID code token opts conn rfl hlook htoken href rfl
            (bare_newRoom m.limits appID code opts env.now)
        · exact sweepFor_spared h env _ ref
      · obtain ⟨ref, i, d, heq, hd, hmax, hexp, hclosed⟩ := sweepFor_evicts h hs env o ho
        refine ⟨ref, i, d, heq, hd, hmax, hexp, ?_⟩
        have hne : ref ≠ m.heap.length := by
          rintro rfl
          rw [room_of_ge m (Nat.le_refl _), slot_absent] at hd
          cases hd
        rw [room_withRoom, if_neg hne, hclosed]
  | claim appID code playerID conn =>
    simp only [Manager.apply, Registry.claim] at herr ⊢
    cases hlook : m.lookup code with
    | none => exact ⟨fun ref => .same rfl, evicts_nil env m m⟩
    | some ref =>
      simp only [hlook] at herr ⊢
      obtain ⟨r', out, o, heq, hdoes, hres⟩ :=
        claimRoom_does sha256 env appID code playerID conn ⟨m.room ref, []⟩
      obtain ⟨hout, hrooms⟩ := entered_failed (.claim appID code playerID conn) rfl hlook
        heq rfl hdoes hres herr
      rw [hout]
      exact ⟨hrooms, evicts_nil env m _⟩
  | signal | leave | disconnect | touch | gc => cases hop

theorem apply_atomic {m : Manager} (h : Listed m) (hs : ∀ ref, Sound (m.room ref)) {op : Op}
    {c : Conn} (hop : opJoining op = some c) {err : ProtoError}
    (herr : (m.apply sha256 env op).reply = .session (.error err)) :
    Atomic env m op c (m.apply sha256 env op) := by
  obtain ⟨hrooms, hcalls⟩ := apply_failed h hs hop herr
  refine ⟨hrooms, fun code ref hlt => ?_, hcalls, fun ref i hc => ?_⟩
  · exact listed_kept h (listed_apply h op) (fun j hj => (hrooms j).code hj) code ref hlt
  · rcases roomStep_conn (apply_room sha256 env m op ref) hc with hold | ⟨-, hreply⟩
    · exact hold
    · rw [hreply] at herr
      cases herr

/-- A join or claim that returns an error is atomic, wherever it fails; made by a handler
of the server, it leaves its transport attached to nothing. -/
theorem failed_entry_atomic (sha256 : String → TokenHash) (limits : Limits) :
    (∀ ls m, Run (lobby sha256 limits) ls m → ∀ env op c err, opJoining op = some c →
      (m.apply sha256 env op).reply = .session (.error err) →
      Atomic env m op c (m.apply sha256 env op)) ∧
    ∀ (cfg : Config) ls s l t, Run (server cfg sha256 limits) ls s →
      (server cfg sha256 limits).step s l t → ∀ op c err, l.op = some op →
      opJoining op = some c → l.reply = .session (.error err) → ∀ ref i, ¬Attached t ref i c := by
  refine ⟨fun ls m run env op c err hop herr =>
    apply_atomic (listed_run run) (sound_lobby run) hop herr, ?_⟩
  intro cfg ls s l t run hstep op c err hlop hop herr ref i hc
  have hs := disciplined_run run
  cases step_acts hs hstep with
  | idle _ hnone =>
    rw [hlop] at hnone
    cases hnone
  | calls op' hop' hl _ ht _ hreply =>
    cases hlop.symm.trans hop'
    rw [Attached, ht] at hc
    rcases roomStep_conn (apply_room sha256 l.env s.manager op ref) hc with hold | ⟨-, hseated⟩
    · exact hl c hop ref i hold
    · rw [hreply, hseated] at herr
      cases herr

def untokened : Env := { calm 1 "" with token := none }

/-- The first player of a new room gets no token, at the lobby and over a socket. -/
theorem failed_entry_atomic_untokened :
    Atomic untokened (newManager smallLimits) (Tokens.openOp 0) 0
      ((newManager smallLimits).apply codePoints untokened (Tokens.openOp 0)) ∧
    ∃ ls s l t, Run (server nativeOnly codePoints smallLimits) ls s ∧
      (server nativeOnly codePoints smallLimits).step s l t ∧
      l.reply = .session (.error tokenFailed) ∧ ∀ ref i, ¬Attached t ref i 0 := by
  obtain ⟨hatomic, hserver⟩ := failed_entry_atomic codePoints smallLimits
  refine ⟨hatomic [] _ (.init rfl) untokened (Tokens.openOp 0) 0 tokenFailed rfl rfl, ?_⟩
  obtain ⟨s, ls, l, t, hexec, hstep, op, hop, hjoin, hreply⟩ : ∃ s ls l t,
      exec nativeOnly codePoints [(.accept "", untokened), (.text 0 (.ok (joinMsg "")), untokened)]
        ⟨newManager smallLimits, []⟩ = some (s, ls) ∧
      s.next nativeOnly codePoints (.proceed 0) untokened = some (t, l) ∧
      ∃ op, l.op = some op ∧ opJoining op = some 0 ∧ l.reply = .session (.error tokenFailed) :=
    ⟨_, _, _, _, rfl, rfl, _, rfl, rfl, rfl⟩
  have run : Run (server nativeOnly codePoints smallLimits) ls s := exec_run hexec
  have hstep : (server nativeOnly codePoints smallLimits).step s l t := by
    obtain ⟨hevent, henv⟩ := next_label hstep
    simpa only [server, hevent, henv] using hstep
  exact ⟨ls, s, l, t, run, hstep, hreply,
    hserver nativeOnly ls s l t run hstep op 0 tokenFailed hop hjoin hreply⟩

end Lobbylink.Server.Atomicity
