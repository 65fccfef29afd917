import Lobbylink.Server.Slots
import Lobbylink.Server.Websocket

/-! The rooms and the handlers agree on who holds which slot. The rooms keep the
transport, the handler keeps the session; each step of either keeps both. -/
namespace Lobbylink.Server.Sessions
open Protocol Lobby Registry Policy Fanout Operations Effects Slots Websocket Lib.Runs

/-- Transport `c` is attached to slot `i` of room `ref`. -/
def Attached (s : State) (ref i : Nat) (c : Conn) : Prop :=
  ((s.manager.room ref).slot i).conn = some c

/-- The handler of `c` still runs and its session is `sess`. -/
def Holds (s : State) (c : Conn) (sess : Session) : Prop :=
  ∃ h, s.handlers[c]? = some h ∧ h.running ∧ h.sess = some sess

structure Disciplined (s : State) : Prop where
  sound : ∀ ref, Sound (s.manager.room ref)
  holds : ∀ ref i c, Attached s ref i c → Holds s c ⟨ref, i⟩

/-- The calls a handler makes on its own transport: an answer, or a kick. -/
def OwnCalls (conn : Conn) (own : List Out) : Prop :=
  own = [] ∨ (∃ err ok, own = [.enqueue conn (errorMessage err) ok]) ∨
    ∃ code text, own = [.kick conn code text]

inductive Moves (conn : Conn) (h : Handler) : Move → Prop where
  | alone (own : List Out) (next : Reply → Handler) :
      (∀ r, (next r).sess = h.sess ∧ (next r).running) → OwnCalls conn own →
      Moves conn h ⟨none, own, next⟩
  | acts (sess : Session) (op : Op) (next : Reply → Handler) :
      h.sess = some sess →
      op = .touch sess conn ∨ (∃ target payload, op = .signal sess conn target payload) →
      (∀ r, (∀ sess', r ≠ .session (.ok sess')) →
        (next r).sess = h.sess ∧ (next r).running) → Moves conn h ⟨some op, [], next⟩
  | joins (op : Op) :
      h.sess = none → opJoining op = some conn → Moves conn h ⟨some op, [], h.afterCall⟩
  | leaves (sess : Session) (next : Reply → Handler) :
      h.sess = some sess → Moves conn h ⟨some (.leave sess conn), [], next⟩
  | ends (sess : Session) (next : Reply → Handler) :
      h.sess = some sess → Moves conn h ⟨some (.disconnect sess conn), [], next⟩
  | done (next : Reply → Handler) : h.sess = none → Moves conn h ⟨none, [], next⟩

theorem afterCall_unseated (h : Handler) {r : Reply} (hr : ∀ sess, r ≠ .session (.ok sess)) :
    (h.afterCall r).sess = h.sess ∧ (h.afterCall r).running := by
  unfold Handler.afterCall
  split
  · exact absurd rfl (hr _)
  all_goals exact ⟨rfl, by simp [Handler.running]⟩

theorem reply_moves (conn : Conn) (h : Handler) (err : ProtoError) :
    Moves conn h (h.reply err) :=
  .alone _ _ (fun _ => ⟨rfl, by simp [Handler.running]⟩) (.inl rfl)

theorem dispatch_joining (cfg : Config) (conn : Conn) (h : Handler) (msg : ClientMessage)
    (htype : msg.type = .join ∨ msg.type = .claimSlot) :
    (∃ err, h.dispatch cfg conn msg = h.reply err) ∨
      ∃ op, cfg.joinOrClaim msg conn h.origin = .ok op ∧ h.sess = none ∧
        h.dispatch cfg conn msg = { op := some op, next := h.afterCall } := by
  unfold Handler.dispatch
  by_cases hs : h.sess.isSome = true
  · refine .inl ⟨alreadyJoined, ?_⟩
    rcases htype with ht | ht <;> simp only [ht, hs, if_true]
  · cases hop : cfg.joinOrClaim msg conn h.origin with
    | error err =>
      refine .inl ⟨err, ?_⟩
      rcases htype with ht | ht <;> simp only [ht, hs] <;> rfl
    | ok op =>
      refine .inr ⟨op, rfl, by simpa using hs, ?_⟩
      rcases htype with ht | ht <;> simp only [ht, hs] <;> rfl

theorem joining_moves (cfg : Config) (conn : Conn) (h : Handler) (msg : ClientMessage)
    (htype : msg.type = .join ∨ msg.type = .claimSlot) :
    Moves conn h (h.dispatch cfg conn msg) := by
  rcases dispatch_joining cfg conn h msg htype with ⟨err, heq⟩ | ⟨op, hop, hs, heq⟩
  · rw [heq]
    exact reply_moves conn h err
  · rw [heq]
    refine .joins op hs ?_
    rcases joinOrClaim_op hop with ⟨_, _, _, rfl⟩ | ⟨_, _, _, _, rfl⟩ <;> rfl

theorem dispatch_moves (cfg : Config) (conn : Conn) (h : Handler) (msg : ClientMessage) :
    Moves conn h (h.dispatch cfg conn msg) := by
  cases htype : msg.type with
  | join => exact joining_moves cfg conn h msg (.inl htype)
  | claimSlot => exact joining_moves cfg conn h msg (.inr htype)
  | signal =>
    simp only [Handler.dispatch, htype]
    cases hs : h.sess with
    | none => exact reply_moves ..
    | some sess => exact .acts sess _ _ hs (.inr ⟨_, _, rfl⟩) fun r hr => afterCall_unseated h hr
  | leave =>
    simp only [Handler.dispatch, htype]
    cases hs : h.sess with
    | none => exact .done _ hs
    | some sess => exact .leaves sess _ hs
  | missing =>
    simp only [Handler.dispatch, htype]
    exact .alone _ _ (fun _ => ⟨rfl, by simp [Handler.running]⟩) (.inl rfl)
  | unknown text =>
    simp only [Handler.dispatch, htype]
    exact .alone _ _ (fun _ => ⟨rfl, by simp [Handler.running]⟩) (.inl rfl)

theorem move_moves {cfg : Config} {env : Env} {conn : Conn} {h : Handler} {event : Event}
    {mv : Move} (hmv : h.move cfg env conn event = some mv) : Moves conn h mv := by
  unfold Handler.move at hmv
  split at hmv
  · split at hmv <;> cases hmv
    exact .alone _ _ (fun _ => ⟨rfl, by simp [Handler.running]⟩) (.inl rfl)
  · split at hmv <;> cases hmv
    exact .alone _ _ (fun _ => ⟨rfl, by simp [Handler.running]⟩) (.inr (.inr ⟨_, _, rfl⟩))
  · split at hmv <;> cases hmv
    cases hs : h.sess with
    | none => exact .alone _ _ (fun _ => ⟨hs.symm, by simp [Handler.running]⟩) (.inl rfl)
    | some sess =>
      exact .acts sess _ _ hs (.inl rfl) fun _ _ => ⟨hs.symm, by simp [Handler.running]⟩
  · split at hmv
    · split at hmv <;> cases hmv
      · exact reply_moves ..
      · exact dispatch_moves ..
    · cases hmv
      exact .alone _ _ (fun _ => ⟨rfl, by simp [Handler.running]⟩) (.inr (.inl ⟨_, _, rfl⟩))
    · cases hmv
      cases hs : h.sess with
      | none => exact .done _ hs
      | some sess => exact .ends sess _ hs
    · cases hmv
    · cases hmv
  · cases hmv

theorem session_reply {sha256 : String → TokenHash} {env : Env} {m : Manager} {op : Op}
    {sess : Session} (h : (m.apply sha256 env op).reply = .session (.ok sess)) :
    (opJoining op).isSome := by
  cases op with
  | join | claim => rfl
  | signal | leave | disconnect | touch | gc =>
    simp [Manager.apply, Manager.onSession] at h

theorem does_left {sha256 : String → TokenHash} {env : Env} {r r' : Room} {a : Act} {o : Outcome}
    {out : List Out} (h : Does sha256 env r a o r' out) (hs : Sound r) {i : Nat} {c : Conn}
    (ha : a = .leave i c ∨ a = .disconnect i c) : (r'.slot i).conn ≠ some c := by
  intro hc
  rcases ha with rfl | rfl
  · cases h with
    | stale _ _ _ _ hsess hnot =>
      cases hsess
      exact hnot (hs.current hc)
    | barred _ hnone => cases hnone
    | rejected _ hnone => cases hnone
    | freed _ _ out drops e hcur =>
      rw [slot_emptyAt] at hc
      have hc := (conn_detachAll.1 hc).2
      rw [slot_freed, if_pos ⟨rfl, lt_of_conn hcur.2.2⟩] at hc
      cases hc
    | occupied _ _ _ _ _ _ _ _ _ _ _ _ _ hwhy => rcases hwhy with ⟨_, ⟨⟩, -⟩ | ⟨⟨⟩, -⟩
  · cases h with
    | stale _ _ _ _ hsess hnot =>
      cases hsess
      exact hnot (hs.current hc)
    | barred _ hnone => cases hnone
    | rejected _ hnone => cases hnone
    | detached _ _ out drops e hcur =>
      rw [slot_emptyAt] at hc
      exact (conn_detachAll.1 hc).1 List.mem_cons_self
    | occupied _ _ _ _ _ _ _ _ _ _ _ _ _ hwhy => rcases hwhy with ⟨_, ⟨⟩, -⟩ | ⟨⟨⟩, -⟩

/-- After its own leave or disconnect a transport no longer holds the slot. -/
theorem left_detached (sha256 : String → TokenHash) {env : Env} {m : Manager} {sess : Session}
    {c : Conn} {op : Op} (hop : op = .leave sess c ∨ op = .disconnect sess c)
    (hs : Sound (m.room sess.room)) :
    (((m.apply sha256 env op).manager.room sess.room).slot sess.playerID).conn ≠ some c := by
  have heff := apply_effect sha256 env m op
  generalize m.apply sha256 env op = res at heff
  cases heff with
  | declined m' out reply hno =>
    rcases hop with rfl | rfl
    · exact absurd (Reaches.leave sess c) (hno _ _)
    · exact absurd (Reaches.disconnect sess c) (hno _ _)
  | created m₁ swept a o r' out reply hmake => rcases hop with rfl | rfl <;> cases hmake
  | reached ref a o r' out reply hreach hdoes =>
    have hact : ref = sess.room ∧ (a = .leave sess.playerID c ∨ a = .disconnect sess.playerID c) := by
      rcases hop with rfl | rfl
      · cases hreach
        exact ⟨rfl, .inl rfl⟩
      · cases hreach
        exact ⟨rfl, .inr rfl⟩
    obtain ⟨rfl, hact⟩ := hact
    simp only [room_setRoom, true_and]
    by_cases hlt : sess.room < m.heap.length
    · rw [if_pos hlt]
      exact does_left hdoes hs hact
    · rw [if_neg hlt, room_of_ge m (Nat.le_of_not_lt hlt), slot_absent]
      simp

variable {cfg : Config} {sha256 : String → TokenHash} {limits : Limits}

theorem sound_call {m : Manager} (env : Env) (op : Option Op) (hs : ∀ ref, Sound (m.room ref)) :
    ∀ ref, Sound ((State.call sha256 env m op).manager.room ref) := by
  intro ref
  cases op with
  | none => exact hs ref
  | some op => exact roomStep_sound (apply_room sha256 env m op ref) (hs ref)

theorem attached_call {m : Manager} {env : Env} {op : Option Op} {ref i : Nat} {d : Conn}
    (hd : (((State.call sha256 env m op).manager.room ref).slot i).conn = some d) :
    ((m.room ref).slot i).conn = some d ∨ ∃ o, op = some o ∧ opJoining o = some d ∧
      (State.call sha256 env m op).reply = .session (.ok ⟨ref, i⟩) := by
  cases op with
  | none => exact .inl hd
  | some op =>
    rcases roomStep_conn (apply_room sha256 env m op ref) hd with h | h
    · exact .inl h
    · exact .inr ⟨op, rfl, h⟩

theorem moves_joining {conn : Conn} {h : Handler} {mv : Move} (hm : Moves conn h mv) {op : Op}
    {d : Conn} (hop : mv.op = some op) (hj : opJoining op = some d) :
    d = conn ∧ h.sess = none ∧ mv.next = h.afterCall := by
  cases hm with
  | alone | done => cases hop
  | acts sess op' next hs hwhich =>
    cases hop
    rcases hwhich with rfl | ⟨_, _, rfl⟩ <;> cases hj
  | joins op' hs hjoin =>
    cases hop
    exact ⟨Option.some.inj (hj.symm.trans hjoin), hs, rfl⟩
  | leaves | ends => cases hop; cases hj

theorem handler_holds {s : State} (hs : Disciplined s) {env : Env} {c : Conn} {h : Handler}
    {mv : Move} (hh : s.handlers[c]? = some h) (hm : Moves c h mv) {ref i : Nat}
    (hc : (((State.call sha256 env s.manager mv.op).manager.room ref).slot i).conn = some c) :
    (mv.next (State.call sha256 env s.manager mv.op).reply).running ∧
      (mv.next (State.call sha256 env s.manager mv.op).reply).sess = some ⟨ref, i⟩ := by
  rcases attached_call hc with hold | ⟨op, hop, hjoin, hreply⟩
  · obtain ⟨h', hh', -, hsess⟩ := hs.holds ref i c hold
    obtain rfl : h = h' := Option.some.inj (hh.symm.trans hh')
    cases hm with
    | alone own next hnext _ =>
      obtain ⟨hn, hr⟩ := hnext .none
      exact ⟨hr, hn.trans hsess⟩
    | acts sess op next hsess' hwhich hnext =>
      have hne : ∀ sess', (s.manager.apply sha256 env op).reply ≠ .session (.ok sess') := by
        intro sess' hr
        have := session_reply hr
        rcases hwhich with rfl | ⟨_, _, rfl⟩ <;> cases this
      obtain ⟨hn, hr⟩ := hnext _ hne
      exact ⟨hr, hn.trans hsess⟩
    | joins op hnone => rw [hnone] at hsess; cases hsess
    | leaves sess next hsess' =>
      rw [hsess'] at hsess
      cases hsess
      exact left_detached sha256 (.inl rfl) (hs.sound ref) hc |>.elim
    | ends sess next hsess' =>
      rw [hsess'] at hsess
      cases hsess
      exact left_detached sha256 (.inr rfl) (hs.sound ref) hc |>.elim
    | done next hnone => rw [hnone] at hsess; cases hsess
  · obtain ⟨-, -, hnext⟩ := moves_joining hm hop hjoin
    rw [hnext, hreply]
    exact ⟨by simp [Handler.afterCall, Handler.running], rfl⟩

theorem disciplined_step {s t : State} {l : Label} (hs : Disciplined s)
    (hstep : (server cfg sha256 limits).step s l t) : Disciplined t := by
  cases step_cases hstep with
  | accepted origin heq =>
    subst heq
    refine ⟨hs.sound, fun ref i d hd => ?_⟩
    obtain ⟨h, hh, hrest⟩ := hs.holds ref i d hd
    refine ⟨h, ?_, hrest⟩
    exact List.getElem?_append_left (List.getElem?_eq_some_iff.1 hh).1 ▸ hh
  | collected heq =>
    subst heq
    refine ⟨sound_call l.env _ hs.sound, fun ref i d hd => ?_⟩
    rcases attached_call hd with hold | ⟨op, hop, hjoin, -⟩
    · exact hs.holds ref i d hold
    · cases hop
      cases hjoin
  | moved c h mv hh _ hmv heq =>
    subst heq
    have hm := move_moves hmv
    refine ⟨sound_call l.env mv.op hs.sound, fun ref i d hd => ?_⟩
    by_cases hcd : d = c
    · subst hcd
      obtain ⟨hrun, hsess⟩ := handler_holds hs hh hm hd
      have hlt : d < s.handlers.length := (List.getElem?_eq_some_iff.1 hh).1
      exact ⟨_, List.getElem?_set_self hlt, hrun, hsess⟩
    · rcases attached_call hd with hold | ⟨op, hop, hjoin, -⟩
      · obtain ⟨h', hh', hrest⟩ := hs.holds ref i d hold
        exact ⟨h', by rw [← hh']; exact List.getElem?_set_ne (Ne.symm hcd), hrest⟩
      · exact absurd (moves_joining hm hop hjoin).1 hcd

theorem disciplined_run {ls : List Label} {s : State}
    (run : Run (server cfg sha256 limits) ls s) : Disciplined s := by
  refine run.invariant Disciplined ?_ fun s l t h hs => disciplined_step h hs
  rintro s rfl
  refine ⟨fun ref i c hc => ?_, fun ref i c hc => ?_⟩
  · rw [room_of_ge _ (Nat.zero_le ref), slot_absent] at hc
    cases hc
  · unfold Attached at hc
    rw [room_of_ge _ (Nat.zero_le ref), slot_absent] at hc
    cases hc

/-- Two slots of one transport are one slot of one room. -/
theorem Disciplined.unique {s : State} (hs : Disciplined s) {ref ref' i i' : Nat} {c : Conn}
    (h : Attached s ref i c) (h' : Attached s ref' i' c) : ref = ref' ∧ i = i' := by
  obtain ⟨hd, hh, -, hsess⟩ := hs.holds ref i c h
  obtain ⟨hd', hh', -, hsess'⟩ := hs.holds ref' i' c h'
  obtain rfl : hd = hd' := Option.some.inj (hh.symm.trans hh')
  have heq : (⟨ref, i⟩ : Session) = ⟨ref', i'⟩ := Option.some.inj (hsess.symm.trans hsess')
  exact ⟨congrArg Session.room heq, congrArg Session.playerID heq⟩

theorem Disciplined.distinct {s : State} (hs : Disciplined s) (ref : Nat) :
    Distinct (s.manager.room ref) := fun _ _ _ h h' => (hs.unique h h').2

/-- Transports and sessions stay in step in every interleaving of the handlers
and the collector. -/
theorem session_discipline (cfg : Config) (sha256 : String → TokenHash) (limits : Limits)
    (ls : List Label) (s : State) (run : Run (server cfg sha256 limits) ls s) :
    (∀ c ref ref' i i', Attached s ref i c → Attached s ref' i' c → ref = ref' ∧ i = i') ∧
    (∀ c ref i, Attached s ref i c → Holds s c ⟨ref, i⟩) ∧
    (∀ c h, s.handlers[c]? = some h → h.phase = .returned → ∀ ref i, ¬Attached s ref i c) := by
  have hs := disciplined_run run
  refine ⟨fun c ref ref' i i' => hs.unique, fun c ref i => hs.holds ref i c, ?_⟩
  intro c h hh hret ref i hc
  obtain ⟨h', hh', hrun, -⟩ := hs.holds ref i c hc
  obtain rfl : h = h' := Option.some.inj (hh.symm.trans hh')
  exact hrun hret

def resumeEvents : List (Event × Env) :=
  enterEvents 0 1 "a" (joinMsg "") ++ enterEvents 1 2 "b" (joinMsg "a")

theorem session_discipline_resume : ∃ ls s, Run (server nativeOnly codePoints smallLimits) ls s ∧
    ¬Attached s 0 0 0 ∧ Attached s 0 0 1 ∧ Holds s 1 ⟨0, 0⟩ := by
  obtain ⟨s, ls, hexec, hnot, hconn⟩ : ∃ s ls,
      exec nativeOnly codePoints resumeEvents ⟨newManager smallLimits, []⟩ = some (s, ls) ∧
        ((s.manager.room 0).slot 0).conn ≠ some 0 ∧ Attached s 0 0 1 :=
    ⟨_, _, rfl, by decide, rfl⟩
  have run := exec_run hexec
  exact ⟨ls, s, run, hnot, hconn, (session_discipline _ _ _ ls s run).2.1 1 0 0 hconn⟩

end Lobbylink.Server.Sessions
