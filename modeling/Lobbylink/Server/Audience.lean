import Lobbylink.Server.Announcements
import Lobbylink.Server.Sessions

/-! What every attached transport of the server hears in a step. Sessions keep a
transport in one room, so it hears of that room only, and of every change of it. -/
namespace Lobbylink.Server.Audience
open Protocol Lobby Registry Policy Fanout Operations Effects Slots Announcements Websocket
  Sessions Lib.Runs

variable {sha256 : String → TokenHash} {env : Env}

structure Placed (m : Manager) : Prop where
  distinct : ∀ ref, Distinct (m.room ref)
  unique : ∀ ref ref' i i' c, ((m.room ref).slot i).conn = some c →
    ((m.room ref').slot i').conn = some c → ref = ref'

/-- The transport of a join or claim is attached nowhere. -/
def Loose (m : Manager) (op : Op) : Prop :=
  ∀ d, opJoining op = some d → ∀ ref j, ((m.room ref).slot j).conn ≠ some d

/-- An attached transport either heard nothing, its room being as before, or it
heard what the operation did in its room. -/
inductive Reached (sha256 : String → TokenHash) (env : Env) (m : Manager) (op : Op) (res : Result)
    (ref i : Nat) (c : Conn) : Prop where
  | nothing : res.manager.room ref = m.room ref → ((m.room ref).slot i).conn = some c →
      accepted c res.out = [] → Reached sha256 env m op res ref i c
  | heard (r : Room) (a : Act) (o : Outcome) (swept out : List Out) :
      Found m ref env.now r → opAct op = some a →
      Does sha256 env r a o (res.manager.room ref) out → Answers ref o res.reply →
      Hears r (res.manager.room ref) i c a o out → Silent swept → res.out = swept ++ out →
      Reached sha256 env m op res ref i c

theorem loose_act {m : Manager} {op : Op} {a : Act} (h : Loose m op) (ha : opAct op = some a)
    (d : Conn) (hd : joining a = some d) (ref j : Nat) : ((m.room ref).slot j).conn ≠ some d :=
  h d (by rw [opJoining, ha]; exact hd) ref j

theorem effect_reached {m : Manager} {op : Op} {res : Result}
    (h : Effect sha256 env m op res) (hp : Placed m) (hl : Loose m op) {ref i : Nat} {c : Conn}
    (hc : ((res.manager.room ref).slot i).conn = some c) :
    Reached sha256 env m op res ref i c := by
  have hswept : ∀ (m' : Manager) (out : List Out), Swept env.now m m' out →
      ((m'.room ref).slot i).conn = some c →
      m'.room ref = m.room ref ∧ ((m.room ref).slot i).conn = some c := by
    intro m' out hs hc
    rcases hs.rooms ref with heq | ⟨-, heq⟩
    · exact ⟨heq, heq ▸ hc⟩
    · rw [heq, slot_closed] at hc
      cases hc
  cases h with
  | declined m' out reply _ hs =>
    obtain ⟨heq, hold⟩ := hswept m' out hs hc
    exact .nothing heq hold (hs.silent.accepted c)
  | reached at' a o r' out reply hreach hdoes hans =>
    have hact := reaches_opAct hreach
    have hfree := fun d hd => loose_act hl hact d hd at'
    by_cases href : ref = at' ∧ at' < m.heap.length
    · obtain ⟨rfl, hlt⟩ := href
      have hroom : (m.setRoom ref r').room ref = r' := by rw [room_setRoom, if_pos ⟨rfl, hlt⟩]
      simp only [hroom] at hc
      exact .heard (m.room ref) a o [] out (.inl ⟨hlt, rfl⟩) hact
        (by simpa only [hroom] using hdoes) hans
        (by simpa only [hroom] using does_hears hdoes (hp.distinct ref) hfree hc)
        (by simp [Silent]) rfl
    · have heq : (m.setRoom at' r').room ref = m.room ref := by rw [room_setRoom, if_neg href]
      simp only [heq] at hc
      refine .nothing heq hc (does_others hdoes (hp.distinct at') hfree (fun j hj => ?_)
        fun hj => loose_act hl hact c hj ref i hc).1
      obtain rfl := hp.unique ref at' i j c hc hj
      have hge : ¬ref < m.heap.length := fun hlt => href ⟨rfl, hlt⟩
      rw [room_of_ge m (Nat.le_of_not_lt hge), slot_absent] at hc
      cases hc
  | created m₁ swept a o r' out reply hmake hdoes hans =>
    cases hmake with
    | join appID code resumeToken opts conn m₀ _ hlook hs =>
      have hlen : m.heap.length < (m₀.create (newRoom appID code opts env.now)).1.heap.length := by
        simp [Manager.create, hs.length]
      have hnew : (m₀.create (newRoom appID code opts env.now)).1.room m.heap.length =
          newRoom appID code opts env.now := by rw [room_create, if_pos hs.length.symm]
      rw [hnew] at hdoes
      have hnone : ∀ j d, ((newRoom appID code opts env.now).slot j).conn ≠ some d := by simp
      by_cases href : ref = m.heap.length
      · subst href
        have hroom : ((m₀.create (newRoom appID code opts env.now)).1.setRoom m.heap.length
            r').room m.heap.length = r' := by rw [room_setRoom, if_pos ⟨rfl, hlen⟩]
        simp only [hroom] at hc
        have hd : Distinct (newRoom appID code opts env.now) :=
          fun i j c hi => absurd hi (hnone i c)
        have hhears := does_hears hdoes hd (fun d _ j => hnone j d) hc
        exact .heard _ _ o swept out (.inr ⟨rfl, appID, code, opts, rfl⟩) rfl
          (by simpa only [hroom] using hdoes) hans (by simpa only [hroom] using hhears)
          hs.silent rfl
      · have heq : ((m₀.create (newRoom appID code opts env.now)).1.setRoom m.heap.length
            r').room ref = m₀.room ref := by
          rw [room_setRoom, if_neg (fun h => href h.1), room_create,
            if_neg (by rw [hs.length]; exact href)]
        simp only [heq] at hc
        obtain ⟨hsame, hold⟩ := hswept m₀ swept hs hc
        refine .nothing (heq.trans hsame) hold ?_
        have hout := does_others hdoes (fun i j c hi => absurd hi (hnone i c))
          (fun d _ j => hnone j d) (fun j => hnone j c)
          fun hj => loose_act hl rfl c hj ref i hold
        simp only [accepted_append, hs.silent.accepted, hout.1, List.append_nil]

theorem Disciplined.placed {s : State} (hs : Disciplined s) : Placed s.manager where
  distinct := hs.distinct
  unique := fun _ _ _ _ _ h h' => (hs.unique h h').1

theorem moves_loose {s : State} (hs : Disciplined s) {c : Conn} {h : Handler} {mv : Move}
    (hh : s.handlers[c]? = some h) (hm : Moves c h mv) {op : Op} (hop : mv.op = some op) :
    Loose s.manager op := by
  intro d hd ref j hj
  obtain ⟨rfl, hnone, -⟩ := moves_joining hm hop hd
  obtain ⟨h', hh', -, hsess⟩ := hs.holds ref j d hj
  obtain rfl : h = h' := Option.some.inj (hh.symm.trans hh')
  rw [hnone] at hsess
  cases hsess

/-- An occupied slot was given to a transport that refused to join. -/
def Stranded (s : State) (l : Label) (ref id : Nat) : Prop :=
  l.reply = .session (.ok ⟨ref, id⟩) ∧ ((s.manager.room ref).slot id).occupied = true ∧
    ∃ c msg, .enqueue c (.joined msg) false ∈ l.out

def IsError (msg : Msg) : Prop := ∃ err, msg = errorMessage err

/-- What the transport of slot `i` hears in a step. -/
inductive Heard (s t : State) (l : Label) (ref i : Nat) (c : Conn) : Prop where
  | nothing : t.manager.room ref = s.manager.room ref → Attached s ref i c →
      (∀ m ∈ accepted c l.out, IsError m) → Heard s t l ref i c
  | kept : Attached s ref i c → (∀ msg, .enqueue c msg false ∉ l.out) →
      (t.manager.room ref).slots.length = (s.manager.room ref).slots.length →
      Announced (Stranded s l ref) (s.manager.room ref) (t.manager.room ref)
        (accepted c l.out) → Heard s t l ref i c
  | greeted : l.reply = .session (.ok ⟨ref, i⟩) → Greeted i (t.manager.room ref)
        (accepted c l.out) → Heard s t l ref i c

theorem reached_heard {s t : State} {l : Label} {op : Op} {ref i : Nat} {c : Conn}
    (h : Reached sha256 l.env s.manager op (s.manager.apply sha256 l.env op) ref i c)
    (ht : t.manager = (s.manager.apply sha256 l.env op).manager)
    (hout : l.out = (s.manager.apply sha256 l.env op).out)
    (hreply : l.reply = (s.manager.apply sha256 l.env op).reply) : Heard s t l ref i c := by
  cases h with
  | nothing heq hold hacc =>
    exact .nothing (ht ▸ heq) hold (by rw [hout, hacc]; simp)
  | heard r a o swept out hfound hop hdoes hans hhears hsil hres =>
    have hacc : accepted c l.out = accepted c out := by
      rw [hout, hres, accepted_append, hsil.accepted, List.nil_append]
    rcases hhears.heard with ⟨hold, hann⟩ | ⟨-, ho, hgreet⟩
    · have hr : r = s.manager.room ref := by
        rcases hfound with ⟨-, hr⟩ | ⟨-, _, _, _, rfl⟩
        · exact hr
        · rw [slot_newRoom] at hold
          cases hold
      subst hr
      refine .kept hold (fun m hm => ?_) (ht ▸ (does_sameRoom hdoes).length) ?_
      · rw [hout, hres] at hm
        rcases List.mem_append.1 hm with hm | hm
        · exact hsil.said (fun _ => False) c m false hm
        · exact hhears.unrefused m hm
      · rw [hacc, ht]
        refine hann.mono ?_
        rintro id ⟨ho, hocc, d, msg, hm⟩
        refine ⟨?_, hocc, d, msg, ?_⟩
        · rw [hreply]
          exact (hans.seated ⟨ref, id⟩).2 ⟨ho, rfl⟩
        · rw [hout, hres]
          exact List.mem_append_right _ hm
    · refine .greeted ?_ ?_
      · rw [hreply]
        exact (hans.seated ⟨ref, i⟩).2 ⟨ho, rfl⟩
      · rw [hacc, ht]
        exact hgreet

theorem own_errors {conn c : Conn} {own : List Out} (h : OwnCalls conn own) :
    ∀ m ∈ accepted c own, IsError m := by
  rcases h with rfl | ⟨err, ok, rfl⟩ | ⟨code, text, rfl⟩
  · simp
  · intro m hm
    cases ok
    · simp at hm
    · by_cases hc : conn = c
      · exact ⟨err, by simpa [hc] using hm⟩
      · simp [hc] at hm
  · simp

variable {cfg : Config} {limits : Limits}

/-- A step of the server as the lobby sees it: no call, or one call whose joining
transport, if any, is that of the handler and attached nowhere. -/
inductive Acts (sha256 : String → TokenHash) (s t : State) (l : Label) : Prop where
  | idle : t.manager = s.manager → l.op = none → l.reply = .none →
      (∀ c, ∀ m ∈ accepted c l.out, IsError m) → Acts sha256 s t l
  | calls (op : Op) : l.op = some op → Loose s.manager op →
      (∀ c, opJoining op = some c → l.event.conn = some c) →
      t.manager = (s.manager.apply sha256 l.env op).manager →
      l.out = (s.manager.apply sha256 l.env op).out →
      l.reply = (s.manager.apply sha256 l.env op).reply → Acts sha256 s t l

theorem step_acts {s t : State} {l : Label} (hs : Disciplined s)
    (hstep : (server cfg sha256 limits).step s l t) : Acts sha256 s t l := by
  cases step_cases hstep with
  | accepted origin heq _ hop hout hreply =>
    subst heq
    exact .idle rfl hop hreply (by rw [hout]; simp)
  | collected heq _ hop hout hreply =>
    exact .calls .gc hop (fun d hd => by cases hd) (fun d hd => by cases hd) (by rw [heq]; rfl)
      hout hreply
  | moved d h mv hh hconn hmv heq hlop hout hreply =>
    have hm := move_moves hmv
    cases hop : mv.op with
    | some op =>
      have hown : mv.own = [] := by
        cases hm with
        | alone | done => cases hop
        | acts | joins | leaves | ends => rfl
      rw [hop] at heq hlop hout hreply
      rw [hown] at hout
      refine .calls op hlop (moves_loose hs hh hm hop) (fun c hc => ?_) (by rw [heq]; rfl) hout
        hreply
      rw [(moves_joining hm hop hc).1]
      exact hconn
    | none =>
      rw [hop] at heq hlop hout hreply
      have hown : OwnCalls d mv.own := by
        cases hm with
        | alone _ _ _ hown => exact hown
        | done => exact .inl rfl
        | acts | joins | leaves | ends => cases hop
      refine .idle (by rw [heq]; rfl) hlop hreply fun c => ?_
      rw [hout]
      simpa [State.call] using own_errors hown

theorem step_heard {s t : State} {l : Label} (hs : Disciplined s)
    (hstep : (server cfg sha256 limits).step s l t) {ref i : Nat} {c : Conn}
    (hc : Attached t ref i c) : Heard s t l ref i c := by
  unfold Attached at hc
  cases step_acts hs hstep with
  | idle ht _ _ herrors =>
    rw [ht] at hc
    exact .nothing (by rw [ht]) hc (herrors c)
  | calls op _ hl _ ht hout hreply =>
    rw [ht] at hc
    exact reached_heard (effect_reached (apply_effect sha256 l.env s.manager op)
      (Disciplined.placed hs) hl hc) ht hout hreply

/-- `after` is what `history` holds after its last joined message, `msg`. -/
def SinceJoined (history : List Msg) (msg : Joined) (after : List Msg) : Prop :=
  ∃ before, history = before ++ .joined msg :: after ∧ ∀ m, .joined m ∉ after

theorem SinceJoined.append {history after msgs : List Msg} {msg : Joined}
    (h : SinceJoined history msg after) (hno : ∀ m, .joined m ∉ msgs) :
    SinceJoined (history ++ msgs) msg (after ++ msgs) := by
  obtain ⟨before, rfl, hafter⟩ := h
  refine ⟨before, by simp, fun m hm => ?_⟩
  exact (List.mem_append.1 hm).elim (hafter m) (hno m)

theorem sinceJoined_new (history : List Msg) (msg : Joined) {after : List Msg}
    (hno : ∀ m, .joined m ∉ after) : SinceJoined (history ++ .joined msg :: after) msg after :=
  ⟨history, rfl, hno⟩

theorem sinceJoined_unique {history after after' : List Msg} {msg msg' : Joined}
    (h : SinceJoined history msg after) (h' : SinceJoined history msg' after') :
    msg = msg' ∧ after = after' := by
  obtain ⟨before, rfl, hno⟩ := h
  obtain ⟨before', heq, hno'⟩ := h'
  rcases List.append_eq_append_iff.1 heq with ⟨mid, rfl, hmid⟩ | ⟨mid, rfl, hmid⟩
  · cases mid with
    | nil =>
      simp only [List.nil_append, List.cons.injEq, Msg.joined.injEq] at hmid
      exact hmid
    | cons x rest =>
      obtain ⟨-, rfl⟩ := List.cons.inj hmid
      exact absurd (List.mem_append_right rest List.mem_cons_self) (hno msg')
  · cases mid with
    | nil =>
      simp only [List.nil_append, List.cons.injEq, Msg.joined.injEq] at hmid
      exact ⟨hmid.1.symm, hmid.2.symm⟩
    | cons x rest =>
      obtain ⟨-, rfl⟩ := List.cons.inj hmid
      exact absurd (List.mem_append_right rest List.mem_cons_self) (hno' msg)

theorem no_joined_left (ids : List Nat) (m : Joined) : .joined m ∉ ids.map leftMsg := by
  simp [leftMsg]

theorem no_joined_errors {msgs : List Msg} (h : ∀ m ∈ msgs, IsError m) (m : Joined) :
    .joined m ∉ msgs := by
  intro hm
  obtain ⟨err, heq⟩ := h _ hm
  cases heq

theorem no_joined_announced {lost : Nat → Prop} {r r' : Room} {msgs : List Msg}
    (h : Announced lost r r' msgs) (m : Joined) : .joined m ∉ msgs := by
  intro hm
  cases h with
  | dropped own ids hown =>
    rcases List.mem_append.1 hm with hm | hm
    · obtain ⟨source, payload, heq⟩ := hown _ hm
      cases heq
    · exact no_joined_left ids m hm
  | left i ids =>
    rcases List.mem_cons.1 hm with heq | hm
    · cases heq
    · exact no_joined_left ids m hm
  | handed id ok ids msg hmsg =>
    rcases List.mem_cons.1 hm with heq | hm
    · subst heq
      rcases hmsg with h | h <;> cases h
    · exact no_joined_left ids m hm
  | joined id q now startedNow d₁ d₂ =>
    unfold news at hm
    cases startedNow <;> simp [leftMsg] at hm

end Lobbylink.Server.Audience
