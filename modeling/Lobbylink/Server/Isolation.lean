import Lobbylink.Server.Audience
import Mathlib.Data.List.Nodup

/-! Apps and origins. A socket is checked against all allowlists when it opens and
against one app's when it enters a room, and the room compares the app itself; what
a transport is attached to or hears of is its own app's in every state of a run. -/
namespace Lobbylink.Server.Isolation
open Protocol Lobby Registry Policy Fanout Operations Effects Slots Announcements Websocket
  Sessions Audience Lib.Runs

/-- What loading and `Validate` make sure of, as far as the policy depends on it. -/
structure Validated (cfg : Config) : Prop where
  hard : 1 ≤ cfg.rooms.maxPlayersHard ∧ cfg.rooms.maxPlayersHard ≤ 1024
  bounded : ∀ app ∈ cfg.apps, 0 ≤ app.maxPlayersMax ∧
    app.maxPlayersMax ≤ cfg.rooms.maxPlayersHard
  named : ∀ app ∈ cfg.apps, app.id ≠ ""
  distinct : (cfg.apps.map (·.id)).Nodup

theorem appByID_mem {cfg : Config} {id : String} {app : App} (h : cfg.appByID id = some app) :
    app ∈ cfg.apps ∧ app.id = id := by
  refine ⟨List.mem_of_find?_eq_some h, ?_⟩
  simpa using List.find?_some h

theorem Validated.appByID {cfg : Config} (hcfg : Validated cfg) {app : App}
    (h : app ∈ cfg.apps) : cfg.appByID app.id = some app := by
  have hfound : (cfg.apps.find? (·.id == app.id)).isSome :=
    List.find?_isSome.2 ⟨app, h, by simp⟩
  obtain ⟨first, hfirst⟩ := Option.isSome_iff_exists.1 hfound
  obtain ⟨hmem, hid⟩ := appByID_mem hfirst
  have heq : first = app := List.inj_on_of_nodup_map hcfg.distinct hmem h hid
  rw [← heq] at hfirst ⊢
  exact hfirst

/-- A transport opened with `origin` may be in a room of app `appID`. -/
def Welcome (cfg : Config) (origin appID : String) : Prop :=
  (origin = "" ∧ cfg.security.allowNoOrigin = true) ∨
    cfg.originInList origin cfg.security.allowedOrigins = true ∨
    ∃ app ∈ cfg.apps, app.id = appID ∧ cfg.originInList origin app.allowedOrigins = true

/-- The only list that names `origin` is that of app `appID`. -/
def OnlyFor (cfg : Config) (origin appID : String) : Prop :=
  origin ≠ "" ∧ cfg.originInList origin cfg.security.allowedOrigins = false ∧
    ∀ app ∈ cfg.apps, cfg.originInList origin app.allowedOrigins = true → app.id = appID

theorem Welcome.only {cfg : Config} {origin appID x : String} (h : Welcome cfg origin appID)
    (hx : OnlyFor cfg origin x) : appID = x := by
  rcases h with ⟨hempty, -⟩ | hglobal | ⟨app, happ, rfl, hlist⟩
  · exact absurd hempty hx.1
  · rw [hx.2.1] at hglobal
    cases hglobal
  · exact hx.2.2 app happ hlist

/-- A room of app `appID` may have this many slots. -/
def Fits (cfg : Config) (appID : String) (slots : Nat) : Prop :=
  slots ≤ cfg.rooms.maxPlayersHard ∧
    ∀ app ∈ cfg.apps, app.id = appID → 0 < app.maxPlayersMax → slots ≤ app.maxPlayersMax

def opApp : Op → Option String
  | .join appID .. | .claim appID .. => some appID
  | _ => none

/-- The options that a join would create its room with. -/
def opCreate : Op → Option RoomOptions
  | .join _ _ _ create _ => create
  | _ => none

variable {cfg : Config} {sha256 : String → TokenHash} {limits : Limits}

theorem resolveApp_cases {appID : String} {app : Option App}
    (h : cfg.resolveApp appID = .ok app) :
    (appID = "" ∧ app = none) ∨ ∃ a ∈ cfg.apps, a.id = appID ∧ app = some a := by
  unfold Config.resolveApp at h
  by_cases hempty : appID = ""
  · rw [if_pos hempty] at h
    cases h
    exact .inl ⟨hempty, rfl⟩
  rw [if_neg hempty] at h
  cases hfind : cfg.appByID appID with
  | none =>
    rw [hfind] at h
    cases h
  | some a =>
    rw [hfind] at h
    cases h
    obtain ⟨hmem, hid⟩ := appByID_mem hfind
    exact .inr ⟨a, hmem, hid, rfl⟩

theorem checkOrigin_welcome {origin appID : String} {app : Option App}
    (happ : cfg.resolveApp appID = .ok app) (h : cfg.checkOrigin origin app = .ok ())
    (hopen : cfg.wsOriginAllowed origin = true) : Welcome cfg origin appID := by
  unfold Config.checkOrigin at h
  by_cases horigin : origin = ""
  · rw [Config.wsOriginAllowed, if_pos horigin] at hopen
    exact .inl ⟨horigin, hopen⟩
  rw [if_neg horigin] at h
  split_ifs at h with hallowed
  rw [Bool.or_eq_true, Bool.and_eq_true] at hallowed
  rcases hallowed with hglobal | ⟨hsome, hlisted⟩
  · exact .inr (.inl hglobal)
  rcases resolveApp_cases happ with ⟨-, rfl⟩ | ⟨a, hmem, hid, rfl⟩
  · cases hsome
  rw [Config.originAllowedForApp, Bool.or_eq_true] at hlisted
  rcases hlisted with hglobal | hlist
  · exact .inr (.inl hglobal)
  · exact .inr (.inr ⟨a, hmem, hid, hlist⟩)

theorem maxPlayers_fits (hcfg : Validated cfg) {appID : String} {app : Option App}
    (happ : cfg.resolveApp appID = .ok app) {slots : Nat}
    (h : (slots : Int) ≤ cfg.maxPlayers app) : Fits cfg appID slots := by
  rcases resolveApp_cases happ with ⟨rfl, rfl⟩ | ⟨a, hmem, hid, rfl⟩
  · exact ⟨h, fun a ha hid => absurd hid (hcfg.named a ha)⟩
  have huniq : ∀ b ∈ cfg.apps, b.id = appID → b = a := fun b hb hbid =>
    List.inj_on_of_nodup_map hcfg.distinct hb hmem (hbid.trans hid.symm)
  unfold Config.maxPlayers at h
  simp only at h
  constructor
  · split_ifs at h <;> omega
  · intro b hb hbid hpos
    obtain rfl := huniq b hb hbid
    split_ifs at h <;> omega

/-- A call that `joinOrClaim` makes names an app whose rooms are open to the origin, and
a room it would create fits that app. -/
theorem joinOrClaim_allowed (hcfg : Validated cfg) {msg : ClientMessage} {conn : Conn}
    {origin : String} {op : Op} (h : cfg.joinOrClaim msg conn origin = .ok op)
    (hopen : cfg.wsOriginAllowed origin = true) :
    ∃ appID, opApp op = some appID ∧ Welcome cfg origin appID ∧
      ∀ opts, opCreate op = some opts → Fits cfg appID opts.maxPlayers := by
  unfold Config.joinOrClaim at h
  cases happ : cfg.resolveApp msg.appID with
  | error e => simp [happ, bind, Except.bind] at h
  | ok app =>
    cases horigin : cfg.checkOrigin origin app with
    | error e => simp [happ, horigin, bind, Except.bind] at h
    | ok u =>
      have hwelcome := checkOrigin_welcome happ horigin hopen
      simp only [happ, horigin, bind, Except.bind] at h
      split at h
      · cases h
        exact ⟨_, rfl, hwelcome, fun opts hopts => by cases hopts⟩
      cases hres : cfg.resolveOptions app msg.create with
      | error e => simp [hres] at h
      | ok create =>
        simp only [hres] at h
        cases h
        refine ⟨_, rfl, hwelcome, fun opts hopts => ?_⟩
        cases hopts
        apply maxPlayers_fits hcfg happ
        unfold Config.resolveOptions at hres
        cases hcreate : msg.create with
        | none =>
          rw [hcreate] at hres
          cases hres
        | some c =>
          rw [hcreate] at hres
          cases hresolved : resolveCreate c (cfg.maxPlayers app) cfg.rooms.claimAfter with
          | error e => simp [hresolved, Except.map] at hres
          | ok o =>
            simp only [hresolved, Except.map, Except.ok.injEq, Option.some.injEq] at hres
            subst hres
            exact (resolveCreate_maxPlayers hresolved).2

theorem joinRoom_app {env : Env} {appID code resumeToken : String} {conn : Conn} {s : Call}
    {id : Nat} (h : (joinRoom sha256 env appID code resumeToken conn s).2 = .ok id) :
    s.room.destroyed = false ∧ s.room.appID = appID := by
  unfold joinRoom at h
  by_cases hdes : s.room.destroyed = true
  · rw [if_pos hdes] at h
    cases h
  by_cases happ : s.room.appID ≠ appID
  · rw [if_neg hdes, if_pos happ] at h
    cases h
  exact ⟨by simpa using hdes, not_not.1 happ⟩

theorem claimRoom_app {env : Env} {appID code : String} {playerID : Int} {conn : Conn} {s : Call}
    {id : Nat} (h : (claimRoom sha256 env appID code playerID conn s).2 = .ok id) :
    s.room.destroyed = false ∧ s.room.appID = appID := by
  unfold claimRoom at h
  by_cases hdes : s.room.destroyed = true
  · rw [if_pos hdes] at h
    cases h
  by_cases happ : s.room.appID ≠ appID
  · rw [if_neg hdes, if_pos happ] at h
    cases h
  exact ⟨by simpa using hdes, not_not.1 happ⟩

theorem entered_ok {ref : Nat} {r : Manager × List Out × Except ProtoError Nat} {sess : Session}
    (h : (entered ref r).2.2 = .ok sess) : sess.room = ref ∧ r.2.2 = .ok sess.playerID := by
  unfold entered at h
  cases hr : r.2.2 with
  | error e =>
    rw [hr] at h
    cases h
  | ok id =>
    rw [hr] at h
    cases h
    exact ⟨rfl, rfl⟩

theorem entered_app {env : Env} {m : Manager} {before : List Out} {a : Act} {appID : String}
    {f : Call → Call × Except ProtoError Nat} {ref : Nat} {sess : Session}
    (hf : ∃ r' out o, (f ⟨m.room ref, before⟩).1 = ⟨r', before ++ out⟩ ∧
      Does sha256 env (m.room ref) a o r' out)
    (happ : ∀ id, (f ⟨m.room ref, before⟩).2 = .ok id →
      (m.room ref).destroyed = false ∧ (m.room ref).appID = appID)
    (h : (entered ref (m.onRoom before ref f)).2.2 = .ok sess) :
    appID = ((entered ref (m.onRoom before ref f)).1.room sess.room).appID := by
  obtain ⟨r', out, o, heq, hdoes⟩ := hf
  obtain ⟨hsess, hok⟩ := entered_ok h
  obtain ⟨hdes, hname⟩ := happ sess.playerID hok
  have hroom : (entered ref (m.onRoom before ref f)).1 = m.setRoom ref r' := by
    simp only [entered, Manager.onRoom, heq]
  rw [hroom, room_setRoom, if_pos ⟨hsess, destroyed_absent m hdes⟩]
  exact hname.symm.trans (does_sameRoom hdoes).appID.symm

theorem seated_app {env : Env} {m : Manager} {op : Op} {sess : Session}
    (h : (m.apply sha256 env op).reply = .session (.ok sess)) :
    opApp op = some ((m.apply sha256 env op).manager.room sess.room).appID := by
  have hjoin : ∀ (m : Manager) (before : List Out) (ref : Nat) (appID code tok : String)
      (conn : Conn), (entered ref (m.onRoom before ref
        (joinRoom sha256 env appID code tok conn))).2.2 = .ok sess →
      appID = ((entered ref (m.onRoom before ref
        (joinRoom sha256 env appID code tok conn))).1.room sess.room).appID := by
    intro m before ref appID code tok conn h
    obtain ⟨r', out, o, heq, hdoes, -⟩ :=
      joinRoom_does sha256 env appID code tok conn ⟨m.room ref, before⟩
    exact entered_app ⟨r', out, o, heq, hdoes⟩ (fun _ => joinRoom_app) h
  cases op with
  | join appID code tok create conn =>
    have hcase := join_joins sha256 env m appID code tok create conn
    simp only [Manager.apply, Entered.result] at h ⊢
    generalize Registry.join sha256 env appID code tok create conn m = res at hcase h ⊢
    cases hcase with
    | found create ref hlook =>
      exact congrArg some (hjoin m [] ref appID code tok conn (Reply.session.inj h))
    | missing err hlook => cases h
    | refused opts err hlook => cases h
    | created opts hlook hspace =>
      exact congrArg some (hjoin _ _ _ appID code tok conn (Reply.session.inj h))
  | claim appID code playerID conn =>
    simp only [Manager.apply, Entered.result, Registry.claim] at h ⊢
    cases hlook : m.lookup code with
    | none =>
      rw [hlook] at h
      cases h
    | some ref =>
      rw [hlook] at h
      obtain ⟨r', out, o, heq, hdoes, -⟩ :=
        claimRoom_does sha256 env appID code playerID conn ⟨m.room ref, []⟩
      exact congrArg some
        (entered_app ⟨r', out, o, heq, hdoes⟩ (fun _ => claimRoom_app) (Reply.session.inj h))
  | signal | leave | disconnect | touch | gc =>
    simp [Manager.apply, Manager.onSession] at h

theorem created_from {env : Env} {m : Manager} {op : Op} {ref : Nat}
    (hlt : ref < (m.apply sha256 env op).manager.heap.length) :
    ref < m.heap.length ∨ ∃ opts, opCreate op = some opts ∧
      opApp op = some ((m.apply sha256 env op).manager.room ref).appID ∧
      ((m.apply sha256 env op).manager.room ref).slots.length = opts.maxPlayers := by
  have heff := apply_effect sha256 env m op
  generalize m.apply sha256 env op = res at heff hlt ⊢
  cases heff with
  | declined m' out reply _ hswept => exact .inl (hswept.length ▸ hlt)
  | reached at' a o r' out reply => exact .inl (by simpa using hlt)
  | created m₁ swept a o r' out reply hmake hdoes hans =>
    cases hmake with
    | join appID code resumeToken opts conn m₀ _ hlook hswept =>
      have hlen : (m₀.create (newRoom appID code opts env.now)).1.heap.length =
          m.heap.length + 1 := by simp [Manager.create, hswept.length]
      rw [room_create, if_pos hswept.length.symm] at hdoes
      have hsame := does_sameRoom hdoes
      by_cases href : ref = m.heap.length
      · subst href
        right
        refine ⟨opts, rfl, ?_⟩
        rw [room_setRoom, if_pos ⟨rfl, by omega⟩, hsame.appID, hsame.length]
        exact ⟨rfl, List.length_replicate⟩
      · left
        rw [heap_setRoom, hlen] at hlt
        omega

/-- The move keeps the handler's origin, and a call by which it may attach its transport
is one that the policy has passed. -/
structure Passes (cfg : Config) (conn : Conn) (h : Handler) (mv : Move) : Prop where
  origin : ∀ reply, (mv.next reply).origin = h.origin
  joins : ∀ op d, mv.op = some op → opJoining op = some d →
    ∃ msg, cfg.joinOrClaim msg conn h.origin = .ok op

theorem passes_unjoining {conn : Conn} {h : Handler} {mv : Move}
    (horigin : ∀ reply, (mv.next reply).origin = h.origin)
    (hop : ∀ op, mv.op = some op → opJoining op = none) : Passes cfg conn h mv where
  origin := horigin
  joins := by
    intro op d hmv hd
    rw [hop op hmv] at hd
    cases hd

theorem afterCall_origin (h : Handler) (reply : Reply) :
    (h.afterCall reply).origin = h.origin := by
  unfold Handler.afterCall
  split <;> rfl

theorem reply_passes (conn : Conn) (h : Handler) (err : ProtoError) :
    Passes cfg conn h (h.reply err) :=
  passes_unjoining (fun _ => rfl) fun op hop => by cases hop

theorem joining_passes (cfg : Config) (conn : Conn) (h : Handler) (msg : ClientMessage)
    (htype : msg.type = .join ∨ msg.type = .claimSlot) :
    Passes cfg conn h (h.dispatch cfg conn msg) := by
  rcases dispatch_joining cfg conn h msg htype with ⟨err, heq⟩ | ⟨op, hop, -, heq⟩
  · rw [heq]
    exact reply_passes conn h err
  · rw [heq]
    refine ⟨afterCall_origin h, fun op' d hop' _ => ?_⟩
    cases hop'
    exact ⟨msg, hop⟩

theorem dispatch_passes (cfg : Config) (conn : Conn) (h : Handler) (msg : ClientMessage) :
    Passes cfg conn h (h.dispatch cfg conn msg) := by
  cases htype : msg.type with
  | join => exact joining_passes cfg conn h msg (.inl htype)
  | claimSlot => exact joining_passes cfg conn h msg (.inr htype)
  | signal =>
    simp only [Handler.dispatch, htype]
    cases hs : h.sess with
    | none => exact reply_passes ..
    | some sess =>
      apply passes_unjoining (afterCall_origin h)
      rintro op hop
      cases hop
      rfl
  | leave =>
    simp only [Handler.dispatch, htype]
    apply passes_unjoining fun _ => rfl
    intro op hop
    obtain ⟨sess, -, rfl⟩ := Option.map_eq_some_iff.1 hop
    rfl
  | missing =>
    simp only [Handler.dispatch, htype]
    exact passes_unjoining (fun _ => rfl) fun op hop => by cases hop
  | unknown text =>
    simp only [Handler.dispatch, htype]
    exact passes_unjoining (fun _ => rfl) fun op hop => by cases hop

theorem move_passes {env : Env} {conn : Conn} {h : Handler} {event : Event} {mv : Move}
    (hmv : h.move cfg env conn event = some mv) : Passes cfg conn h mv := by
  have halone : ∀ own (next : Reply → Handler), (∀ reply, (next reply).origin = h.origin) →
      Passes cfg conn h ⟨none, own, next⟩ := fun own next hnext =>
    passes_unjoining hnext fun op hop => by cases hop
  have hsession : ∀ (f : Session → Op) own (next : Reply → Handler),
      (∀ sess, opJoining (f sess) = none) → (∀ reply, (next reply).origin = h.origin) →
      Passes cfg conn h ⟨h.sess.map f, own, next⟩ := by
    intro f own next hf hnext
    apply passes_unjoining hnext
    intro op hop
    obtain ⟨sess, -, rfl⟩ := Option.map_eq_some_iff.1 hop
    exact hf sess
  unfold Handler.move at hmv
  split at hmv
  · split at hmv <;> cases hmv
    exact halone _ _ fun _ => rfl
  · split at hmv <;> cases hmv
    exact halone _ _ fun _ => rfl
  · split at hmv <;> cases hmv
    exact hsession _ _ _ (fun _ => rfl) fun _ => rfl
  · split at hmv
    · split at hmv <;> cases hmv
      · exact reply_passes ..
      · exact dispatch_passes ..
    · cases hmv
      exact halone _ _ fun _ => rfl
    · cases hmv
      exact hsession _ _ _ (fun _ => rfl) fun _ => rfl
    · cases hmv
    · cases hmv
  · cases hmv

/-- The origin that the socket of `c` was opened with. -/
def originOf (s : State) (c : Conn) : Option String := s.handlers[c]?.map (·.origin)

theorem originOf_step {s t : State} {l : Label} (hstep : (server cfg sha256 limits).step s l t)
    {c : Conn} {origin : String} :
    (originOf s c = some origin → originOf t c = some origin) ∧
    (originOf t c = some origin →
      originOf s c = some origin ∨ cfg.wsOriginAllowed origin = true) := by
  obtain ⟨event, env, op, out, reply⟩ := l
  change s.next cfg sha256 event env = some (t, _) at hstep
  unfold State.next at hstep
  cases event with
  | accept o =>
    simp only at hstep
    split_ifs at hstep with hopen
    cases hstep
    unfold originOf
    simp only [List.getElem?_append, List.getElem?_singleton]
    by_cases hlt : c < s.handlers.length
    · rw [if_pos hlt]
      exact ⟨id, .inl⟩
    · rw [if_neg hlt, List.getElem?_eq_none (Nat.le_of_not_lt hlt)]
      refine ⟨fun h => (nomatch h), fun h => .inr ?_⟩
      split_ifs at h with hc
      · cases h
        exact hopen
      · cases h
  | gc =>
    cases hstep
    exact ⟨id, .inl⟩
  | readError d | binary d | text d data | proceed d =>
    simp only [Option.bind_eq_bind, Option.bind_eq_some_iff, Option.some.injEq] at hstep
    obtain ⟨h, hh, mv, hmv, heq⟩ := hstep
    cases heq
    have hsame : ∀ reply : Reply,
        (s.handlers.set d (mv.next reply))[c]?.map (·.origin) = s.handlers[c]?.map (·.origin) := by
      intro reply
      rw [List.getElem?_set]
      split_ifs with hdc hlt
      · subst hdc
        rw [hh]
        exact congrArg some ((move_passes hmv).origin reply)
      · rw [← hdc, List.getElem?_eq_none (Nat.le_of_not_lt hlt)]
      · rfl
    unfold originOf
    rw [hsame]
    exact ⟨id, .inl⟩

theorem apply_kept (sha256 : String → TokenHash) (env : Env) (m : Manager) (op : Op) {ref : Nat}
    (hlt : ref < m.heap.length) :
    ((m.apply sha256 env op).manager.room ref).appID = (m.room ref).appID ∧
    ((m.apply sha256 env op).manager.room ref).slots.length = (m.room ref).slots.length := by
  cases apply_room sha256 env m op ref with
  | idle heq => rw [heq]; exact ⟨rfl, rfl⟩
  | closed _ heq => rw [heq]; exact ⟨rfl, length_detachAll ..⟩
  | does r a o swept out hfound _ hdoes =>
    have hsame := does_sameRoom hdoes
    rcases hfound with ⟨-, rfl⟩ | ⟨href, -⟩
    · exact ⟨hsame.appID, hsame.length⟩
    · omega

structure Isolated (cfg : Config) (s : State) : Prop where
  opened : ∀ c origin, originOf s c = some origin → cfg.wsOriginAllowed origin = true
  attached : ∀ ref i c, Attached s ref i c →
    ∃ origin, originOf s c = some origin ∧ Welcome cfg origin (s.manager.room ref).appID
  sized : ∀ ref, ref < s.manager.heap.length →
    Fits cfg (s.manager.room ref).appID (s.manager.room ref).slots.length

theorem joining_welcome (hcfg : Validated cfg) {s t : State} {l : Label} (hs : Isolated cfg s)
    (hstep : (server cfg sha256 limits).step s l t) {op : Op} (hop : l.op = some op) {c : Conn}
    (hc : opJoining op = some c) :
    ∃ origin appID, originOf s c = some origin ∧ opApp op = some appID ∧
      Welcome cfg origin appID ∧
        ∀ opts, opCreate op = some opts → Fits cfg appID opts.maxPlayers := by
  cases step_cases hstep with
  | accepted _ _ _ hnone => rw [hop] at hnone; cases hnone
  | collected _ _ hgc =>
    rw [hop] at hgc
    cases hgc
    cases hc
  | moved d h mv hh _ hmv _ hlop =>
    have hmvop : mv.op = some op := hlop.symm.trans hop
    obtain ⟨rfl, -, -⟩ := moves_joining (move_moves hmv) hmvop hc
    obtain ⟨msg, hmsg⟩ := (move_passes hmv).joins op c hmvop hc
    have horigin : originOf s c = some h.origin := by rw [originOf, hh]; rfl
    obtain ⟨appID, happ, hwelcome, hfits⟩ :=
      joinOrClaim_allowed hcfg hmsg (hs.opened c _ horigin)
    exact ⟨h.origin, appID, horigin, happ, hwelcome, hfits⟩

theorem attached_welcome {s : State} (hd : Disciplined s) (hs : Isolated cfg s) (env : Env)
    (op : Op) {ref i : Nat} {c : Conn} (hc : Attached s ref i c) :
    ∃ origin, originOf s c = some origin ∧
      Welcome cfg origin ((s.manager.apply sha256 env op).manager.room ref).appID := by
  obtain ⟨origin, horigin, hwelcome⟩ := hs.attached ref i c hc
  have hlt : ref < s.manager.heap.length := destroyed_absent _ (hd.sound ref i c hc).2
  refine ⟨origin, horigin, ?_⟩
  rwa [(apply_kept sha256 env s.manager op hlt).1]

theorem seated_welcome (hcfg : Validated cfg) {s t : State} {l : Label} (hs : Isolated cfg s)
    (hstep : (server cfg sha256 limits).step s l t) {op : Op} (hop : l.op = some op) {c : Conn}
    (hc : opJoining op = some c) {sess : Session}
    (hseat : (s.manager.apply sha256 l.env op).reply = .session (.ok sess)) :
    ∃ origin, originOf s c = some origin ∧
      Welcome cfg origin ((s.manager.apply sha256 l.env op).manager.room sess.room).appID := by
  obtain ⟨origin, appID, horigin, happ, hwelcome, -⟩ := joining_welcome hcfg hs hstep hop hc
  have hroom := seated_app hseat
  rw [happ] at hroom
  refine ⟨origin, horigin, ?_⟩
  rw [← Option.some.inj hroom]
  exact hwelcome

theorem isolated_step (hcfg : Validated cfg) {s t : State} {l : Label} (hd : Disciplined s)
    (hs : Isolated cfg s) (hstep : (server cfg sha256 limits).step s l t) : Isolated cfg t := by
  have hopened : ∀ c origin, originOf t c = some origin → cfg.wsOriginAllowed origin = true :=
    fun c origin h => ((originOf_step hstep).2 h).elim (hs.opened c origin) id
  cases step_acts hd hstep with
  | idle ht =>
    refine ⟨hopened, fun ref i c hc => ?_, fun ref hlt => ?_⟩
    · rw [Attached, ht] at hc
      obtain ⟨origin, horigin, hwelcome⟩ := hs.attached ref i c hc
      exact ⟨origin, (originOf_step hstep).1 horigin, by rwa [ht]⟩
    · rw [ht] at hlt ⊢
      exact hs.sized ref hlt
  | calls op hop _ _ ht _ hreply =>
    refine ⟨hopened, fun ref i c hc => ?_, fun ref hlt => ?_⟩
    · rw [Attached, ht] at hc
      rcases roomStep_conn (apply_room sha256 l.env s.manager op ref) hc with hold | ⟨hjoin, hseat⟩
      · obtain ⟨origin, horigin, hwelcome⟩ := attached_welcome hd hs l.env op hold
        exact ⟨origin, (originOf_step hstep).1 horigin, by rwa [ht]⟩
      · obtain ⟨origin, horigin, hwelcome⟩ := seated_welcome hcfg hs hstep hop hjoin hseat
        exact ⟨origin, (originOf_step hstep).1 horigin, by rwa [ht]⟩
    · rw [ht] at hlt ⊢
      rcases created_from hlt with hold | ⟨opts, hcreate, happ, hlen⟩
      · obtain ⟨hsame, hlen⟩ := apply_kept sha256 l.env s.manager op hold
        rw [hsame, hlen]
        exact hs.sized ref hold
      · obtain ⟨c, hc⟩ : ∃ c, opJoining op = some c := by
          cases op with
          | join => exact ⟨_, rfl⟩
          | _ => cases hcreate
        obtain ⟨origin, appID, -, happ', -, hfits⟩ := joining_welcome hcfg hs hstep hop hc
        rw [hlen, ← Option.some.inj (happ'.symm.trans happ)]
        exact hfits opts hcreate

theorem isolated_run (hcfg : Validated cfg) {ls : List Label} {s : State}
    (run : Run (server cfg sha256 limits) ls s) : Isolated cfg s := by
  have hboth : Disciplined s ∧ Isolated cfg s := by
    refine run.invariant (fun s => Disciplined s ∧ Isolated cfg s) ?_ ?_
    · rintro s rfl
      have hinit : Run (server cfg sha256 limits) [] ⟨newManager limits, []⟩ := .init rfl
      refine ⟨disciplined_run hinit, ?_, ?_, ?_⟩
      · intro c origin h
        simp [originOf] at h
      · intro ref i c hc
        rw [Attached, room_of_ge _ (Nat.zero_le ref), slot_absent] at hc
        cases hc
      · intro ref hlt
        exact absurd hlt (Nat.not_lt_zero ref)
    · intro s l t h hstep
      exact ⟨disciplined_step h.1 hstep, isolated_step hcfg h.1 h.2 hstep⟩
  exact hboth.2

def Concerns (m : Manager) (ref : Nat) : Op → Prop
  | .join _ code _ _ _ => m.lookup code = some ref ∨ m.lookup code = none ∧ ref = m.heap.length
  | .claim _ code _ _ => m.lookup code = some ref
  | .signal sess .. | .leave sess _ | .disconnect sess _ | .touch sess _ => sess.room = ref
  | .gc => False

theorem reaches_concerns {m : Manager} {op : Op} {ref : Nat} {a : Act}
    (h : Reaches m op ref a) : Concerns m ref op := by
  cases h with
  | join _ _ _ _ _ _ hlook => exact .inl hlook
  | claim _ _ _ _ _ hlook => exact hlook
  | _ => rfl

theorem does_unseated {env : Env} {r r' : Room} {a : Act} {o : Outcome} {out : List Out}
    (h : Does sha256 env r a o r' out) {c : Conn} (hc : joining a = some c) :
    (∃ i, o = .seated i) ∨ out = [] := by
  cases h with
  | stale | barred | rejected => exact .inr rfl
  | resumed | occupied | replaced => exact .inl ⟨_, rfl⟩
  | touched | unsent | relayed | overflowed | freed | detached => cases hc

/-- Whoever hears of an operation in a room is attached to it or enters it. -/
theorem does_reaches {env : Env} {r r' : Room} {a : Act} {o : Outcome} {out : List Out}
    (h : Does sha256 env r a o r' out) (hd : Distinct r)
    (hfree : ∀ d, joining a = some d → ∀ j, (r.slot j).conn ≠ some d) {c : Conn} {m : Msg}
    (hm : m ∈ accepted c out) :
    (∃ j, (r.slot j).conn = some c) ∨ joining a = some c ∧ ∃ i, o = .seated i := by
  by_cases hc : ∃ j, (r.slot j).conn = some c
  · exact .inl hc
  by_cases hj : joining a = some c
  · rcases does_unseated h hj with hseat | rfl
    · exact .inr ⟨hj, hseat⟩
    · cases hm
  · rw [(does_others h hd hfree (fun j hcj => hc ⟨j, hcj⟩) hj).1] at hm
    cases hm

theorem heard_welcome (hcfg : Validated cfg) {s t : State} {l : Label} (hd : Disciplined s)
    (hs : Isolated cfg s) (hstep : (server cfg sha256 limits).step s l t) {c : Conn} {m : Msg}
    (hm : m ∈ accepted c l.out) (herr : ¬IsError m) :
    ∃ op ref origin, l.op = some op ∧ Concerns s.manager ref op ∧ originOf s c = some origin ∧
      Welcome cfg origin (t.manager.room ref).appID := by
  cases step_acts hd hstep with
  | idle _ _ _ herrors => exact absurd (herrors c m hm) herr
  | calls op hop hl _ ht hout hreply =>
    have hold : ∀ ref j, Attached s ref j c → ∃ origin, originOf s c = some origin ∧
        Welcome cfg origin (t.manager.room ref).appID := fun ref j hc =>
      ht ▸ attached_welcome hd hs l.env op hc
    have hnew : ∀ a ref i, opAct op = some a → joining a = some c →
        l.reply = .session (.ok ⟨ref, i⟩) → ∃ origin, originOf s c = some origin ∧
          Welcome cfg origin (t.manager.room ref).appID := by
      intro a ref i ha hj hseat
      have hjoin : opJoining op = some c := by rw [opJoining, ha]; exact hj
      rw [ht]
      exact seated_welcome hcfg hs hstep hop hjoin (hreply.symm.trans hseat)
    have hplaced := Disciplined.placed hd
    have heff := apply_effect sha256 l.env s.manager op
    rw [hout] at hm
    generalize s.manager.apply sha256 l.env op = res at heff hm hreply
    cases heff with
    | declined m' out reply _ hswept =>
      rw [hswept.silent.accepted] at hm
      cases hm
    | reached ref a o r' out reply hreach hdoes hans =>
      have ha := reaches_opAct hreach
      have hfound : ∃ origin, originOf s c = some origin ∧
          Welcome cfg origin (t.manager.room ref).appID := by
        rcases does_reaches hdoes (hplaced.distinct ref)
          (fun d hj => loose_act hl ha d hj ref) hm with ⟨j, hj⟩ | ⟨hj, i, rfl⟩
        · exact hold ref j hj
        · exact hnew a ref i ha hj (hreply.trans ((hans.seated ⟨ref, i⟩).2 ⟨rfl, rfl⟩))
      obtain ⟨origin, horigin, hwelcome⟩ := hfound
      exact ⟨op, ref, origin, hop, reaches_concerns hreach, horigin, hwelcome⟩
    | created m₁ swept a o r' out reply hmake hdoes hans =>
      cases hmake with
      | join appID code resumeToken opts conn m₀ _ hlook hswept =>
        rw [accepted_append, hswept.silent.accepted, List.nil_append] at hm
        rw [room_create, if_pos hswept.length.symm] at hdoes
        have hnone : ∀ j d, ((newRoom appID code opts l.env.now).slot j).conn ≠ some d := by simp
        rcases does_reaches hdoes (fun i _ d hi => absurd hi (hnone i d))
          (fun d _ j => hnone j d) hm with ⟨j, hj⟩ | ⟨hj, i, rfl⟩
        · exact absurd hj (hnone j c)
        · obtain ⟨origin, horigin, hwelcome⟩ := hnew _ _ i rfl hj
            (hreply.trans ((hans.seated ⟨_, i⟩).2 ⟨rfl, rfl⟩))
          exact ⟨_, s.manager.heap.length, origin, hop, .inr ⟨hlook, rfl⟩, horigin, hwelcome⟩

/-- Whoever is attached to a room, or hears of something there, was opened with an origin
that is welcome to the room's app; and no room is larger than its app allows. -/
theorem origin_isolation (cfg : Config) (hcfg : Validated cfg) (sha256 : String → TokenHash)
    (limits : Limits) (ls : List Label) (s : State) (run : Run (server cfg sha256 limits) ls s) :
    (∀ ref i c, Attached s ref i c → ∃ origin, originOf s c = some origin ∧
      Welcome cfg origin (s.manager.room ref).appID ∧
      ∀ appID, OnlyFor cfg origin appID → (s.manager.room ref).appID = appID) ∧
    (∀ l t, (server cfg sha256 limits).step s l t → ∀ c, ∀ m ∈ accepted c l.out, ¬IsError m →
      ∃ op ref origin, l.op = some op ∧ Concerns s.manager ref op ∧
        originOf s c = some origin ∧ Welcome cfg origin (t.manager.room ref).appID ∧
        ∀ appID, OnlyFor cfg origin appID → (t.manager.room ref).appID = appID) ∧
    ∀ ref, ref < s.manager.heap.length →
      Fits cfg (s.manager.room ref).appID (s.manager.room ref).slots.length := by
  have hs := isolated_run hcfg run
  refine ⟨?_, ?_, hs.sized⟩
  · intro ref i c hc
    obtain ⟨origin, horigin, hwelcome⟩ := hs.attached ref i c hc
    exact ⟨origin, horigin, hwelcome, fun appID => hwelcome.only⟩
  · intro l t hstep c m hm herr
    obtain ⟨op, ref, origin, hop, hconcerns, horigin, hwelcome⟩ :=
      heard_welcome hcfg (disciplined_run run) hs hstep hm herr
    exact ⟨op, ref, origin, hop, hconcerns, horigin, hwelcome, fun appID => hwelcome.only⟩

/-- A server for two apps, each with a page of its own. -/
def arcade : Config := { nativeOnly with
  apps := [{ id := "game", allowedOrigins := ["https://game.example/"], maxPlayersMax := 2 },
    { id := "quiz", allowedOrigins := ["https://quiz.example"] }] }

theorem validated_arcade : Validated arcade where
  hard := by decide
  bounded := by decide
  named := by decide
  distinct := by decide

def gameOrigin : String := "https://game.example"

theorem only_game : OnlyFor arcade gameOrigin "game" := by
  refine ⟨by decide, rfl, fun app happ hlist => ?_⟩
  rcases List.mem_pair.1 happ with rfl | rfl
  · rfl
  · have hother : arcade.originInList gameOrigin ["https://quiz.example"] = false := by decide +kernel
    exact absurd (hother.symm.trans hlist) (by decide)

def gameEvents : List (Event × Env) :=
  [(.accept gameOrigin, calm 1 ""), (.text 0 (.ok { joinMsg "" with appID := "game" }), calm 1 ""),
    (.proceed 0, calm 1 "a")]

def inGame (s : State) : Bool :=
  ((s.manager.room 0).slot 0).conn = some 0 ∧ 0 < s.manager.heap.length ∧ originOf s 0 = some gameOrigin

theorem origin_isolation_join : ∃ ls s, Run (server arcade codePoints smallLimits) ls s ∧
    Attached s 0 0 0 ∧ originOf s 0 = some gameOrigin ∧ Welcome arcade gameOrigin "game" ∧
    (s.manager.room 0).appID = "game" ∧ Fits arcade "game" (s.manager.room 0).slots.length := by
  have hplayed : (exec arcade codePoints gameEvents ⟨newManager smallLimits, []⟩).any
      (fun r => inGame r.1) = true := by decide +kernel
  obtain ⟨⟨s, ls⟩, hexec, hin⟩ := (Option.any_eq_true _ _).1 hplayed
  obtain ⟨hconn, hlt, horigin⟩ := of_decide_eq_true hin
  have run := exec_run hexec
  obtain ⟨hattached, -, hsized⟩ :=
    origin_isolation arcade validated_arcade codePoints smallLimits ls s run
  obtain ⟨origin, horigin', hwelcome, honly⟩ := hattached 0 0 0 hconn
  obtain rfl := Option.some.inj (horigin.symm.trans horigin')
  have happ := honly "game" only_game
  exact ⟨ls, s, run, hconn, horigin, happ ▸ hwelcome, happ, happ ▸ hsized 0 hlt⟩

end Lobbylink.Server.Isolation
