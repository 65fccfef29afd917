import Lobbylink.Server.Registry

/-! The application and origin policy that a socket passes before it reaches the
lobby. Only the fields the signalling path reads are here. -/
namespace Lobbylink.Server.Policy
open Protocol Lobby Registry

structure App where
  id : String
  allowedOrigins : List String := []
  maxPlayersMax : Int := 0

structure Security where
  allowedOrigins : List String := []
  allowNoOrigin : Bool := false

structure Rooms where
  maxPlayersHard : Int := 32
  claimAfter : Duration := 40 * second

/-- `equalFold` is `strings.EqualFold`, comparison under Unicode case folding. -/
structure Config where
  equalFold : String → String → Bool
  security : Security
  rooms : Rooms
  apps : List App

def Config.appByID (cfg : Config) (id : String) : Option App := cfg.apps.find? (·.id == id)

def trimSlash (s : String) : String := (s.dropSuffix "/").toString

def Config.originInList (cfg : Config) (origin : String) (list : List String) : Bool :=
  list.any fun o => cfg.equalFold (trimSlash o) (trimSlash origin)

def Config.originAllowed (cfg : Config) (origin : String) : Bool :=
  cfg.originInList origin cfg.security.allowedOrigins

def Config.originAllowedForApp (cfg : Config) (origin : String) (app : Option App) : Bool :=
  cfg.originAllowed origin ||
    match app with
    | none => false
    | some app => cfg.originInList origin app.allowedOrigins

def Config.originKnown (cfg : Config) (origin : String) : Bool :=
  cfg.originAllowed origin || cfg.apps.any fun app => cfg.originAllowedForApp origin (some app)

/-- A missing origin is a native client. -/
def Config.wsOriginAllowed (cfg : Config) (origin : String) : Bool :=
  if origin = "" then cfg.security.allowNoOrigin else cfg.originKnown origin

/-- The app a message names, if it names one. -/
def Config.resolveApp (cfg : Config) (appID : String) : Except ProtoError (Option App) :=
  if appID = "" then .ok none
  else match cfg.appByID appID with
    | none => .error ⟨.unknownApp, "unknown appId " ++ quote appID⟩
    | some app => .ok (some app)

def Config.checkOrigin (cfg : Config) (origin : String) (app : Option App) :
    Except ProtoError Unit :=
  if origin = "" then .ok ()
  else if cfg.originAllowed origin || (app.isSome && cfg.originAllowedForApp origin app) then .ok ()
  else .error ⟨.originForbidden, "origin " ++ quote origin ++ " not allowed for this app"⟩

def Config.maxPlayers (cfg : Config) (app : Option App) : Int :=
  match app with
  | none => cfg.rooms.maxPlayersHard
  | some app =>
    if app.maxPlayersMax > 0 ∧ app.maxPlayersMax < cfg.rooms.maxPlayersHard then
      app.maxPlayersMax
    else cfg.rooms.maxPlayersHard

def Config.resolveOptions (cfg : Config) (app : Option App) (create : Option CreateOptions) :
    Except ProtoError (Option RoomOptions) :=
  match create with
  | none => .ok none
  | some create => (resolveCreate create (cfg.maxPlayers app) cfg.rooms.claimAfter).map some

/-- The lobby call that a join or claim-slot message of transport `conn` becomes. -/
def Config.joinOrClaim (cfg : Config) (msg : ClientMessage) (conn : Conn) (origin : String) :
    Except ProtoError Op := do
  let app ← cfg.resolveApp msg.appID
  cfg.checkOrigin origin app
  if msg.type = .claimSlot then
    -- `ParseClientMessage` has refused a claim without a player id
    return .claim msg.appID msg.code (msg.playerID.getD 0) conn
  let opts ← cfg.resolveOptions app msg.create
  return .join msg.appID msg.code msg.resumeToken opts conn

theorem joinOrClaim_op {cfg : Config} {msg : ClientMessage} {conn : Conn} {origin : String}
    {op : Op} (h : cfg.joinOrClaim msg conn origin = .ok op) :
    (∃ appID code playerID, op = .claim appID code playerID conn) ∨
      ∃ appID code resumeToken create, op = .join appID code resumeToken create conn := by
  unfold Config.joinOrClaim at h
  cases happ : cfg.resolveApp msg.appID with
  | error e => simp [happ, bind, Except.bind] at h
  | ok app =>
    cases horigin : cfg.checkOrigin origin app with
    | error e => simp [happ, horigin, bind, Except.bind] at h
    | ok u =>
      simp only [happ, horigin, bind, Except.bind] at h
      split at h
      · cases h
        exact .inl ⟨_, _, _, rfl⟩
      · cases hopts : cfg.resolveOptions app msg.create with
        | error e => simp [hopts] at h
        | ok opts =>
          simp only [hopts] at h
          cases h
          exact .inr ⟨_, _, _, _, rfl⟩

end Lobbylink.Server.Policy
