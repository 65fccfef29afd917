import Lobbylink.Config.Toml
import Lobbylink.Lib.Dict

/-! Loading a parsed config file. A binder takes typed values out of a table, marks the
keys it has taken, and does nothing more after an error. -/
namespace Lobbylink.Config.Load
open Lib.Dict Toml

structure Server where
  publicURL : Text
  listenHTTP : Text
  listenHTTPS : Text
  cert : Text
  key : Text
  behindProxy : Bool
  trustedProxies : List Text
  logLevel : Text
  deriving DecidableEq, Repr

structure Security where
  allowedOrigins : List Text
  maxWSMessageBytes : Int
  allowNoOrigin : Bool
  deriving DecidableEq, Repr

structure Turn where
  enabled : Bool
  realm : Text
  sharedSecretFile : Text
  ttl : Int
  urls : List Text
  secret : List UInt8
  deriving DecidableEq, Repr

structure Rooms where
  emptyTTL : Int
  maxTTL : Int
  maxRooms : Int
  maxPlayersHard : Int
  claimAfter : Int
  gcInterval : Int
  deriving DecidableEq, Repr

structure App where
  id : Text
  allowedOrigins : List Text
  maxPlayersMax : Int
  allowTurn : Bool
  deriving DecidableEq, Repr

set_option linter.dupNamespace false in
structure Config where
  server : Server
  security : Security
  turn : Turn
  rooms : Rooms
  apps : List App
  deriving DecidableEq, Repr

inductive LoadError where
  | parse (e : Toml.Error)
  | wrongType (table : Text) (key want : String) (got : Value)
  | badDuration (table : Text) (key : String) (error : Text)
  | negativeDuration (table : Text) (key : String)
  | unsupportedPolicy (policy : Text)
  | topLevel (key : Text)
  | unknownSection (name : Text)
  | unknownKey (table key : Text)
  | unknownArray (name : Text)
  | unknownAppKey (key : Text)
  | missingId
  deriving DecidableEq, Repr

/-- The defaults of the server, with durations in nanoseconds. -/
def defaults : Config where
  server := ⟨[], [], [], [], [], false, ["127.0.0.1".toList], "info".toList⟩
  security := ⟨[], 1048576, false⟩
  turn := ⟨false, [], [], 3600 * 1000000000, [], []⟩
  rooms := ⟨300 * 1000000000, 86400 * 1000000000, 10000, 32, 40 * 1000000000, 30 * 1000000000⟩
  apps := []

structure Ref (σ α : Type) where
  get : σ → α
  set : α → σ → σ
  set_get : ∀ s, set (get s) s = s

namespace Ref

def var {α : Type} : Ref α α := ⟨id, fun v _ => v, fun _ => rfl⟩

def publicURL : Ref Server Text :=
  ⟨Server.publicURL, fun v s => { s with publicURL := v }, fun _ => rfl⟩
def listenHTTP : Ref Server Text :=
  ⟨Server.listenHTTP, fun v s => { s with listenHTTP := v }, fun _ => rfl⟩
def listenHTTPS : Ref Server Text :=
  ⟨Server.listenHTTPS, fun v s => { s with listenHTTPS := v }, fun _ => rfl⟩
def cert : Ref Server Text := ⟨Server.cert, fun v s => { s with cert := v }, fun _ => rfl⟩
def key : Ref Server Text := ⟨Server.key, fun v s => { s with key := v }, fun _ => rfl⟩
def behindProxy : Ref Server Bool :=
  ⟨Server.behindProxy, fun v s => { s with behindProxy := v }, fun _ => rfl⟩
def trustedProxies : Ref Server (List Text) :=
  ⟨Server.trustedProxies, fun v s => { s with trustedProxies := v }, fun _ => rfl⟩
def logLevel : Ref Server Text :=
  ⟨Server.logLevel, fun v s => { s with logLevel := v }, fun _ => rfl⟩

def allowedOrigins : Ref Security (List Text) :=
  ⟨Security.allowedOrigins, fun v s => { s with allowedOrigins := v }, fun _ => rfl⟩
def maxWSMessageBytes : Ref Security Int :=
  ⟨Security.maxWSMessageBytes, fun v s => { s with maxWSMessageBytes := v }, fun _ => rfl⟩
def allowNoOrigin : Ref Security Bool :=
  ⟨Security.allowNoOrigin, fun v s => { s with allowNoOrigin := v }, fun _ => rfl⟩

def enabled : Ref Turn Bool := ⟨Turn.enabled, fun v s => { s with enabled := v }, fun _ => rfl⟩
def realm : Ref Turn Text := ⟨Turn.realm, fun v s => { s with realm := v }, fun _ => rfl⟩
def sharedSecretFile : Ref Turn Text :=
  ⟨Turn.sharedSecretFile, fun v s => { s with sharedSecretFile := v }, fun _ => rfl⟩
def ttl : Ref Turn Int := ⟨Turn.ttl, fun v s => { s with ttl := v }, fun _ => rfl⟩
def urls : Ref Turn (List Text) := ⟨Turn.urls, fun v s => { s with urls := v }, fun _ => rfl⟩

def emptyTTL : Ref Rooms Int := ⟨Rooms.emptyTTL, fun v s => { s with emptyTTL := v }, fun _ => rfl⟩
def maxTTL : Ref Rooms Int := ⟨Rooms.maxTTL, fun v s => { s with maxTTL := v }, fun _ => rfl⟩
def maxRooms : Ref Rooms Int := ⟨Rooms.maxRooms, fun v s => { s with maxRooms := v }, fun _ => rfl⟩
def maxPlayersHard : Ref Rooms Int :=
  ⟨Rooms.maxPlayersHard, fun v s => { s with maxPlayersHard := v }, fun _ => rfl⟩
def claimAfter : Ref Rooms Int :=
  ⟨Rooms.claimAfter, fun v s => { s with claimAfter := v }, fun _ => rfl⟩
def gcInterval : Ref Rooms Int :=
  ⟨Rooms.gcInterval, fun v s => { s with gcInterval := v }, fun _ => rfl⟩

def appID : Ref App Text := ⟨App.id, fun v s => { s with id := v }, fun _ => rfl⟩
def appOrigins : Ref App (List Text) :=
  ⟨App.allowedOrigins, fun v s => { s with allowedOrigins := v }, fun _ => rfl⟩
def maxPlayersMax : Ref App Int :=
  ⟨App.maxPlayersMax, fun v s => { s with maxPlayersMax := v }, fun _ => rfl⟩
def allowTurn : Ref App Bool := ⟨App.allowTurn, fun v s => { s with allowTurn := v }, fun _ => rfl⟩

end Ref

/-- `table` is the section of the binder. -/
structure Binder where
  table : Text
  kv : Table
  used : List Text
  err : Option LoadError
  deriving DecidableEq, Repr

def Binder.take (b : Binder) (key : String) : Binder × Option Value :=
  if b.err.isSome then (b, none)
  else match b.kv.lookup key.toList with
    | none => (b, none)
    | some v => ({ b with used := key.toList :: b.used }, some v)

def Binder.typeErr (b : Binder) (key want : String) (got : Value) : Binder :=
  { b with err := some (.wrongType b.table key want got) }

/-- The first key that the map yields and that is not marked. -/
def Binder.unused (b : Binder) : Text :=
  ((b.kv.map Prod.fst).find? fun k => !b.used.contains k).getD []

/-- A call on a binder, with what its pointers point into. -/
abbrev Step (σ : Type) := Binder × σ → Binder × σ

section Steps
variable {σ α : Type}

/-- What `str`, `strs`, `boolean` and `integer` have in common. -/
def typed (want : String) (cast : Value → Option α) (key : String) (dst : Ref σ α) : Step σ :=
  fun (b, s) =>
    match b.take key with
    | (b, none) => (b, s)
    | (b, some v) =>
      match cast v with
      | none => (b.typeErr key want v, s)
      | some x => (b, dst.set x s)

def asStr : Value → Option Text
  | .str s => some s
  | _ => none

def asStrs : Value → Option (List Text)
  | .strs l => some l
  | _ => none

def asBool : Value → Option Bool
  | .bool x => some x
  | _ => none

def asInt : Value → Option Int
  | .int n => some n
  | _ => none

def str (key : String) (dst : Ref σ Text) : Step σ := typed "string" asStr key dst

def strs (key : String) (dst : Ref σ (List Text)) : Step σ := typed "string array" asStrs key dst

def boolean (key : String) (dst : Ref σ Bool) : Step σ := typed "boolean" asBool key dst

def integer (key : String) (dst : Ref σ Int) : Step σ := typed "integer" asInt key dst

/-- An `int` has 64 bits. -/
def intVal (key : String) (dst : Ref σ Int) : Step σ :=
  fun (b, s) =>
    let (b, n) := integer key .var (b, dst.get s)
    if b.err = none then (b, dst.set n s) else (b, s)

/-- `parseDuration` is `time.ParseDuration`. -/
def duration (parseDuration : Text → Except Text Int) (key : String) (dst : Ref σ Int) : Step σ :=
  fun (b, s) =>
    match b.take key with
    | (b, none) => (b, s)
    | (b, some v) =>
      match asStr v with
      | none => (b.typeErr key "duration string like \"300s\"" v, s)
      | some text =>
        match parseDuration text with
        | .error e => ({ b with err := some (.badDuration b.table key e) }, s)
        | .ok d =>
          if d < 0 then ({ b with err := some (.negativeDuration b.table key) }, s)
          else (b, dst.set d s)

def reconnectPolicy : Step σ :=
  fun (b, s) =>
    let (b, policy) := str "default_reconnect_policy" .var (b, [])
    if b.err = none ∧ policy ≠ [] ∧ policy ≠ "token-or-claim-after-timeout".toList then
      ({ b with err := some (.unsupportedPolicy policy) }, s)
    else (b, s)

def run (steps : List (Step σ)) (b : Binder) (s : σ) : Binder × σ :=
  steps.foldl (fun state step => step state) (b, s)

/-- A section from a new binder to the check for unknown keys. -/
def bindAll (steps : List (Step σ)) (table : Text) (unknown : Text → LoadError) (kv : Table)
    (s : σ) : Except LoadError σ :=
  let (b, s) := run steps ⟨table, kv, [], none⟩ s
  match b.err with
  | some e => .error e
  | none => if b.unused ≠ [] then .error (unknown b.unused) else .ok s

end Steps

section Sections
variable (parseDuration : Text → Except Text Int)

def serverSteps : List (Step Server) :=
  [str "public_url" .publicURL,
   str "listen_http" .listenHTTP,
   str "listen_https" .listenHTTPS,
   str "cert" .cert,
   str "key" .key,
   boolean "behind_proxy" .behindProxy,
   strs "trusted_proxies" .trustedProxies,
   str "log_level" .logLevel]

def securitySteps : List (Step Security) :=
  [strs "allowed_origins" .allowedOrigins,
   integer "max_ws_message_bytes" .maxWSMessageBytes,
   boolean "allow_no_origin" .allowNoOrigin]

def turnSteps : List (Step Turn) :=
  [boolean "enabled" .enabled,
   str "realm" .realm,
   str "shared_secret_file" .sharedSecretFile,
   duration parseDuration "ttl" .ttl,
   strs "urls" .urls]

def roomsSteps : List (Step Rooms) :=
  [duration parseDuration "empty_ttl" .emptyTTL,
   duration parseDuration "max_ttl" .maxTTL,
   intVal "max_rooms" .maxRooms,
   intVal "max_players_hard" .maxPlayersHard,
   duration parseDuration "claim_after" .claimAfter,
   duration parseDuration "gc_interval" .gcInterval,
   reconnectPolicy]

def appSteps : List (Step App) :=
  [str "id" .appID,
   strs "allowed_origins" .appOrigins,
   intVal "max_players_max" .maxPlayersMax,
   boolean "allow_turn" .allowTurn]

def firstKey (kv : Table) : Text := ((kv.map Prod.fst).head?).getD []

/-- One round of the loop over the tables. -/
def loadTable (cfg : Config) : Text × Table → Except LoadError Config
  | (name, kv) =>
    if kv = [] then .ok cfg
    else if name = "server".toList then
      (bindAll serverSteps name (.unknownKey name) kv cfg.server).map fun s => { cfg with server := s }
    else if name = "security".toList then
      (bindAll securitySteps name (.unknownKey name) kv cfg.security).map
        fun s => { cfg with security := s }
    else if name = "turn".toList then
      (bindAll (turnSteps parseDuration) name (.unknownKey name) kv cfg.turn).map
        fun s => { cfg with turn := s }
    else if name = "rooms".toList then
      (bindAll (roomsSteps parseDuration) name (.unknownKey name) kv cfg.rooms).map
        fun s => { cfg with rooms := s }
    else if name = [] then .error (.topLevel (firstKey kv))
    else .error (.unknownSection name)

def loadApp (cfg : Config) (kv : Table) : Except LoadError Config :=
  match bindAll appSteps "apps".toList .unknownAppKey kv ⟨[], [], 0, true⟩ with
  | .error e => .error e
  | .ok app => if app.id = [] then .error .missingId else .ok { cfg with apps := cfg.apps ++ [app] }

/-- One round of the loop over the arrays. -/
def loadArray (cfg : Config) : Text × List Table → Except LoadError Config
  | (name, entries) =>
    if name ≠ "apps".toList then .error (.unknownArray name) else entries.foldlM loadApp cfg

/-- The loops over the maps of a document, in the order of its lists. -/
def loadDoc (doc : Doc) (cfg : Config) : Except LoadError Config :=
  match doc.tables.foldlM (loadTable parseDuration) cfg with
  | .error e => .error e
  | .ok cfg => doc.arrays.foldlM loadArray cfg

structure Reordered (doc d : Doc) : Prop where
  tables : Related List.Perm doc.tables d.tables
  arrays : Related (List.Forall₂ List.Perm) doc.arrays d.arrays

/-- The order in which Go goes through the maps of a document. -/
structure Order where
  apply : Doc → Doc
  reordered : ∀ doc, Reordered doc (apply doc)

def Order.asWritten : Order where
  apply := id
  reordered := fun doc =>
    ⟨.refl List.Perm.refl doc.tables,
      .refl (fun _ => List.forall₂_same.2 fun t _ => .refl t) doc.arrays⟩

def Order.reversed : Order where
  apply := fun doc => ⟨doc.tables.reverse, doc.arrays.reverse⟩
  reordered := fun doc =>
    ⟨.reverse List.Perm.refl doc.tables,
      .reverse (fun _ => List.forall₂_same.2 fun t _ => .refl t) doc.arrays⟩

def loadTOML (order : Order) (src : Text) (cfg : Config) : Except LoadError Config :=
  match parseTOML src with
  | .error e => .error (.parse e)
  | .ok doc => loadDoc parseDuration (order.apply doc) cfg

end Sections

end Lobbylink.Config.Load
