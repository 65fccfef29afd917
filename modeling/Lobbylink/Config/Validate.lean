import Lobbylink.Config.Load

/-! The checks of a loaded config. The first one that fails is the one that is told, and the
secret of the TURN server is read on the way. -/
namespace Lobbylink.Config.Validate
open Toml Load

/-- What `url.Parse` finds in a URL. -/
structure Url where
  scheme : Text
  host : Text
  path : Text

/-- `url.Parse`, `net.ParseIP`, `os.ReadFile` and `strings.TrimSpace`. -/
structure GoLib where
  parseURL : Text → Option Url
  parseIP : Text → Bool
  readFile : Text → Except Text (List UInt8)
  trimSpace : List UInt8 → List UInt8

inductive ValidateError where
  | noListener
  | certAndKey
  | publicURL (url : Text)
  | origin (o : Text)
  | appOrigin (app o : Text)
  | maxPlayersMax (app : Text) (got hard : Int)
  | trustedProxy (proxy : Text)
  | maxWSMessageBytes
  | maxPlayersHard
  | maxRooms
  | roomTTLs
  | claimAfter
  | logLevel (level : Text)
  | sharedSecretFile
  | turnURLs
  | turnTTL
  | readSecret (error : Text)
  | shortSecret
  | duplicateApp (app : Text)
  deriving DecidableEq, Repr

/-- `quote` is the verb `%q`. -/
def ValidateError.text (quote : Text → String) : ValidateError → String
  | noListener => "no listener configured: set listen_http and/or listen_https"
  | certAndKey => "listen_https requires cert and key"
  | publicURL url => "public_url must be http(s)://host[:port], got " ++ quote url
  | origin o => "allowed origin must be scheme://host[:port], got " ++ quote o
  | appOrigin app o => "app " ++ quote app ++
    ": allowed origin must be scheme://host[:port], got " ++ quote o
  | maxPlayersMax app got hard => "app " ++ quote app ++ ": max_players_max " ++ toString got ++
    " out of range [0," ++ toString hard ++ "]"
  | trustedProxy proxy => "trusted proxy " ++ quote proxy ++ " is not a valid IP"
  | maxWSMessageBytes => "max_ws_message_bytes must be >= 4096"
  | maxPlayersHard => "max_players_hard out of range [1,1024]"
  | maxRooms => "max_rooms must be >= 1"
  | roomTTLs => "room TTLs and gc_interval must be positive"
  | claimAfter => "claim_after must be >= 0"
  | logLevel level => "log_level must be debug|info|warn|error, got " ++ quote level
  | sharedSecretFile => "turn.enabled requires shared_secret_file"
  | turnURLs => "turn.enabled requires urls"
  | turnTTL => "turn.ttl must be positive"
  | readSecret error => "read turn secret: " ++ String.ofList error
  | shortSecret => "turn secret too short (want >= 16 bytes)"
  | duplicateApp app => "duplicate app id " ++ quote app

def check (bad : Prop) [Decidable bad] (e : ValidateError) : Except ValidateError Unit :=
  if bad then .error e else .ok ()

section Checks
variable (lib : GoLib)

def httpURL (s : Text) : Option Url :=
  (lib.parseURL s).filter fun u =>
    (u.scheme = "http".toList ∨ u.scheme = "https".toList) ∧ u.host ≠ []

def isOrigin (o : Text) : Bool := (httpURL lib o).any fun u => u.path = [] ∨ u.path = "/".toList

def validateApp (hard : Int) (a : App) : Except ValidateError Unit := do
  a.allowedOrigins.forM fun o => check (isOrigin lib o = false) (.appOrigin a.id o)
  check (a.maxPlayersMax < 0 ∨ a.maxPlayersMax > hard) (.maxPlayersMax a.id a.maxPlayersMax hard)

def logLevels : List Text :=
  ["debug".toList, "info".toList, "warn".toList, "error".toList]

/-- The checks of the TURN section, and its secret. -/
def loadSecret (t : Turn) : Except ValidateError Turn :=
  if t.enabled then do
    check (t.sharedSecretFile = []) .sharedSecretFile
    check (t.urls = []) .turnURLs
    check (t.ttl ≤ 0) .turnTTL
    match lib.readFile t.sharedSecretFile with
    | .error e => throw (.readSecret e)
    | .ok bytes =>
      check ((lib.trimSpace bytes).length < 16) .shortSecret
      return { t with secret := lib.trimSpace bytes }
  else return t

/-- The loop over the ids, with those it has seen. -/
def distinctApps : List Text → List App → Except ValidateError Unit
  | _, [] => .ok ()
  | seen, a :: rest =>
    if seen.any (· = a.id) then .error (.duplicateApp a.id) else distinctApps (a.id :: seen) rest

def validate (c : Config) : Except ValidateError Config := do
  check (c.server.listenHTTP = [] ∧ c.server.listenHTTPS = []) .noListener
  check (c.server.listenHTTPS ≠ [] ∧ (c.server.cert = [] ∨ c.server.key = [])) .certAndKey
  check (c.server.publicURL ≠ [] ∧ httpURL lib c.server.publicURL = none)
    (.publicURL c.server.publicURL)
  c.security.allowedOrigins.forM fun o => check (isOrigin lib o = false) (.origin o)
  c.apps.forM (validateApp lib c.rooms.maxPlayersHard)
  c.server.trustedProxies.forM fun p => check (lib.parseIP p = false) (.trustedProxy p)
  check (c.security.maxWSMessageBytes < 4096) .maxWSMessageBytes
  check (c.rooms.maxPlayersHard < 1 ∨ c.rooms.maxPlayersHard > 1024) .maxPlayersHard
  check (c.rooms.maxRooms < 1) .maxRooms
  check (c.rooms.emptyTTL ≤ 0 ∨ c.rooms.maxTTL ≤ 0 ∨ c.rooms.gcInterval ≤ 0) .roomTTLs
  check (c.rooms.claimAfter < 0) .claimAfter
  check (logLevels.any (· = c.server.logLevel) = false) (.logLevel c.server.logLevel)
  let turn ← loadSecret lib c.turn
  distinctApps [] c.apps
  return { c with turn := turn }

/-- A TURN section that can be used, with its secret. -/
def Usable (t : Turn) (secret : List UInt8) : Prop :=
  t.sharedSecretFile ≠ [] ∧ t.urls ≠ [] ∧ 0 < t.ttl ∧
    ∃ bytes, lib.readFile t.sharedSecretFile = .ok bytes ∧ lib.trimSpace bytes = secret ∧
      16 ≤ secret.length

structure Valid (c : Config) (secret : List UInt8) : Prop where
  listens : c.server.listenHTTP ≠ [] ∨ c.server.listenHTTPS ≠ []
  certified : c.server.listenHTTPS ≠ [] → c.server.cert ≠ [] ∧ c.server.key ≠ []
  publicURL : c.server.publicURL ≠ [] → httpURL lib c.server.publicURL ≠ none
  origins : ∀ o ∈ c.security.allowedOrigins, isOrigin lib o = true
  apps : ∀ a ∈ c.apps, (∀ o ∈ a.allowedOrigins, isOrigin lib o = true) ∧
    0 ≤ a.maxPlayersMax ∧ a.maxPlayersMax ≤ c.rooms.maxPlayersHard
  proxies : ∀ p ∈ c.server.trustedProxies, lib.parseIP p = true
  messages : 4096 ≤ c.security.maxWSMessageBytes
  hard : 1 ≤ c.rooms.maxPlayersHard ∧ c.rooms.maxPlayersHard ≤ 1024
  rooms : 1 ≤ c.rooms.maxRooms
  ttls : 0 < c.rooms.emptyTTL ∧ 0 < c.rooms.maxTTL ∧ 0 < c.rooms.gcInterval
  claimAfter : 0 ≤ c.rooms.claimAfter
  level : logLevels.any (· = c.server.logLevel) = true
  turn : if c.turn.enabled then Usable lib c.turn secret else c.turn.secret = secret
  distinct : (c.apps.map (·.id)).Nodup

theorem bind_ok {α β : Type} {x : Except ValidateError α} {f : α → Except ValidateError β} {b : β} :
    (x >>= f) = .ok b ↔ ∃ a, x = .ok a ∧ f a = .ok b := by
  cases x with
  | error e => simp [bind, Except.bind]
  | ok a => simp [bind, Except.bind]

theorem check_ok {bad : Prop} [Decidable bad] {e : ValidateError} {u : Unit} :
    check bad e = .ok u ↔ ¬bad := by
  unfold check
  split_ifs with h <;> simp [h]

theorem forM_ok {α : Type} {f : α → Except ValidateError Unit} {l : List α} {u : Unit} :
    l.forM f = .ok u ↔ ∀ a ∈ l, f a = .ok () := by
  induction l with
  | nil => simp [pure, Except.pure]
  | cons a rest ih =>
    have hcons : (a :: rest).forM f = f a >>= fun _ => rest.forM f := rfl
    rw [hcons, bind_ok, List.forall_mem_cons]
    exact ⟨fun ⟨_, ha, hrest⟩ => ⟨ha, ih.1 hrest⟩, fun ⟨ha, hrest⟩ => ⟨(), ha, ih.2 hrest⟩⟩

variable {lib}

theorem validateApp_ok {hard : Int} {a : App} {u : Unit} : validateApp lib hard a = .ok u ↔
    (∀ o ∈ a.allowedOrigins, isOrigin lib o = true) ∧ 0 ≤ a.maxPlayersMax ∧ a.maxPlayersMax ≤ hard := by
  unfold validateApp
  simp only [bind_ok, forM_ok, check_ok, exists_const, not_or, Int.not_lt, Bool.not_eq_false,
    gt_iff_lt]

theorem loadSecret_ok {t t' : Turn} : loadSecret lib t = .ok t' ↔
    ∃ secret, (if t.enabled then Usable lib t secret else t.secret = secret) ∧
      t' = { t with secret := secret } := by
  unfold loadSecret Usable
  split_ifs with henabled
  · simp only [bind_ok, check_ok, exists_const]
    cases hread : lib.readFile t.sharedSecretFile with
    | error e => simp [throw, throwThe, MonadExceptOf.throw]
    | ok bytes =>
      simp only [bind_ok, check_ok, exists_const, pure, Except.pure, Except.ok.injEq, Nat.not_lt,
        Int.not_le]
      constructor
      · rintro ⟨hfile, hurls, httl, hlong, rfl⟩
        exact ⟨_, ⟨hfile, hurls, httl, bytes, rfl, rfl, hlong⟩, rfl⟩
      · rintro ⟨_, ⟨hfile, hurls, httl, _, rfl, rfl, hlong⟩, rfl⟩
        exact ⟨hfile, hurls, httl, hlong, rfl⟩
  · simp only [pure, Except.pure, Except.ok.injEq]
    constructor
    · rintro rfl
      exact ⟨_, rfl, rfl⟩
    · rintro ⟨_, rfl, rfl⟩
      rfl

theorem distinctApps_ok {seen : List Text} {apps : List App} {u : Unit} :
    distinctApps seen apps = .ok u ↔ (apps.map (·.id)).Nodup ∧ ∀ a ∈ apps, a.id ∉ seen := by
  induction apps generalizing seen with
  | nil => simp [distinctApps]
  | cons a rest ih =>
    unfold distinctApps
    split_ifs with hseen
    · simp_all
    · rw [ih]
      simp only [List.map_cons, List.nodup_cons, List.mem_map, List.mem_cons, not_or, forall_eq_or_imp]
      grind

/-- The config is accepted exactly when it is valid, and only the secret is added to it. -/
theorem validate_ok {c c' : Config} : validate lib c = .ok c' ↔
    ∃ secret, Valid lib c secret ∧ c' = { c with turn := { c.turn with secret := secret } } := by
  unfold validate
  simp only [bind_ok, forM_ok, check_ok, exists_const, validateApp_ok, loadSecret_ok, distinctApps_ok,
    pure, Except.pure, Except.ok.injEq]
  constructor
  · rintro ⟨hlistens, hcertified, hurl, horigins, happs, hproxies, hmessages, hhard, hrooms, httls, hclaim,
      hlevel, _, ⟨secret, hturn, rfl⟩, ⟨hdistinct, -⟩, rfl⟩
    exact ⟨secret, {
      listens := not_and_or.1 hlistens
      certified := fun hused => not_or.1 fun hbad => hcertified ⟨hused, hbad⟩
      publicURL := fun hused hbad => hurl ⟨hused, hbad⟩
      origins := fun o ho => Bool.of_not_eq_false (horigins o ho)
      apps := happs
      proxies := fun p hp => Bool.of_not_eq_false (hproxies p hp)
      messages := Int.not_lt.1 hmessages
      hard := by omega
      rooms := Int.not_lt.1 hrooms
      ttls := by omega
      claimAfter := Int.not_lt.1 hclaim
      level := Bool.of_not_eq_false hlevel
      turn := hturn
      distinct := hdistinct }, rfl⟩
  · rintro ⟨secret, h, rfl⟩
    have hhard := h.hard
    have httls := h.ttls
    refine ⟨not_and_or.2 h.listens, fun hbad => not_or.2 (h.certified hbad.1) hbad.2,
      fun hbad => h.publicURL hbad.1 hbad.2, fun o ho => by simp [h.origins o ho], h.apps,
      fun p hp => by simp [h.proxies p hp], Int.not_lt.2 h.messages, by omega, Int.not_lt.2 h.rooms,
      by omega, Int.not_lt.2 h.claimAfter, by simp [h.level], _, ⟨secret, h.turn, rfl⟩,
      ⟨h.distinct, fun a _ => List.not_mem_nil⟩, rfl⟩

end Checks

end Lobbylink.Config.Validate
