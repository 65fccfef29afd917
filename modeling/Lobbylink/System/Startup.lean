import Lobbylink.Config.Orders
import Lobbylink.Config.Validate
import Lobbylink.Server.Isolation
import Lobbylink.Server.Lifetime
import Lobbylink.Server.Representation

/-! From a config file to a running server. What the server is started with is what its
results assume of a config. -/
namespace Lobbylink.System.Startup
open Lib.Runs Config.Toml Config.Load Config.Orders Config.Validate
open Server.Protocol Server.Lobby Server.Registry Server.Policy Server.Catalog Server.Isolation
open Server.Ledger Server.Lifetime Server.Representation
open Server.Websocket (State Stepped server step_cases)

inductive StartError where
  | load (e : LoadError)
  | validate (e : ValidateError)

section Starting
variable (lib : GoLib) (parseDuration : Text → Except Text Int)

/-- `LoadConfig` and the check of `FromInternal`. -/
def fromFile (order : Order) (src : Text) : Except StartError Config.Load.Config :=
  match loadTOML parseDuration order src defaults with
  | .error e => .error (.load e)
  | .ok c =>
    match validate lib c with
    | .error e => .error (.validate e)
    | .ok c => .ok c

end Starting

/-- What the sockets read of a config. -/
def serving (equalFold : String → String → Bool) (c : Config.Load.Config) : Server.Policy.Config where
  equalFold := equalFold
  security := ⟨c.security.allowedOrigins.map String.ofList, c.security.allowNoOrigin⟩
  rooms := ⟨c.rooms.maxPlayersHard, c.rooms.claimAfter⟩
  apps := c.apps.map fun a => ⟨String.ofList a.id, a.allowedOrigins.map String.ofList, a.maxPlayersMax⟩

/-- The limits that `FromInternal` gives to the manager. -/
def limitsOf (c : Config.Load.Config) : Limits := ⟨c.rooms.emptyTTL, c.rooms.maxTTL, c.rooms.maxRooms⟩

variable {lib : GoLib} {parseDuration : Text → Except Text Int} {order : Order} {src : Text}
  {c : Config.Load.Config}

theorem fromFile_steps : fromFile lib parseDuration order src = .ok c ↔
    ∃ cfg, loadTOML parseDuration order src defaults = .ok cfg ∧ validate lib cfg = .ok c := by
  unfold fromFile
  cases loadTOML parseDuration order src defaults with
  | error e => simp
  | ok cfg => cases hvalid : validate lib cfg <;> simp [hvalid]

/-- The config that is written in the file, with the secret of the TURN server. -/
def withSecret (c : Config.Load.Config) (secret : List UInt8) : Config.Load.Config :=
  { c with turn := { c.turn with secret := secret } }

theorem fromFile_ok : fromFile lib parseDuration order src = .ok c ↔
    ∃ doc secret, parseTOML src = .ok doc ∧ Accepted parseDuration doc ∧
      Valid lib (written parseDuration doc defaults) secret ∧
      c = withSecret (written parseDuration doc defaults) secret := by
  rw [fromFile_steps]
  cases hparse : parseTOML src with
  | error e => simp [loadTOML, hparse]
  | ok doc =>
    have hload (cfg : Config.Load.Config) : loadTOML parseDuration order src defaults = .ok cfg ↔
        Accepted parseDuration doc ∧ cfg = written parseDuration doc defaults :=
      loadTOML_ok hparse order
    constructor
    · rintro ⟨cfg, hcfg, hchecked⟩
      obtain ⟨haccepted, rfl⟩ := (hload cfg).1 hcfg
      obtain ⟨secret, hvalid, hc⟩ := validate_ok.1 hchecked
      exact ⟨doc, secret, rfl, haccepted, hvalid, hc⟩
    · rintro ⟨doc', secret, hdoc, haccepted, hvalid, hc⟩
      obtain rfl := Except.ok.inj hdoc
      exact ⟨_, (hload _).2 ⟨haccepted, rfl⟩, validate_ok.2 ⟨secret, hvalid, hc⟩⟩

/-- A `time.Duration` has 64 bits. -/
def Ranged (parseDuration : Text → Except Text Int) : Prop :=
  ∀ s d, parseDuration s = .ok d → d ≤ maxDuration

theorem given_duration (hrange : Ranged parseDuration) (v : Option Value) {old : Int}
    (hold : old ≤ maxDuration) : given (asDuration parseDuration) v old ≤ maxDuration := by
  unfold given
  cases hgiven : v.bind (asDuration parseDuration) with
  | none => exact hold
  | some d =>
    obtain ⟨value, -, hvalue⟩ := Option.bind_eq_some_iff.1 hgiven
    obtain ⟨text, -, htext⟩ := Option.bind_eq_some_iff.1 hvalue
    obtain ⟨hparsed, -⟩ := Option.filter_eq_some_iff.1 htext
    cases hresult : parseDuration text with
    | error e => simp [hresult, Except.toOption] at hparsed
    | ok d' =>
      obtain rfl : d' = d := by simpa [hresult, Except.toOption] using hparsed
      exact hrange text d' hresult

theorem written_named {doc : Doc} (h : Accepted parseDuration doc) {a : Config.Load.App}
    (ha : a ∈ (written parseDuration doc defaults).apps) : a.id ≠ [] := by
  obtain ⟨t, ht, rfl⟩ := List.mem_map.1 ha
  cases hlook : doc.arrays.lookup "apps".toList with
  | none =>
    rw [hlook] at ht
    cases ht
  | some ts =>
    rw [hlook, Option.getD_some] at ht
    exact ((h.arrays _ ts (Lib.Dict.mem_of_lookup hlook)).2 t ht).2

variable {sha256 : String → TokenHash} {limits : Limits} {cfg : Server.Policy.Config}

structure Few (limits : Limits) (m : Manager) : Prop where
  listed : Listed m
  given : m.limits = limits
  few : (m.rooms.length : Int) ≤ limits.maxRooms

theorem Few.call {m : Manager} (h : Few limits m) (env : Env) (op : Option Op) :
    Few limits (State.call sha256 env m op).manager := by
  cases op with
  | none => exact h
  | some op =>
    have hfew := h.few
    rw [← h.given] at hfew
    refine ⟨listed_apply h.listed op, (limits_apply m op).trans h.given, ?_⟩
    rw [← h.given]
    exact rooms_apply h.listed op hfew

theorem few_server (hmax : 0 ≤ limits.maxRooms) {ls : List Server.Websocket.Label} {s : State}
    (run : Run (server cfg sha256 limits) ls s) : Few limits s.manager := by
  refine run.invariant (fun s => Few limits s.manager) ?_ ?_
  · rintro s rfl
    exact ⟨listed_new limits, rfl, hmax⟩
  · rintro s l t h hstep
    cases step_cases hstep with
    | accepted origin ht =>
      rw [ht]
      exact h
    | collected ht =>
      rw [ht]
      exact h.call l.env _
    | moved c handler mv _ _ _ ht =>
      rw [ht]
      exact h.call l.env _

/-- What the server makes of a config: its policy and limits are as its results assume, and in
no run are there too many rooms, or a room that is too large. -/
structure Serves (c : Config.Load.Config) (equalFold : String → String → Bool)
    (sha256 : String → TokenHash) : Prop where
  policy : Validated (serving equalFold c)
  timed : Timed (limitsOf c)
  rooms : ∀ ls s, Run (server (serving equalFold c) sha256 (limitsOf c)) ls s →
    (s.manager.rooms.length : Int) ≤ c.rooms.maxRooms ∧ ∀ ref, ref < s.manager.heap.length →
      1 ≤ (s.manager.room ref).slots.length ∧ (s.manager.room ref).slots.length ≤ 1024 ∧
      ∀ a ∈ c.apps, String.ofList a.id = (s.manager.room ref).appID → 0 < a.maxPlayersMax →
        (s.manager.room ref).slots.length ≤ a.maxPlayersMax

theorem validated_serving {secret : List UInt8} (h : Valid lib c secret)
    (hnamed : ∀ a ∈ c.apps, a.id ≠ []) (equalFold : String → String → Bool) :
    Validated (serving equalFold c) where
  hard := h.hard
  bounded := by
    intro app happ
    obtain ⟨a, ha, rfl⟩ := List.mem_map.1 happ
    exact (h.apps a ha).2
  named := by
    intro app happ
    obtain ⟨a, ha, rfl⟩ := List.mem_map.1 happ
    simpa using hnamed a ha
  distinct := by
    have hids : (serving equalFold c).apps.map (·.id) = (c.apps.map (·.id)).map String.ofList := by
      simp [serving]
    rw [hids]
    exact h.distinct.map fun _ _ => String.ofList_injective

theorem serves {secret : List UInt8} (h : Valid lib c secret) (hnamed : ∀ a ∈ c.apps, a.id ≠ [])
    (hempty : c.rooms.emptyTTL ≤ maxDuration) (hmax : c.rooms.maxTTL ≤ maxDuration)
    (equalFold : String → String → Bool) (sha256 : String → TokenHash) :
    Serves c equalFold sha256 := by
  have hpolicy := validated_serving h hnamed equalFold
  refine ⟨hpolicy, ⟨⟨h.ttls.1, hempty⟩, ⟨h.ttls.2.1, hmax⟩⟩, fun ls s run => ⟨?_, fun ref hlt => ?_⟩⟩
  · have hrooms : 0 ≤ (limitsOf c).maxRooms := Int.le_trans (by decide) h.rooms
    exact (few_server hrooms run).few
  · obtain ⟨hhard, happ⟩ := (isolated_run hpolicy run).sized ref hlt
    have hone : 1 ≤ (s.manager.room ref).slots.length :=
      (s.manager.room ref).slots_length ▸ (s.manager.room ref).opts.positive
    have hall : (serving equalFold c).rooms.maxPlayersHard ≤ 1024 := h.hard.2
    refine ⟨hone, by omega, fun a ha hid hlimit => ?_⟩
    exact happ _ (List.mem_map_of_mem ha) hid hlimit

/-- Which files a server starts from, and what it is then. -/
theorem server_starts (hrange : Ranged parseDuration) :
    (fromFile lib parseDuration order src = .ok c ↔
      ∃ doc secret, parseTOML src = .ok doc ∧ Accepted parseDuration doc ∧
        Valid lib (written parseDuration doc defaults) secret ∧
        c = withSecret (written parseDuration doc defaults) secret) ∧
    (fromFile lib parseDuration order src = .ok c → ∀ equalFold sha256, Serves c equalFold sha256) := by
  refine ⟨fromFile_ok, fun hstarts equalFold sha256 => ?_⟩
  obtain ⟨doc, secret, -, haccepted, hvalid, rfl⟩ := fromFile_ok.1 hstarts
  have hempty : (written parseDuration doc defaults).rooms.emptyTTL ≤ maxDuration :=
    given_duration hrange _ (by decide)
  have hmax : (written parseDuration doc defaults).rooms.maxTTL ≤ maxDuration :=
    given_duration hrange _ (by decide)
  have hserves := serves hvalid (fun a ha => written_named haccepted ha) hempty hmax equalFold sha256
  exact ⟨hserves.policy, hserves.timed, hserves.rooms⟩

/-- The proxy of the defaults is an address; nothing else is asked. -/
def plainLib : GoLib := ⟨fun _ => none, fun p => p = "127.0.0.1".toList, fun _ => .error [], id⟩

def appFile : Text := "[server]\nlisten_http = \":80\"\n[[apps]]\nid = \"a\"\nmax_players_max = 4".toList

def appConfig : Config.Load.Config :=
  { defaults with
    server := { defaults.server with listenHTTP := ":80".toList }
    apps := [⟨['a'], [], 4, true⟩] }

theorem server_starts_app : fromFile plainLib (fun _ => .error []) .asWritten appFile = .ok appConfig ∧
    Serves appConfig (· == ·) Server.Websocket.codePoints := by
  have hstarts : fromFile plainLib (fun _ => .error []) .asWritten appFile = .ok appConfig := rfl
  have hrange : Ranged fun _ => .error [] := fun _ _ h => by cases h
  exact ⟨hstarts, (server_starts hrange).2 hstarts _ _⟩

end Lobbylink.System.Startup
