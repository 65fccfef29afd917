import Lobbylink.Config.Documents
import Lobbylink.Config.Load

/-! What a config file writes. It is a function of the values by table and key, so the
order in which the maps are gone through does not show. -/
namespace Lobbylink.Config.Orders
open Lib.Dict Toml Arrays Documents Load

inductive Kind where
  | text | texts | flag | number | duration | policy
  deriving DecidableEq, Repr

def policies : List Text := [[], "token-or-claim-after-timeout".toList]

section Written
variable (parseDuration : Text → Except Text Int)

/-- The duration of a text, if it is one and not negative. -/
def nanos (s : Text) : Option Int := (parseDuration s).toOption.filter (0 ≤ ·)

def Kind.fits : Kind → Value → Bool
  | .text, v => (asStr v).isSome
  | .texts, v => (asStrs v).isSome
  | .flag, v => (asBool v).isSome
  | .number, v => (asInt v).isSome
  | .duration, v => ((asStr v).bind (nanos parseDuration)).isSome
  | .policy, v => (asStr v).any (· ∈ policies)

def given {α : Type} (cast : Value → Option α) (v : Option Value) (old : α) : α :=
  (v.bind cast).getD old

def asDuration (v : Value) : Option Int := (asStr v).bind (nanos parseDuration)

def serverFields : List (String × Kind) :=
  [("public_url", .text), ("listen_http", .text), ("listen_https", .text), ("cert", .text),
   ("key", .text), ("behind_proxy", .flag), ("trusted_proxies", .texts), ("log_level", .text)]

def server (value : String → Option Value) (old : Server) : Server where
  publicURL := given asStr (value "public_url") old.publicURL
  listenHTTP := given asStr (value "listen_http") old.listenHTTP
  listenHTTPS := given asStr (value "listen_https") old.listenHTTPS
  cert := given asStr (value "cert") old.cert
  key := given asStr (value "key") old.key
  behindProxy := given asBool (value "behind_proxy") old.behindProxy
  trustedProxies := given asStrs (value "trusted_proxies") old.trustedProxies
  logLevel := given asStr (value "log_level") old.logLevel

def securityFields : List (String × Kind) :=
  [("allowed_origins", .texts), ("max_ws_message_bytes", .number), ("allow_no_origin", .flag)]

def security (value : String → Option Value) (old : Security) : Security where
  allowedOrigins := given asStrs (value "allowed_origins") old.allowedOrigins
  maxWSMessageBytes := given asInt (value "max_ws_message_bytes") old.maxWSMessageBytes
  allowNoOrigin := given asBool (value "allow_no_origin") old.allowNoOrigin

def turnFields : List (String × Kind) :=
  [("enabled", .flag), ("realm", .text), ("shared_secret_file", .text), ("ttl", .duration),
   ("urls", .texts)]

def turn (value : String → Option Value) (old : Turn) : Turn where
  enabled := given asBool (value "enabled") old.enabled
  realm := given asStr (value "realm") old.realm
  sharedSecretFile := given asStr (value "shared_secret_file") old.sharedSecretFile
  ttl := given (asDuration parseDuration) (value "ttl") old.ttl
  urls := given asStrs (value "urls") old.urls
  secret := old.secret

def roomsFields : List (String × Kind) :=
  [("empty_ttl", .duration), ("max_ttl", .duration), ("max_rooms", .number),
   ("max_players_hard", .number), ("claim_after", .duration), ("gc_interval", .duration),
   ("default_reconnect_policy", .policy)]

def rooms (value : String → Option Value) (old : Rooms) : Rooms where
  emptyTTL := given (asDuration parseDuration) (value "empty_ttl") old.emptyTTL
  maxTTL := given (asDuration parseDuration) (value "max_ttl") old.maxTTL
  maxRooms := given asInt (value "max_rooms") old.maxRooms
  maxPlayersHard := given asInt (value "max_players_hard") old.maxPlayersHard
  claimAfter := given (asDuration parseDuration) (value "claim_after") old.claimAfter
  gcInterval := given (asDuration parseDuration) (value "gc_interval") old.gcInterval

def appFields : List (String × Kind) :=
  [("id", .text), ("allowed_origins", .texts), ("max_players_max", .number), ("allow_turn", .flag)]

def app (value : String → Option Value) : App where
  id := given asStr (value "id") []
  allowedOrigins := given asStrs (value "allowed_origins") []
  maxPlayersMax := given asInt (value "max_players_max") 0
  allowTurn := given asBool (value "allow_turn") true

def fields (name : Text) : Option (List (String × Kind)) :=
  if name = "server".toList then some serverFields
  else if name = "security".toList then some securityFields
  else if name = "turn".toList then some turnFields
  else if name = "rooms".toList then some roomsFields
  else none

def values (t : Table) (key : String) : Option Value := t.lookup key.toList

def value (doc : Doc) (table key : String) : Option Value :=
  (doc.tables.lookup table.toList).bind (values · key)

/-- Every key is a known one, with a value of its type. -/
def Fits (known : List (String × Kind)) (t : Table) : Prop :=
  ∀ key v, (key, v) ∈ t → ∃ f ∈ known, f.1.toList = key ∧ f.2.fits parseDuration v = true

structure Accepted (doc : Doc) : Prop where
  tables : ∀ name t, (name, t) ∈ doc.tables → t ≠ [] →
    ∃ known, fields name = some known ∧ Fits parseDuration known t
  arrays : ∀ name ts, (name, ts) ∈ doc.arrays → name = "apps".toList ∧
    ∀ t ∈ ts, Fits parseDuration appFields t ∧ (app (values t)).id ≠ []

def written (doc : Doc) (cfg : Config) : Config where
  server := server (value doc "server") cfg.server
  security := security (value doc "security") cfg.security
  turn := turn parseDuration (value doc "turn") cfg.turn
  rooms := rooms parseDuration (value doc "rooms") cfg.rooms
  apps := cfg.apps ++ ((doc.arrays.lookup "apps".toList).getD []).map fun t => app (values t)

end Written

variable {parseDuration : Text → Except Text Int} {σ α : Type} {b : Binder} {s s' : σ}
  {key : String} {kind : Kind} {v : Value} {kv : Table}

/-- What a call does. After an error it does nothing; before, it takes the value of its key
if it fits, and else fails. -/
structure Does (parseDuration : Text → Except Text Int) (key : String) (kind : Kind)
    (step : Step σ) (update : Option Value → σ → σ) : Prop where
  failed : ∀ b s, b.err ≠ none → step (b, s) = (b, s)
  absent : ∀ b s, b.err = none → values b.kv key = none → step (b, s) = (b, update none s)
  present : ∀ b s v, b.err = none → values b.kv key = some v → kind.fits parseDuration v = true →
    step (b, s) = ({ b with used := key.toList :: b.used }, update (some v) s)
  refused : ∀ b s v, b.err = none → values b.kv key = some v → kind.fits parseDuration v = false →
    (step (b, s)).1.err ≠ none

theorem take_failed (h : b.err ≠ none) (key : String) : b.take key = (b, none) := by
  unfold Binder.take
  rw [if_pos (Option.isSome_iff_ne_none.2 h)]

theorem take_values (h : b.err = none) (key : String) :
    b.take key = match values b.kv key with
      | none => (b, none)
      | some v => ({ b with used := key.toList :: b.used }, some v) := by
  unfold Binder.take
  rw [if_neg (by rw [h]; exact Bool.false_ne_true)]
  rfl

/-- Writing through a pointer what is given, or what is there. -/
def put (cast : Value → Option α) (dst : Ref σ α) (v : Option Value) (s : σ) : σ :=
  dst.set (given cast v (dst.get s)) s

theorem typed_does {want : String} {cast : Value → Option α} (dst : Ref σ α)
    (hkind : ∀ v, kind.fits parseDuration v = (cast v).isSome) (key : String) :
    Does parseDuration key kind (typed want cast key dst) (put cast dst) where
  failed := fun b s h => by simp only [typed, take_failed h]
  absent := fun b s h hv => by
    simp only [typed, take_values h, hv]
    exact Prod.ext rfl (dst.set_get s).symm
  present := fun b s v h hv hfits => by
    rw [hkind] at hfits
    obtain ⟨x, hx⟩ := Option.isSome_iff_exists.1 hfits
    simp only [typed, take_values h, hv, hx, put, given, Option.bind_some, Option.getD_some]
  refused := fun b s v h hv hfits => by
    rw [hkind, Option.isSome_eq_false_iff, Option.isNone_iff_eq_none] at hfits
    simp only [typed, take_values h, hv, hfits, Binder.typeErr, ne_eq, reduceCtorEq,
      not_false_eq_true]

theorem integer_does (dst : Ref σ Int) (key : String) :
    Does parseDuration key .number (integer key dst) (put asInt dst) :=
  typed_does dst (fun _ => rfl) key

theorem intVal_does (dst : Ref σ Int) (key : String) :
    Does parseDuration key .number (intVal key dst) (put asInt dst) := by
  have hinteger : Does parseDuration key .number (integer key Ref.var) (put asInt Ref.var) :=
    integer_does Ref.var key
  constructor
  · intro b s h
    simp only [intVal, hinteger.failed b _ h, if_neg h]
  · intro b s h hv
    simp only [intVal, hinteger.absent b _ h hv, if_pos h]
    rfl
  · intro b s v h hv hfits
    simp only [intVal, hinteger.present b _ v h hv hfits, if_pos h]
    rfl
  · intro b s v h hv hfits
    have herr := hinteger.refused b (dst.get s) v h hv hfits
    simp only [intVal, if_neg herr]
    exact herr

theorem duration_does (dst : Ref σ Int) (key : String) :
    Does parseDuration key .duration (duration parseDuration key dst)
      (put (asDuration parseDuration) dst) := by
  constructor
  · intro b s h
    simp only [duration, take_failed h]
  · intro b s h hv
    simp only [duration, take_values h, hv]
    exact Prod.ext rfl (dst.set_get s).symm
  · intro b s v h hv hfits
    obtain ⟨d, hd⟩ := Option.isSome_iff_exists.1 hfits
    obtain ⟨text, htext, hnanos⟩ := Option.bind_eq_some_iff.1 hd
    obtain ⟨hparsed, hpos⟩ := Option.filter_eq_some_iff.1 hnanos
    cases hresult : parseDuration text with
    | error e =>
      rw [hresult] at hparsed
      cases hparsed
    | ok d' =>
      rw [hresult] at hparsed
      cases hparsed
      have hnot : ¬d < 0 := Int.not_lt.2 (of_decide_eq_true hpos)
      simp only [duration, take_values h, hv, htext, hresult, if_neg hnot, put, given,
        Option.bind_some, asDuration, hnanos, Option.getD_some]
  · intro b s v h hv hfits
    simp only [duration, take_values h, hv]
    cases htext : asStr v with
    | none => simp only [Binder.typeErr, ne_eq, reduceCtorEq, not_false_eq_true]
    | some text =>
      cases hresult : parseDuration text with
      | error e => simp only [hresult, ne_eq, reduceCtorEq, not_false_eq_true]
      | ok d =>
        have hneg : d < 0 := by
          by_contra hnot
          simp [Kind.fits, htext, nanos, hresult, Except.toOption, Int.not_lt.1 hnot] at hfits
        simp only [hresult, if_pos hneg, ne_eq, reduceCtorEq, not_false_eq_true]

theorem mem_policies {p : Text} :
    p ∈ policies ↔ ¬(p ≠ [] ∧ p ≠ "token-or-claim-after-timeout".toList) := by
  unfold policies
  rw [List.mem_cons, List.mem_singleton]
  tauto

theorem fits_text (v : Value) : Kind.fits parseDuration .text v = (asStr v).isSome := rfl

theorem fits_policy (v : Value) :
    Kind.fits parseDuration .policy v = (asStr v).any (· ∈ policies) := rfl

theorem put_var {α : Type} {cast : Value → Option α} {x : α} (hx : cast v = some x) (old : α) :
    put cast Ref.var (some v) old = x := by
  simp only [put, given, Option.bind_some, hx, Option.getD_some]
  rfl

theorem reconnectPolicy_does :
    Does parseDuration "default_reconnect_policy" .policy (reconnectPolicy (σ := σ))
      (fun _ s => s) := by
  have hstr : Does parseDuration "default_reconnect_policy" .text
      (str "default_reconnect_policy" Ref.var) (put asStr Ref.var) :=
    typed_does Ref.var (fun _ => rfl) _
  constructor
  · intro b s h
    simp only [reconnectPolicy, hstr.failed b [] h, ne_eq, not_true_eq_false, false_and, and_false,
      if_false]
  · intro b s h hv
    simp only [reconnectPolicy, hstr.absent b [] h hv]
    exact if_neg fun hnot => hnot.2.1 rfl
  · intro b s v h hv hfits
    rw [fits_policy] at hfits
    obtain ⟨p, hp, hmem⟩ := (Option.any_eq_true _ _).1 hfits
    have htext : Kind.fits parseDuration .text v = true := by rw [fits_text, hp]; rfl
    simp only [reconnectPolicy, hstr.present b [] v h hv htext, put_var hp]
    exact if_neg fun hnot => mem_policies.1 (of_decide_eq_true hmem) hnot.2
  · intro b s v h hv hfits
    rw [fits_policy] at hfits
    cases hp : asStr v with
    | none =>
      have htext : Kind.fits parseDuration .text v = false := by rw [fits_text, hp]; rfl
      have herr := hstr.refused b [] v h hv htext
      simp only [reconnectPolicy, herr, false_and, if_false]
      exact herr
    | some p =>
      have htext : Kind.fits parseDuration .text v = true := by rw [fits_text, hp]; rfl
      have hmem : p ∉ policies := by
        intro hmem
        rw [hp, Option.any_some, decide_eq_true hmem] at hfits
        cases hfits
      have hpolicy := not_not.1 fun hnot => hmem (mem_policies.2 hnot)
      simp only [reconnectPolicy, hstr.present b [] v h hv htext, put_var hp]
      rw [if_pos ⟨h, hpolicy⟩]
      exact Option.some_ne_none _

structure Entry (parseDuration : Text → Except Text Int) (σ : Type) where
  key : String
  kind : Kind
  step : Step σ
  update : Option Value → σ → σ
  does : Does parseDuration key kind step update

namespace Entry

def text (key : String) (dst : Ref σ Text) : Entry parseDuration σ :=
  ⟨key, .text, str key dst, put asStr dst, typed_does dst (fun _ => rfl) key⟩

def texts (key : String) (dst : Ref σ (List Text)) : Entry parseDuration σ :=
  ⟨key, .texts, strs key dst, put asStrs dst, typed_does dst (fun _ => rfl) key⟩

def flag (key : String) (dst : Ref σ Bool) : Entry parseDuration σ :=
  ⟨key, .flag, boolean key dst, put asBool dst, typed_does dst (fun _ => rfl) key⟩

def number (key : String) (dst : Ref σ Int) : Entry parseDuration σ :=
  ⟨key, .number, integer key dst, put asInt dst, integer_does dst key⟩

def int (key : String) (dst : Ref σ Int) : Entry parseDuration σ :=
  ⟨key, .number, intVal key dst, put asInt dst, intVal_does dst key⟩

def nanos (key : String) (dst : Ref σ Int) : Entry parseDuration σ :=
  ⟨key, .duration, duration parseDuration key dst, put (asDuration parseDuration) dst,
    duration_does dst key⟩

def policy : Entry parseDuration σ := ⟨_, .policy, reconnectPolicy, _, reconnectPolicy_does⟩

end Entry

variable {es : List (Entry parseDuration σ)}

def updates (es : List (Entry parseDuration σ)) (value : String → Option Value) (s : σ) : σ :=
  es.foldl (fun s e => e.update (value e.key) s) s

theorem run_failed (h : b.err ≠ none) (es : List (Entry parseDuration σ)) (s : σ) :
    run (es.map Entry.step) b s = (b, s) := by
  induction es generalizing s with
  | nil => rfl
  | cons e rest ih =>
    have hrest := ih s
    unfold run at hrest ⊢
    rw [List.map_cons, List.foldl_cons, e.does.failed b s h, hrest]

/-- Without an error every key has been taken and written. -/
theorem run_fits (h : b.err = none)
    (hfits : ∀ e ∈ es, ∀ v, values b.kv e.key = some v → e.kind.fits parseDuration v = true) (s : σ) :
    ∃ used, run (es.map Entry.step) b s = ({ b with used := used }, updates es (values b.kv) s) ∧
      ∀ k, k ∈ used ↔
        k ∈ b.used ∨ k ∈ es.map (fun e => e.key.toList) ∧ (b.kv.lookup k).isSome := by
  induction es generalizing b s with
  | nil => exact ⟨b.used, rfl, by simp⟩
  | cons e rest ih =>
    obtain ⟨hfirst, hrest⟩ := List.forall_mem_cons.1 hfits
    cases hv : values b.kv e.key with
    | none =>
      obtain ⟨used, hrun, hused⟩ := ih h hrest (e.update none s)
      refine ⟨used, ?_, fun k => ?_⟩
      · unfold run updates at hrun ⊢
        rw [List.map_cons, List.foldl_cons, List.foldl_cons, e.does.absent b s h hv, hrun, hv]
      · have habsent : k = e.key.toList → ¬(b.kv.lookup k).isSome := by
          rintro rfl hsome
          rw [show b.kv.lookup e.key.toList = none from hv] at hsome
          cases hsome
        rw [hused, List.map_cons, List.mem_cons]
        tauto
    | some v =>
      obtain ⟨used, hrun, hused⟩ :=
        ih (b := { b with used := e.key.toList :: b.used }) h hrest (e.update (some v) s)
      refine ⟨used, ?_, fun k => ?_⟩
      · unfold run updates at hrun ⊢
        rw [List.map_cons, List.foldl_cons, List.foldl_cons, e.does.present b s v h hv (hfirst v hv),
          hrun, hv]
      · have hthere : k = e.key.toList → (b.kv.lookup k).isSome := by
          rintro rfl
          exact Option.isSome_iff_exists.2 ⟨v, hv⟩
        rw [hused, List.map_cons, List.mem_cons, List.mem_cons]
        tauto

theorem run_refused {e : Entry parseDuration σ} (he : e ∈ es) (hv : values b.kv e.key = some v)
    (hfits : e.kind.fits parseDuration v = false) (s : σ) :
    (run (es.map Entry.step) b s).1.err ≠ none := by
  induction es generalizing b s with
  | nil => cases he
  | cons d rest ih =>
    have hcons : run ((d :: rest).map Entry.step) b s =
        run (rest.map Entry.step) (d.step (b, s)).1 (d.step (b, s)).2 := rfl
    rw [hcons]
    by_cases herr : b.err = none
    · cases hd : values b.kv d.key with
      | none =>
        rw [d.does.absent b s herr hd]
        rcases List.mem_cons.1 he with rfl | he
        · rw [hd] at hv
          cases hv
        · exact ih he hv _
      | some w =>
        cases hw : d.kind.fits parseDuration w with
        | false =>
          have hrefused := d.does.refused b s w herr hd hw
          rw [run_failed hrefused]
          exact hrefused
        | true =>
          rw [d.does.present b s w herr hd hw]
          rcases List.mem_cons.1 he with rfl | he
          · rw [hd] at hv
            cases hv
            rw [hw] at hfits
            cases hfits
          · exact ih (b := { b with used := d.key.toList :: b.used }) he hv _
    · rw [d.does.failed b s herr, run_failed herr]
      exact herr

def known (es : List (Entry parseDuration σ)) : List (String × Kind) :=
  es.map fun e => (e.key, e.kind)

theorem unused_nil (hb : Bound b.kv) : b.unused = [] ↔ ∀ e ∈ b.kv, e.1 ∈ b.used := by
  unfold Binder.unused
  cases hfind : (b.kv.map Prod.fst).find? fun k => !b.used.contains k with
  | none =>
    have hall := List.find?_eq_none.1 hfind
    refine ⟨fun _ e he => ?_, fun _ => rfl⟩
    simpa using hall e.1 (List.mem_map_of_mem he)
  | some k =>
    obtain ⟨e, he, rfl⟩ := List.mem_map.1 (List.mem_of_find?_eq_some hfind)
    have hnot : e.1 ∉ b.used := by simpa using List.find?_some hfind
    constructor
    · intro hnil
      exact absurd hnil (validTOMLKey_iff.1 (hb.valid e he)).1
    · intro hall
      exact absurd (hall e he) hnot

theorem mem_known {f : String × Kind} : f ∈ known es ↔ ∃ e ∈ es, e.key = f.1 ∧ e.kind = f.2 := by
  unfold known
  rw [List.mem_map]
  exact ⟨fun ⟨e, he, heq⟩ => ⟨e, he, congrArg Prod.fst heq, congrArg Prod.snd heq⟩,
    fun ⟨e, he, hkey, hkind⟩ => ⟨e, he, Prod.ext hkey hkind⟩⟩

/-- The calls of a section all fit if the section does. -/
theorem Fits.entry (hkeys : ((known es).map fun f => f.1.toList).Nodup)
    (h : Fits parseDuration (known es) kv) {e : Entry parseDuration σ} (he : e ∈ es)
    (hv : values kv e.key = some v) : e.kind.fits parseDuration v = true := by
  obtain ⟨f, hf, hkey, hfits⟩ := h _ v (mem_of_lookup hv)
  obtain ⟨e', he', hkey', hkind⟩ := mem_known.1 hf
  have hkeys : (es.map fun e => e.key.toList).Nodup := by
    unfold known at hkeys
    rwa [List.map_map] at hkeys
  have hsame : e' = e := List.inj_on_of_nodup_map hkeys he' he (by rw [hkey', hkey])
  rw [← hsame, hkind]
  exact hfits

/-- A section is bound exactly if every key is known and fits. -/
theorem bindAll_ok (es : List (Entry parseDuration σ))
    (hkeys : ((known es).map fun f => f.1.toList).Nodup) (hkv : Bound kv) {table : Text}
    {unknown : Text → LoadError} {s s' : σ} :
    bindAll (es.map Entry.step) table unknown kv s = .ok s' ↔
      Fits parseDuration (known es) kv ∧ s' = updates es (values kv) s := by
  by_cases hall : ∀ e ∈ es, ∀ v, values kv e.key = some v → e.kind.fits parseDuration v = true
  · obtain ⟨used, hrun, hused⟩ := run_fits (b := ⟨table, kv, [], none⟩) rfl hall s
    have hunused : Binder.unused ⟨table, kv, used, none⟩ = [] ↔ Fits parseDuration (known es) kv := by
      rw [unused_nil hkv]
      constructor
      · intro h key v hmem
        have hin := (hused key).1 (h (key, v) hmem)
        obtain ⟨e, he, rfl⟩ := List.mem_map.1 (hin.resolve_left List.not_mem_nil).1
        exact ⟨(e.key, e.kind), mem_known.2 ⟨e, he, rfl, rfl⟩, rfl,
          hall e he v (lookup_of_mem hkv.distinct hmem)⟩
      · rintro h ⟨key, v⟩ hmem
        obtain ⟨f, hf, rfl, -⟩ := h key v hmem
        obtain ⟨e, he, hkey, -⟩ := mem_known.1 hf
        refine (hused _).2 (.inr ⟨List.mem_map.2 ⟨e, he, by rw [hkey]⟩, ?_⟩)
        exact Option.isSome_iff_exists.2 ⟨v, lookup_of_mem hkv.distinct hmem⟩
    unfold bindAll
    rw [hrun]
    simp only
    rw [← hunused]
    split_ifs with hnil
    · constructor
      · intro h
        cases h
      · rintro ⟨h, -⟩
        exact absurd h hnil
    · constructor
      · intro h
        cases h
        exact ⟨not_not.1 hnil, rfl⟩
      · rintro ⟨-, rfl⟩
        rfl
  · obtain ⟨e, he, v, hv, hfits⟩ : ∃ e ∈ es, ∃ v, values kv e.key = some v ∧
        e.kind.fits parseDuration v = false := by
      simpa using hall
    have herr := run_refused (b := ⟨table, kv, [], none⟩) he hv hfits s
    obtain ⟨err, herr⟩ := Option.ne_none_iff_exists'.1 herr
    constructor
    · intro h
      unfold bindAll at h
      simp only [herr] at h
      cases h
    · rintro ⟨h, -⟩
      rw [h.entry hkeys he hv] at hfits
      cases hfits

theorem server_ok (hkv : Bound kv) {table : Text} {unknown : Text → LoadError} {s s' : Server} :
    bindAll serverSteps table unknown kv s = .ok s' ↔
      Fits parseDuration serverFields kv ∧ s' = server (values kv) s :=
  bindAll_ok [.text "public_url" .publicURL, .text "listen_http" .listenHTTP,
    .text "listen_https" .listenHTTPS, .text "cert" .cert, .text "key" .key,
    .flag "behind_proxy" .behindProxy, .texts "trusted_proxies" .trustedProxies,
    .text "log_level" .logLevel]
    (by decide : (serverFields.map fun f => f.1.toList).Nodup) hkv

theorem security_ok (hkv : Bound kv) {table : Text} {unknown : Text → LoadError} {s s' : Security} :
    bindAll securitySteps table unknown kv s = .ok s' ↔
      Fits parseDuration securityFields kv ∧ s' = security (values kv) s :=
  bindAll_ok [.texts "allowed_origins" .allowedOrigins,
    .number "max_ws_message_bytes" .maxWSMessageBytes, .flag "allow_no_origin" .allowNoOrigin]
    (by decide : (securityFields.map fun f => f.1.toList).Nodup) hkv

theorem turn_ok (hkv : Bound kv) {table : Text} {unknown : Text → LoadError} {s s' : Turn} :
    bindAll (turnSteps parseDuration) table unknown kv s = .ok s' ↔
      Fits parseDuration turnFields kv ∧ s' = turn parseDuration (values kv) s :=
  bindAll_ok [.flag "enabled" .enabled, .text "realm" .realm,
    .text "shared_secret_file" .sharedSecretFile, .nanos "ttl" .ttl, .texts "urls" .urls]
    (by decide : (turnFields.map fun f => f.1.toList).Nodup) hkv

theorem rooms_ok (hkv : Bound kv) {table : Text} {unknown : Text → LoadError} {s s' : Rooms} :
    bindAll (roomsSteps parseDuration) table unknown kv s = .ok s' ↔
      Fits parseDuration roomsFields kv ∧ s' = rooms parseDuration (values kv) s :=
  bindAll_ok [.nanos "empty_ttl" .emptyTTL, .nanos "max_ttl" .maxTTL,
    .int "max_rooms" .maxRooms, .int "max_players_hard" .maxPlayersHard,
    .nanos "claim_after" .claimAfter, .nanos "gc_interval" .gcInterval, .policy]
    (by decide : (roomsFields.map fun f => f.1.toList).Nodup) hkv

theorem app_ok (hkv : Bound kv) {table : Text} {unknown : Text → LoadError} {a : App} :
    bindAll appSteps table unknown kv ⟨[], [], 0, true⟩ = .ok a ↔
      Fits parseDuration appFields kv ∧ a = app (values kv) :=
  bindAll_ok [.text "id" .appID, .texts "allowed_origins" .appOrigins,
    .int "max_players_max" .maxPlayersMax, .flag "allow_turn" .allowTurn]
    (by decide : (appFields.map fun f => f.1.toList).Nodup) hkv

variable {cfg cfg' : Config} {name : Text} {ts : List Table} {doc d : Doc}

def TableFits (parseDuration : Text → Except Text Int) (e : Text × Table) : Prop :=
  e.2 ≠ [] → ∃ known, fields e.1 = some known ∧ Fits parseDuration known e.2

def writeTable (parseDuration : Text → Except Text Int) (cfg : Config) (e : Text × Table) : Config :=
  if e.1 = "server".toList then { cfg with server := server (values e.2) cfg.server }
  else if e.1 = "security".toList then { cfg with security := security (values e.2) cfg.security }
  else if e.1 = "turn".toList then { cfg with turn := turn parseDuration (values e.2) cfg.turn }
  else if e.1 = "rooms".toList then { cfg with rooms := rooms parseDuration (values e.2) cfg.rooms }
  else cfg

theorem writeTable_nil (cfg : Config) (name : Text) :
    writeTable parseDuration cfg (name, []) = cfg := by
  unfold writeTable
  split_ifs <;> rfl

theorem section_ok {β : Type} {known : List (String × Kind)} {bound : Except LoadError β} {x : β}
    {write : β → Config} (hne : kv ≠ []) (hfields : fields name = some known)
    (hbound : ∀ s', bound = .ok s' ↔ Fits parseDuration known kv ∧ s' = x) :
    bound.map write = .ok cfg' ↔ TableFits parseDuration (name, kv) ∧ cfg' = write x := by
  have hfits : TableFits parseDuration (name, kv) ↔ Fits parseDuration known kv := by
    constructor
    · intro h
      obtain ⟨known', hknown, hfits⟩ := h hne
      rw [hfields] at hknown
      cases hknown
      exact hfits
    · exact fun h _ => ⟨known, hfields, h⟩
  rw [hfits]
  cases hresult : bound with
  | error e =>
    constructor
    · intro h
      cases h
    · rintro ⟨h, -⟩
      rw [(hbound x).2 ⟨h, rfl⟩] at hresult
      cases hresult
  | ok s =>
    obtain ⟨h, rfl⟩ := (hbound s).1 hresult
    constructor
    · intro heq
      cases heq
      exact ⟨h, rfl⟩
    · rintro ⟨-, rfl⟩
      rfl

theorem loadTable_ok {e : Text × Table} (hkv : Bound e.2) :
    loadTable parseDuration cfg e = .ok cfg' ↔
      TableFits parseDuration e ∧ cfg' = writeTable parseDuration cfg e := by
  obtain ⟨name, kv⟩ := e
  by_cases hne : kv = []
  · subst hne
    have hload : loadTable parseDuration cfg (name, []) = .ok cfg := rfl
    rw [hload, writeTable_nil]
    constructor
    · intro h
      cases h
      exact ⟨fun h => absurd rfl h, rfl⟩
    · rintro ⟨-, rfl⟩
      rfl
  · unfold loadTable writeTable
    simp only [if_neg hne]
    split_ifs with hserver hsecurity hturn hrooms htop
    · exact section_ok hne (by subst hserver; rfl) fun s' => server_ok hkv
    · exact section_ok hne (by subst hsecurity; rfl) fun s' => security_ok hkv
    · exact section_ok hne (by subst hturn; rfl) fun s' => turn_ok hkv
    · exact section_ok hne (by subst hrooms; rfl) fun s' => rooms_ok hkv
    all_goals
      have hnone : fields name = none := by
        unfold fields
        rw [if_neg hserver, if_neg hsecurity, if_neg hturn, if_neg hrooms]
      constructor
      · intro h
        cases h
      · rintro ⟨h, -⟩
        obtain ⟨known, hknown, -⟩ := h hne
        rw [hnone] at hknown
        cases hknown

def AppFits (parseDuration : Text → Except Text Int) (t : Table) : Prop :=
  Fits parseDuration appFields t ∧ (app (values t)).id ≠ []

def ArrayFits (parseDuration : Text → Except Text Int) (e : Text × List Table) : Prop :=
  e.1 = "apps".toList ∧ ∀ t ∈ e.2, AppFits parseDuration t

def addApps (cfg : Config) (ts : List Table) : Config :=
  { cfg with apps := cfg.apps ++ ts.map fun t => app (values t) }

theorem loadApp_ok (hkv : Bound kv) :
    loadApp cfg kv = .ok cfg' ↔ AppFits parseDuration kv ∧ cfg' = addApps cfg [kv] := by
  have happ : ∀ a, bindAll appSteps "apps".toList .unknownAppKey kv ⟨[], [], 0, true⟩ = .ok a ↔
      Fits parseDuration appFields kv ∧ a = app (values kv) := fun a => app_ok hkv
  unfold loadApp
  cases hbound : bindAll appSteps "apps".toList .unknownAppKey kv ⟨[], [], 0, true⟩ with
  | error e =>
    constructor
    · intro h
      cases h
    · rintro ⟨⟨h, -⟩, -⟩
      rw [(happ _).2 ⟨h, rfl⟩] at hbound
      cases hbound
  | ok a =>
    obtain ⟨hfits, rfl⟩ := (happ a).1 hbound
    simp only
    split_ifs with hid
    · constructor
      · intro h
        cases h
      · rintro ⟨⟨-, h⟩, -⟩
        exact absurd hid h
    · constructor
      · intro h
        cases h
        exact ⟨⟨hfits, hid⟩, rfl⟩
      · rintro ⟨-, rfl⟩
        rfl

theorem addApps_foldl (ts : List Table) (cfg : Config) :
    ts.foldl (fun cfg t => addApps cfg [t]) cfg = addApps cfg ts := by
  induction ts generalizing cfg with
  | nil => simp [addApps]
  | cons t rest ih =>
    rw [List.foldl_cons, ih]
    simp [addApps]

theorem loadArray_ok {e : Text × List Table} (hts : ∀ t ∈ e.2, Bound t) :
    loadArray cfg e = .ok cfg' ↔ ArrayFits parseDuration e ∧ cfg' = addApps cfg e.2 := by
  obtain ⟨name, ts⟩ := e
  unfold loadArray ArrayFits
  simp only
  split_ifs with hname
  · constructor
    · intro h
      cases h
    · rintro ⟨⟨h, -⟩, -⟩
      exact absurd h hname
  · have hrounds : ∀ t ∈ ts, ∀ s s',
        loadApp s t = .ok s' ↔ AppFits parseDuration t ∧ s' = addApps s [t] :=
      fun t ht s s' => loadApp_ok (hts t ht)
    rw [foldlM_ok hrounds, addApps_foldl]
    simp [not_not.1 hname]

theorem accepted_iff : Accepted parseDuration doc ↔
    (∀ e ∈ doc.tables, TableFits parseDuration e) ∧ ∀ e ∈ doc.arrays, ArrayFits parseDuration e :=
  ⟨fun h => ⟨fun e he => h.tables e.1 e.2 he, fun e he => h.arrays e.1 e.2 he⟩,
    fun h => ⟨fun _ _ he => h.1 _ he, fun _ _ he => h.2 _ he⟩⟩

theorem tables_part {β : Type} (part : Config → β) (table : String)
    (write : (String → Option Value) → β → β) (hdoc : Formed doc)
    (hsame : ∀ cfg t, part (writeTable parseDuration cfg (table.toList, t)) = write (values t) (part cfg))
    (hother : ∀ cfg e, e.1 ≠ table.toList → part (writeTable parseDuration cfg e) = part cfg)
    (hnone : ∀ old, write (fun _ => none) old = old) (cfg : Config) :
    part (doc.tables.foldl (writeTable parseDuration) cfg) = write (value doc table) (part cfg) := by
  rw [foldl_at part (fun t old => write (values t) old) hsame hother hdoc.tables]
  unfold value
  cases doc.tables.lookup table.toList with
  | none => exact (hnone _).symm
  | some t => rfl

theorem foldl_keeps {β γ : Type} (part : σ → β) {f : σ → γ → σ} (h : ∀ s e, part (f s e) = part s)
    (l : List γ) (s : σ) : part (l.foldl f s) = part s := by
  induction l generalizing s with
  | nil => rfl
  | cons e rest ih => rw [List.foldl_cons, ih, h]

theorem tables_foldl (hdoc : Formed doc) (cfg : Config) :
    doc.tables.foldl (writeTable parseDuration) cfg =
      { written parseDuration doc cfg with apps := cfg.apps } := by
  have hserver : (doc.tables.foldl (writeTable parseDuration) cfg).server =
      server (value doc "server") cfg.server :=
    tables_part Config.server "server" server hdoc (fun _ _ => rfl) (fun cfg e he => by
      unfold writeTable
      rw [if_neg he]
      split_ifs <;> rfl) (fun _ => rfl) cfg
  have hsecurity : (doc.tables.foldl (writeTable parseDuration) cfg).security =
      security (value doc "security") cfg.security :=
    tables_part Config.security "security" security hdoc (fun _ _ => rfl) (fun cfg e he => by
      unfold writeTable
      split_ifs <;> rfl) (fun _ => rfl) cfg
  have hturn : (doc.tables.foldl (writeTable parseDuration) cfg).turn =
      turn parseDuration (value doc "turn") cfg.turn :=
    tables_part Config.turn "turn" (turn parseDuration) hdoc (fun _ _ => rfl) (fun cfg e he => by
      unfold writeTable
      split_ifs <;> rfl) (fun _ => rfl) cfg
  have hrooms : (doc.tables.foldl (writeTable parseDuration) cfg).rooms =
      rooms parseDuration (value doc "rooms") cfg.rooms :=
    tables_part Config.rooms "rooms" (rooms parseDuration) hdoc (fun _ _ => rfl) (fun cfg e he => by
      unfold writeTable
      split_ifs <;> rfl) (fun _ => rfl) cfg
  have happs : (doc.tables.foldl (writeTable parseDuration) cfg).apps = cfg.apps :=
    foldl_keeps Config.apps (fun cfg e => by
      unfold writeTable
      split_ifs <;> rfl) doc.tables cfg
  generalize doc.tables.foldl (writeTable parseDuration) cfg = final at *
  obtain ⟨finalServer, finalSecurity, finalTurn, finalRooms, finalApps⟩ := final
  simp only at hserver hsecurity hturn hrooms happs
  subst hserver hsecurity hturn hrooms happs
  rfl

theorem arrays_foldl (hdoc : Formed doc) (h : ∀ e ∈ doc.arrays, ArrayFits parseDuration e)
    (cfg : Config) :
    doc.arrays.foldl (fun cfg e => addApps cfg e.2) cfg =
      addApps cfg ((doc.arrays.lookup "apps".toList).getD []) := by
  cases harrays : doc.arrays with
  | nil => simp [addApps]
  | cons e rest =>
    have hdistinct := hdoc.arrays
    rw [harrays] at h hdistinct
    obtain ⟨he, hrest⟩ := List.forall_mem_cons.1 h
    obtain ⟨name, ts⟩ := e
    obtain ⟨rfl, -⟩ := he
    cases rest with
    | nil => rw [List.lookup_cons_self]; rfl
    | cons e' rest =>
      have hnot := (List.nodup_cons.1 hdistinct).1
      have hname := (hrest e' List.mem_cons_self).1
      exact absurd (List.mem_map.2 ⟨e', List.mem_cons_self, hname⟩) hnot

theorem loadDoc_ok (hdoc : Formed doc) :
    loadDoc parseDuration doc cfg = .ok cfg' ↔
      Accepted parseDuration doc ∧ cfg' = written parseDuration doc cfg := by
  have htables : ∀ e ∈ doc.tables, ∀ s s', loadTable parseDuration s e = .ok s' ↔
      TableFits parseDuration e ∧ s' = writeTable parseDuration s e :=
    fun e he s s' => loadTable_ok (hdoc.table e he)
  have harrays : ∀ e ∈ doc.arrays, ∀ s s', loadArray s e = .ok s' ↔
      ArrayFits parseDuration e ∧ s' = addApps s e.2 :=
    fun e he s s' => loadArray_ok (hdoc.entry e he)
  have hfirst := foldlM_ok htables cfg
  rw [accepted_iff]
  unfold loadDoc
  cases hresult : doc.tables.foldlM (loadTable parseDuration) cfg with
  | error e =>
    constructor
    · intro h
      cases h
    · rintro ⟨⟨h, -⟩, -⟩
      rw [(hfirst _).2 ⟨h, rfl⟩] at hresult
      cases hresult
  | ok m =>
    obtain ⟨htablefits, rfl⟩ := (hfirst m).1 hresult
    simp only
    rw [foldlM_ok harrays, tables_foldl hdoc]
    constructor
    · rintro ⟨h, rfl⟩
      refine ⟨⟨htablefits, h⟩, ?_⟩
      rw [arrays_foldl hdoc h]
      rfl
    · rintro ⟨⟨-, h⟩, rfl⟩
      refine ⟨h, ?_⟩
      rw [arrays_foldl hdoc h]
      rfl

theorem values_perm {t t' : Table} (h : Bound t) (hperm : t.Perm t') : values t = values t' :=
  funext fun key => lookup_perm h.distinct hperm key.toList

theorem Fits.perm {fs : List (String × Kind)} {t t' : Table} (h : Fits parseDuration fs t)
    (hperm : t.Perm t') : Fits parseDuration fs t' :=
  fun key v hmem => h key v (hperm.mem_iff.2 hmem)

theorem reordered_formed (h : Reordered doc d) (hdoc : Formed doc) : Formed d where
  tables := h.tables.distinct hdoc.tables
  arrays := h.arrays.distinct hdoc.arrays
  table := by
    rintro ⟨name, t⟩ he
    obtain ⟨t', ht', hperm⟩ := h.tables.mem_right he
    exact (hdoc.table _ ht').perm hperm
  entry := by
    rintro ⟨name, ts⟩ he t ht
    obtain ⟨ts', hts', hall⟩ := h.arrays.mem_right he
    obtain ⟨t', ht', hperm⟩ := forall₂_mem hall ht
    exact (hdoc.entry _ hts' t' ht').perm hperm

theorem reordered_value (h : Reordered doc d) (hdoc : Formed doc) : value d = value doc := by
  funext table key
  unfold value
  rcases h.tables.lookup hdoc.tables table.toList with ⟨hnone, hnone'⟩ | ⟨t, t', ht, ht', hperm⟩
  · rw [hnone, hnone']
  · have hvalues := values_perm (hdoc.table _ (mem_of_lookup ht)) hperm
    rw [ht, ht']
    exact (congrFun hvalues key).symm

theorem app_perm {ts ts' : List Table} (hts : ∀ t ∈ ts, Bound t)
    (hall : List.Forall₂ List.Perm ts ts') :
    (ts.map fun t => app (values t)) = ts'.map fun t => app (values t) := by
  induction hall with
  | nil => rfl
  | cons hperm _ ih =>
    obtain ⟨hfirst, hrest⟩ := List.forall_mem_cons.1 hts
    rw [List.map_cons, List.map_cons, values_perm hfirst hperm, ih hrest]

theorem reordered_written (h : Reordered doc d) (hdoc : Formed doc) (cfg : Config) :
    written parseDuration d cfg = written parseDuration doc cfg := by
  have happs : (((d.arrays.lookup "apps".toList).getD []).map fun t => app (values t)) =
      ((doc.arrays.lookup "apps".toList).getD []).map fun t => app (values t) := by
    rcases h.arrays.lookup hdoc.arrays "apps".toList with ⟨hnone, hnone'⟩ | ⟨ts, ts', hts, hts', hall⟩
    · rw [hnone, hnone']
    · rw [hts, hts']
      exact (app_perm (hdoc.entry _ (mem_of_lookup hts)) hall).symm
  unfold written
  rw [reordered_value h hdoc, happs]

theorem Accepted.covers (h : Accepted parseDuration doc) (hdoc : Formed doc)
    (htables : ∀ name t, (name, t) ∈ d.tables → ∃ t', (name, t') ∈ doc.tables ∧ t'.Perm t)
    (harrays : ∀ name ts, (name, ts) ∈ d.arrays →
      ∃ ts', (name, ts') ∈ doc.arrays ∧ List.Forall₂ List.Perm ts' ts) :
    Accepted parseDuration d := by
  refine ⟨fun name t ht hne => ?_, fun name ts hts => ?_⟩
  · obtain ⟨t', ht', hperm⟩ := htables name t ht
    have hne' : t' ≠ [] := fun hnil => hne (List.nil_perm.1 (hnil ▸ hperm))
    obtain ⟨known, hknown, hfits⟩ := h.tables name t' ht' hne'
    exact ⟨known, hknown, hfits.perm hperm⟩
  · obtain ⟨ts', hts', hall⟩ := harrays name ts hts
    obtain ⟨hname, happs⟩ := h.arrays name ts' hts'
    refine ⟨hname, fun t ht => ?_⟩
    obtain ⟨t', ht', hperm⟩ := forall₂_mem hall ht
    obtain ⟨hfits, hid⟩ := happs t' ht'
    have hvalues := values_perm (hdoc.entry _ hts' t' ht') hperm
    exact ⟨hfits.perm hperm, hvalues ▸ hid⟩

theorem reordered_accepted (h : Reordered doc d) (hdoc : Formed doc) :
    Accepted parseDuration d ↔ Accepted parseDuration doc := by
  constructor
  · refine fun hd => hd.covers (reordered_formed h hdoc) (fun name t ht => ?_) fun name ts hts => ?_
    · obtain ⟨t', ht', hperm⟩ := h.tables.mem_left ht
      exact ⟨t', ht', hperm.symm⟩
    · obtain ⟨ts', hts', hall⟩ := h.arrays.mem_left hts
      exact ⟨ts', hts', hall.flip.imp fun _ _ => List.Perm.symm⟩
  · exact fun hd => hd.covers hdoc (fun _ _ => h.tables.mem_right) fun _ _ => h.arrays.mem_right

inductive Strange (doc : Doc) : Prop where
  | topLevel {t : Table} (h : ([], t) ∈ doc.tables) (hne : t ≠ [])
  | table {name : Text} {t : Table} (h : (name, t) ∈ doc.tables) (hne : t ≠ [])
      (hunknown : fields name = none)
  | key {name key : Text} {t : Table} {known : List (String × Kind)} {v : Value}
      (h : (name, t) ∈ doc.tables) (hknown : fields name = some known) (hkey : (key, v) ∈ t)
      (hunknown : ∀ f ∈ known, f.1.toList ≠ key)
  | array {name : Text} {ts : List Table} (h : (name, ts) ∈ doc.arrays)
      (hname : name ≠ "apps".toList)
  | appKey {name key : Text} {ts : List Table} {t : Table} {v : Value} (h : (name, ts) ∈ doc.arrays)
      (ht : t ∈ ts) (hkey : (key, v) ∈ t) (hunknown : ∀ f ∈ appFields, f.1.toList ≠ key)

theorem Strange.not_accepted (h : Strange doc) : ¬Accepted parseDuration doc := by
  intro haccepted
  have hkeys : ∀ {t : Table} {fs key v}, Fits parseDuration fs t → (key, v) ∈ t →
      ¬∀ f ∈ fs, f.1.toList ≠ key := by
    intro t fs key v hfits hmem hunknown
    obtain ⟨f, hf, hkey, -⟩ := hfits key v hmem
    exact hunknown f hf hkey
  cases h with
  | topLevel h hne =>
    obtain ⟨known, hknown, -⟩ := haccepted.tables _ _ h hne
    cases hknown
  | table h hne hunknown =>
    obtain ⟨known, hknown, -⟩ := haccepted.tables _ _ h hne
    rw [hunknown] at hknown
    cases hknown
  | key h hknown hkey hunknown =>
    obtain ⟨known', hknown', hfits⟩ := haccepted.tables _ _ h (List.ne_nil_of_mem hkey)
    rw [hknown] at hknown'
    cases hknown'
    exact hkeys hfits hkey hunknown
  | array h hname => exact hname (haccepted.arrays _ _ h).1
  | appKey h ht hkey hunknown =>
    exact hkeys ((haccepted.arrays _ _ h).2 _ ht).1 hkey hunknown

theorem loadTOML_ok {src : Text} (h : parseTOML src = .ok doc) (order : Order) :
    loadTOML parseDuration order src cfg = .ok cfg' ↔
      Accepted parseDuration doc ∧ cfg' = written parseDuration doc cfg := by
  have hdoc := parseTOML_formed h
  have horder := order.reordered doc
  unfold loadTOML
  rw [h]
  simp only
  rw [loadDoc_ok (reordered_formed horder hdoc), reordered_accepted horder hdoc,
    reordered_written horder hdoc]

/-- Every order loads a document to the same config, or every order fails. What is loaded is
what is written, and unknown names are errors. -/
theorem load_exact {src : Text} (h : parseTOML src = .ok doc) (order order' : Order)
    (cfg : Config) :
    ((∃ e e', loadTOML parseDuration order src cfg = .error e ∧
        loadTOML parseDuration order' src cfg = .error e') ∨
      ∃ cfg', loadTOML parseDuration order src cfg = .ok cfg' ∧
        loadTOML parseDuration order' src cfg = .ok cfg') ∧
    (∀ cfg', loadTOML parseDuration order src cfg = .ok cfg' ↔
      Accepted parseDuration doc ∧ cfg' = written parseDuration doc cfg) ∧
    (Strange doc → ∃ e, loadTOML parseDuration order src cfg = .error e) := by
  have herror : ∀ order, ¬Accepted parseDuration doc →
      ∃ e, loadTOML parseDuration order src cfg = .error e := by
    intro order hnot
    cases hload : loadTOML parseDuration order src cfg with
    | error e => exact ⟨e, rfl⟩
    | ok cfg' => exact absurd ((loadTOML_ok h order).1 hload).1 hnot
  refine ⟨?_, fun cfg' => loadTOML_ok h order, fun hstrange => herror order hstrange.not_accepted⟩
  by_cases haccepted : Accepted parseDuration doc
  · exact .inr ⟨_, (loadTOML_ok h order).2 ⟨haccepted, rfl⟩, (loadTOML_ok h order').2 ⟨haccepted, rfl⟩⟩
  · obtain ⟨e, he⟩ := herror order haccepted
    obtain ⟨e', he'⟩ := herror order' haccepted
    exact .inl ⟨e, e', he, he'⟩

/-- A certificate and an app, loaded backwards into the defaults. -/
theorem load_exact_reversed :
    loadTOML (fun _ => .ok 0) .reversed "[server]\ncert = \"c\"\n[[apps]]\nid = \"a\"".toList defaults =
      .ok { defaults with
        server := { defaults.server with cert := ['c'] }
        apps := [⟨['a'], [], 0, true⟩] } := by
  have hread : parseTOML "[server]\ncert = \"c\"\n[[apps]]\nid = \"a\"".toList =
      .ok ⟨[([], []), ("server".toList, [("cert".toList, .str ['c'])])],
        [("apps".toList, [[("id".toList, .str ['a'])]])]⟩ := rfl
  refine ((load_exact hread .reversed .asWritten defaults).2.1 _).2 ⟨⟨fun name t ht hne => ?_, fun name ts hts => ?_⟩, rfl⟩
  · rcases List.mem_cons.1 ht with heq | ht
    · cases heq
      exact absurd rfl hne
    · cases List.mem_singleton.1 ht
      refine ⟨serverFields, rfl, fun key v hkey => ?_⟩
      cases List.mem_singleton.1 hkey
      exact ⟨("cert", .text), by decide, rfl, rfl⟩
  · cases List.mem_singleton.1 hts
    refine ⟨rfl, fun t ht => ?_⟩
    cases List.mem_singleton.1 ht
    refine ⟨fun key v hkey => ?_, by decide⟩
    cases List.mem_singleton.1 hkey
    exact ⟨("id", .text), by decide, rfl, rfl⟩

end Lobbylink.Config.Orders
