import Lobbylink.Server.Tokens
import Lobbylink.Server.Handovers
import Lobbylink.System.Pairing

/-! Every answer that a client sets is to the offer of the link it is set on, in the
runs in which no offer or answer crosses the notice of a new client. -/
namespace Lobbylink.System.Answers
open Client.Protocol Client.Native Server.Protocol Server.Lobby Server.Registry Server.Fanout
  Server.Operations Server.Effects Server.Slots Server.Audience Server.Signals Signaling
  Negotiation Exchange Pairing Lib.Runs

variable {codec : Codec} {sha256 : String → TokenHash}

def heard (codec : Codec) (c : Conn) (out : List Out) : List (ServerMessage Desc) :=
  out.filterMap (hears codec c)

theorem mem_heard {c : Conn} {out : List Out} {m : ServerMessage Desc}
    (h : m ∈ heard codec c out) :
    (∃ msg ∈ accepted c out, decode codec.decode msg = some m) ∨
      ∃ code text, m = .error code text := by
  obtain ⟨o, ho, hm⟩ := List.mem_filterMap.1 h
  cases o with
  | enqueue d msg ok =>
    cases ok with
    | false => cases hm
    | true =>
      simp only [hears] at hm
      split_ifs at hm with hd
      exact .inl ⟨msg, List.mem_filterMap.2 ⟨_, ho, by simp [acceptedBy, hd]⟩, hm⟩
  | kick d code text =>
    simp only [hears] at hm
    split_ifs at hm
    cases hm
    exact .inr ⟨_, _, rfl⟩

theorem heard_accepted {c : Conn} {out : List Out} {msg : Msg} {m : ServerMessage Desc}
    (h : msg ∈ accepted c out) (hm : decode codec.decode msg = some m) :
    m ∈ heard codec c out :=
  List.mem_filterMap.2 ⟨_, Server.Handovers.mem_accepted h, by simpa [hears] using hm⟩

theorem noticeOf_decode {msg : Msg} {m : ServerMessage Desc}
    (h : decode codec.decode msg = some m) :
    noticeOf m = Server.Handovers.noticeOf msg := by
  cases msg with
  | signal source payload =>
    simp only [decode, Option.map_eq_some_iff] at h
    obtain ⟨_, -, rfl⟩ := h
    rfl
  | _ => cases h; rfl

theorem noticed_heard {c : Conn} {out : List Out} {p : PlayerId} :
    noticed p (heard codec c out) = true ↔
      ∃ msg ∈ accepted c out, Server.Handovers.noticeOf msg = some p := by
  unfold noticed
  rw [List.any_eq_true]
  constructor
  · rintro ⟨m, hm, hp⟩
    have hp : noticeOf m = some p := by simpa [isNotice] using hp
    rcases mem_heard hm with ⟨msg, hmsg, hdec⟩ | ⟨code, text, rfl⟩
    · exact ⟨msg, hmsg, (noticeOf_decode hdec).symm.trans hp⟩
    · cases hp
  · rintro ⟨msg, hmsg, hp⟩
    obtain ⟨m, hm⟩ : ∃ m, decode codec.decode msg = some m := by
      cases msg with
      | signal => cases hp
      | _ => exact ⟨_, rfl⟩
    refine ⟨m, heard_accepted hmsg hm, ?_⟩
    simp [isNotice, noticeOf_decode hm, hp]

theorem heard_quiet {c : Conn} {out : List Out} (h : signalsTo c out = []) {α : Type}
    (p : PlayerId) (f : SignalPayload Desc → Option α) :
    (heard codec c out).filterMap (downFrom p f) = [] := by
  rw [List.filterMap_eq_nil_iff]
  intro m hm
  rcases mem_heard hm with ⟨msg, hmsg, hdec⟩ | ⟨code, text, rfl⟩
  · cases msg with
    | signal source payload =>
      have hmem : (source, payload) ∈ signalsTo c out :=
        List.mem_filterMap.2 ⟨_, hmsg, rfl⟩
      rw [h] at hmem
      cases hmem
    | _ => cases hdec; rfl
  · rfl

theorem heard_joined {c : Conn} {out : List Out} {joined : JoinedMsg}
    (h : .joined joined ∈ heard codec c out) :
    ∃ msg, .joined msg ∈ accepted c out ∧ joined.selfId = msg.selfID := by
  rcases mem_heard h with ⟨msg, hmsg, hdec⟩ | ⟨code, text, heq⟩
  · cases msg with
    | joined msg =>
      cases hdec
      exact ⟨msg, hmsg, rfl⟩
    | signal source payload =>
      simp only [decode, Option.map_eq_some_iff] at hdec
      obtain ⟨_, -, heq⟩ := hdec
      cases heq
    | _ => cases hdec
  · cases heq

def Sits (s : State) (ref i : Nat) (c : Conn) : Prop :=
  ((s.manager.room ref).slot i).conn = some c

structure Inv (s : State) : Prop where
  seated : ∀ ref i c, Sits s ref i c → ∃ k, s.players c = some k ∧ k.session = ⟨ref, i⟩
  own : ∀ c k, s.players c = some k → Own c k
  awaits : ∀ c k p, s.players c = some k → k.session.playerID < p → Awaits c p k
  source : ∀ c k p, s.players c = some k → ∀ d ∈ answersDown p k.down, ∃ y ky epoch offer,
    d = .answer ⟨y, epoch⟩ offer ∧ s.players y = some ky ∧ ky.session = ⟨k.session.room, p⟩
  paired : ∀ ref a b x y kx ky, a < b → Sits s ref a x → Sits s ref b y →
    s.players x = some kx → s.players y = some ky → Paired a b x kx ky

theorem Inv.session {s : State} (h : Inv s) {ref i : Nat} {c : Conn} {k : Player}
    (hc : Sits s ref i c) (hk : s.players c = some k) : k.session = ⟨ref, i⟩ := by
  obtain ⟨k', hk', hsession⟩ := h.seated ref i c hc
  rwa [Option.some.inj (hk.symm.trans hk')]

theorem Inv.placed {s : State} (h : Inv s) : Placed s.manager where
  distinct := by
    intro ref i j c hi hj
    obtain ⟨k, hk, hsession⟩ := h.seated ref i c hi
    exact congrArg Session.playerID (hsession.symm.trans (h.session hj hk))
  unique := by
    intro ref ref' i i' c hc hc'
    obtain ⟨k, hk, hsession⟩ := h.seated ref i c hc
    exact congrArg Session.room (hsession.symm.trans (h.session hc' hk))

theorem Inv.loose {s : State} (h : Inv s) {op : Op}
    (hnew : ∀ c, opJoining op = some c → s.players c = none) : Loose s.manager op := by
  intro c hop ref i hc
  obtain ⟨k, hk, -⟩ := h.seated ref i c hc
  rw [hnew c hop] at hk
  cases hk

theorem players_set (s : State) (c d : Conn) (k : Player) :
    (s.set c k).players d = if d = c then some k else s.players d :=
  Function.update_apply ..

/-- Nothing is lost for the invariant when `k` becomes `k'`. -/
structure Keeps (holds : Bool) (c : Conn) (k k' : Player) : Prop where
  session : k'.session = k.session
  own : Own c k → Own c k'
  awaits : ∀ p, k.session.playerID < p → Awaits c p k → Awaits c p k'
  answers : ∀ p, answersDown p k'.down ⊆ answersDown p k.down
  offerer : holds = true → ∀ b ky, k.session.playerID < b → Own c k → Awaits c b k →
    Paired k.session.playerID b c k ky → Paired k.session.playerID b c k' ky
  answerer : holds = true → ∀ a x kx, Paired a k.session.playerID x kx k →
    Paired a k.session.playerID x kx k'

theorem Inv.set {s : State} (h : Inv s) {c : Conn} {k k' : Player} (hk : s.players c = some k)
    (hkeeps : Keeps (s.holds c k) c k k') : Inv (s.set c k') := by
  have hplayer : ∀ d kd', (s.set c k').players d = some kd' →
      ∃ kd, s.players d = some kd ∧ kd'.session = kd.session ∧
        (d = c ∧ kd = k ∧ kd' = k' ∨ d ≠ c ∧ kd' = kd) := by
    intro d kd' hd
    rw [players_set] at hd
    split_ifs at hd with hdc
    · cases hd
      exact ⟨k, hdc ▸ hk, hkeeps.session, .inl ⟨hdc, rfl, rfl⟩⟩
    · exact ⟨kd', hd, rfl, .inr ⟨hdc, rfl⟩⟩
  have hsits : ∀ {ref i}, Sits s ref i c → s.holds c k = true := by
    intro ref i hc
    unfold State.holds
    rw [h.session hc hk]
    exact beq_iff_eq.2 hc
  constructor
  · intro ref i d hd
    obtain ⟨kd, hkd, hsession⟩ := h.seated ref i d hd
    by_cases hdc : d = c
    · subst hdc
      obtain rfl : k = kd := Option.some.inj (hk.symm.trans hkd)
      exact ⟨k', by rw [players_set, if_pos rfl], hkeeps.session.trans hsession⟩
    · exact ⟨kd, by rw [players_set, if_neg hdc, hkd], hsession⟩
  · intro d kd' hd
    obtain ⟨kd, hkd, -, ⟨rfl, rfl, rfl⟩ | ⟨-, rfl⟩⟩ := hplayer d kd' hd
    · exact hkeeps.own (h.own _ _ hkd)
    · exact h.own _ _ hkd
  · intro d kd' p hd hlt
    obtain ⟨kd, hkd, hsession, ⟨rfl, rfl, rfl⟩ | ⟨-, rfl⟩⟩ := hplayer d kd' hd
    · rw [hsession] at hlt
      exact hkeeps.awaits p hlt (h.awaits _ _ p hkd hlt)
    · exact h.awaits _ _ p hkd hlt
  · intro d kd' p hd sdp hsdp
    obtain ⟨kd, hkd, hsession, hcase⟩ := hplayer d kd' hd
    have hold : sdp ∈ answersDown p kd.down := by
      rcases hcase with ⟨rfl, rfl, rfl⟩ | ⟨-, rfl⟩
      · exact hkeeps.answers p hsdp
      · exact hsdp
    obtain ⟨y, ky, epoch, offer, heq, hy, hsessiony⟩ := h.source d kd p hkd sdp hold
    rw [hsession]
    by_cases hyc : y = c
    · subst hyc
      obtain rfl : k = ky := Option.some.inj (hk.symm.trans hy)
      exact ⟨y, k', epoch, offer, heq, by rw [players_set, if_pos rfl],
        hkeeps.session.trans hsessiony⟩
    · exact ⟨y, ky, epoch, offer, heq, by rw [players_set, if_neg hyc, hy], hsessiony⟩
  · intro ref a b x y kx' ky' hab hx hy hkx hky
    obtain ⟨kx, hwasx, -, hcasex⟩ := hplayer x kx' hkx
    obtain ⟨ky, hwasy, -, hcasey⟩ := hplayer y ky' hky
    have hpair := h.paired ref a b x y kx ky hab hx hy hwasx hwasy
    have hax := congrArg Session.playerID (h.session hx hwasx)
    have hby := congrArg Session.playerID (h.session hy hwasy)
    simp only at hax hby
    rcases hcasex with ⟨rfl, rfl, rfl⟩ | ⟨hxc, rfl⟩
    · rcases hcasey with ⟨rfl, rfl, rfl⟩ | ⟨-, rfl⟩
      · exact absurd (hax.symm.trans hby) (Nat.ne_of_lt hab)
      · subst hax
        exact hkeeps.offerer (hsits hx) b _ hab (h.own _ _ hwasx) (h.awaits _ _ b hwasx hab) hpair
    · rcases hcasey with ⟨rfl, rfl, rfl⟩ | ⟨-, rfl⟩
      · subst hby
        exact hkeeps.answerer (hsits hy) a _ _ hpair
      · exact hpair

theorem uncrossed {msgs : List (ClientMessage Desc)} {m : ServerMessage Desc} {p : PlayerId}
    (h : ∀ msg ∈ msgs, crosses msg m = false) (hm : noticeOf m = some p) :
    offersUp p msgs = [] ∧ answersUp p msgs = [] := by
  have hnone : ∀ msg ∈ msgs, negotiates msg ≠ some p := by
    intro msg hmsg hp
    have := h msg hmsg
    simp [crosses, hp, hm] at this
  constructor
  · refine List.filterMap_eq_nil_iff.2 fun msg hmsg => ?_
    have hne := hnone msg hmsg
    cases msg with
    | leave => rfl
    | signal q payload => cases payload <;> simp_all [upTo, offerOf, negotiates]
  · refine List.filterMap_eq_nil_iff.2 fun msg hmsg => ?_
    have hne := hnone msg hmsg
    cases msg with
    | leave => rfl
    | signal q payload => cases payload <;> simp_all [upTo, answerOf, negotiates]

theorem Keeps.acts {holds : Bool} {c : Conn} {head : Option (ServerMessage Desc)}
    {k k' : Player} {new : List (ClientMessage Desc)} (h : Exchange.Acts c head k k' new)
    (horder : holds = true → ∀ m, head = some m → ∀ msg ∈ k.up, crosses msg m = false) :
    Keeps holds c k k' where
  session := h.session
  own := h.own
  awaits := fun _ hlt hwait => h.awaits hwait hlt
  answers := fun p => (h.answersDown_sublist p).subset
  offerer := fun hholds _ _ hlt _ hwait hpair => hpair.offerer h hwait hlt
    fun m hm hn => (uncrossed (horder hholds m hm) hn).1
  answerer := fun hholds _ _ _ hpair => hpair.answerer h
    fun m hm hn => (uncrossed (horder hholds m hm) hn).2

theorem Keeps.pop {holds : Bool} {c : Conn} {k : Player} {msg : ClientMessage Desc}
    {rest : List (ClientMessage Desc)} (hup : k.up = msg :: rest) :
    Keeps holds c k { k with up := rest } where
  session := rfl
  own := by
    intro h
    refine ⟨fun hg => ?_, h.flushed, h.self, h.joined, fun p d hd => h.made p d ?_⟩
    · rw [h.unstarted hg] at hup
      cases hup
    · rw [hup]
      exact ((List.sublist_cons_self _ _).filterMap _).subset hd
  awaits := fun _ _ h => ⟨h.single, h.timely⟩
  answers := fun _ => List.Subset.refl _
  offerer := fun _ _ _ _ _ _ h => h.pop_offerer hup
  answerer := fun _ _ _ _ h => h.pop_answerer hup

theorem Keeps.replied {holds : Bool} {c : Conn} {k : Player} {msgs : List (ServerMessage Desc)}
    (h : ∀ m ∈ msgs, ∃ code text, m = .error code text) : Keeps holds c k (k.hear msgs) := by
  have hplain : ∀ {α : Type} (p : PlayerId) (f : SignalPayload Desc → Option α),
      Plain p f msgs := by
    intro α p f
    constructor
    · refine List.any_eq_false.2 fun m hm => ?_
      obtain ⟨code, text, rfl⟩ := h m hm
      simp [isNotice, noticeOf]
    · refine List.filterMap_eq_nil_iff.2 fun m hm => ?_
      obtain ⟨code, text, rfl⟩ := h m hm
      rfl
  exact {
    session := rfl
    own := by
      intro hown
      refine ⟨hown.unstarted, hown.flushed, hown.self, fun joined hj => ?_, hown.made⟩
      refine hown.joined joined ((List.mem_append.1 hj).resolve_right fun hmem => ?_)
      obtain ⟨code, text, heq⟩ := h _ hmem
      cases heq
    awaits := fun p _ hwait => hwait.hear (hplain p answerOf).picks
    answers := by
      intro p
      unfold Player.hear
      rw [answersDown_append, show answersDown p msgs = [] from (hplain p answerOf).picks,
        List.append_nil]
      exact List.Subset.refl _
    offerer := fun _ b _ _ _ _ hpair => hpair.hear_offerer (hplain b answerOf)
    answerer := fun _ a _ _ hpair => hpair.hear_answerer (hplain a offerOf) }

theorem players_call (s : State) (op : Op) (env : Env) (d : Conn) :
    (s.call codec sha256 op env).players d = (s.players d).map fun k =>
      k.hear (heard codec d (s.manager.apply sha256 env op).out) := rfl

theorem players_called {s : State} {d : Conn} {k : Player} (h : s.players d = some k) (op : Op)
    (env : Env) : (s.call codec sha256 op env).players d =
      some (k.hear (heard codec d (s.manager.apply sha256 env op).out)) := by
  rw [players_call, h]
  rfl

theorem sits_call {s : State} {op : Op} {env : Env} {ref i : Nat} {c : Conn}
    (h : Sits (s.call codec sha256 op env) ref i c) : Sits s ref i c ∨
      opJoining op = some c ∧ (s.manager.apply sha256 env op).reply = .session (.ok ⟨ref, i⟩) :=
  roomStep_conn (apply_room sha256 env s.manager op ref) h

def Newcomer (s : State) (op : Op) (reply : Reply) : Prop :=
  ∀ c, opJoining op = some c → ∀ sess, reply = .session (.ok sess) →
    s.players c = some ⟨sess, none, [], []⟩

section Calls
variable {s : State} {op : Op} {env : Env}

theorem players_of_called {d : Conn} {kd' : Player}
    (h : (s.call codec sha256 op env).players d = some kd') : ∃ kd, s.players d = some kd ∧
      kd' = kd.hear (heard codec d (s.manager.apply sha256 env op).out) := by
  rw [players_call, Option.map_eq_some_iff] at h
  obtain ⟨kd, hkd, heq⟩ := h
  exact ⟨kd, hkd, heq.symm⟩

theorem plain_called (h : Inv s) (hloose : Loose s.manager op)
    (hquiet : ∀ d, signalsTo d (s.manager.apply sha256 env op).out = []) {ref i j : Nat}
    {d e : Conn} {α : Type} (f : SignalPayload Desc → Option α)
    (hd : Sits (s.call codec sha256 op env) ref i d)
    (he : Sits (s.call codec sha256 op env) ref j e) (hne : opJoining op ≠ some e) :
    Plain j f (heard codec d (s.manager.apply sha256 env op).out) := by
  have heff := apply_effect sha256 env s.manager op
  refine ⟨?_, heard_quiet (hquiet d) j f⟩
  by_contra hn
  obtain ⟨msg, hmsg, hj⟩ := noticed_heard.1 (by simpa using hn)
  exact hne (Server.Handovers.told_notice (effect_reached heff h.placed hloose hd) hmsg hj he)

theorem plain_entering (h : Inv s) (hloose : Loose s.manager op)
    (hquiet : ∀ d, signalsTo d (s.manager.apply sha256 env op).out = []) {ref i j : Nat}
    {d : Conn} {α : Type} (f : SignalPayload Desc → Option α)
    (hd : Sits (s.call codec sha256 op env) ref i d) (hop : opJoining op = some d) :
    Plain j f (heard codec d (s.manager.apply sha256 env op).out) := by
  have heff := apply_effect sha256 env s.manager op
  refine ⟨?_, heard_quiet (hquiet d) j f⟩
  by_contra hn
  obtain ⟨msg, hmsg, hj⟩ := noticed_heard.1 (by simpa using hn)
  obtain ⟨joined, ids, -, hacc⟩ := Server.Handovers.newcomer_told heff h.placed hloose hd hop
  rw [hacc] at hmsg
  rcases List.mem_cons.1 hmsg with rfl | hmsg
  · cases hj
  · obtain ⟨id, -, rfl⟩ := List.mem_map.1 hmsg
    cases hj

theorem noticed_entering (h : Inv s) (hloose : Loose s.manager op) {ref i j : Nat} {d e : Conn}
    (hd : Sits (s.call codec sha256 op env) ref i d)
    (he : Sits (s.call codec sha256 op env) ref j e) (hij : i ≠ j) (hop : opJoining op = some e) :
    noticed j (heard codec d (s.manager.apply sha256 env op).out) = true :=
  noticed_heard.2 (Server.Handovers.notice_told (apply_effect sha256 env s.manager op) h.placed
    hloose hd he hij hop)

theorem paired_called (h : Inv s) (hloose : Loose s.manager op)
    (hnew : Newcomer s op (s.manager.apply sha256 env op).reply)
    (hquiet : ∀ d, signalsTo d (s.manager.apply sha256 env op).out = []) {ref a b : Nat}
    {x y : Conn} {kx' ky' : Player} (hab : a < b)
    (hx : Sits (s.call codec sha256 op env) ref a x)
    (hy : Sits (s.call codec sha256 op env) ref b y)
    (hkx' : (s.call codec sha256 op env).players x = some kx')
    (hky' : (s.call codec sha256 op env).players y = some ky') : Paired a b x kx' ky' := by
  obtain ⟨kx, hkx, rfl⟩ := players_of_called hkx'
  obtain ⟨ky, hky, rfl⟩ := players_of_called hky'
  have hne := Nat.ne_of_lt hab
  by_cases hnewx : opJoining op = some x
  · have hoffered := (sits_call hx).resolve_left fun hold => hloose x hnewx ref a hold
    obtain rfl := Option.some.inj (hkx.symm.trans (hnew x hnewx _ hoffered.2))
    exact paired_offerer_new rfl rfl (plain_entering h hloose hquiet answerOf hx hnewx)
      (noticed_entering h hloose hy hx (Ne.symm hne) hnewx) (heard_quiet (hquiet y) a offerOf)
  by_cases hnewy : opJoining op = some y
  · have hseated := (sits_call hy).resolve_left fun hold => hloose y hnewy ref b hold
    obtain rfl := Option.some.inj (hky.symm.trans (hnew y hnewy _ hseated.2))
    exact paired_answerer_new (noticed_entering h hloose hx hy hne hnewy) rfl rfl
      (plain_entering h hloose hquiet offerOf hy hnewy)
  · have holdx := (sits_call hx).resolve_right fun hn => hnewx hn.1
    have holdy := (sits_call hy).resolve_right fun hn => hnewy hn.1
    exact (h.paired ref a b x y kx ky hab holdx holdy hkx hky).hear
      (plain_called h hloose hquiet answerOf hx hy hnewy)
      (plain_called h hloose hquiet offerOf hy hx hnewx)

theorem Inv.call (h : Inv s) (hloose : Loose s.manager op)
    (hnew : Newcomer s op (s.manager.apply sha256 env op).reply)
    (hquiet : ∀ d, signalsTo d (s.manager.apply sha256 env op).out = []) :
    Inv (s.call codec sha256 op env) where
  seated := by
    intro ref i c hc
    rcases sits_call hc with hold | ⟨hop, hreply⟩
    · obtain ⟨k, hk, hsession⟩ := h.seated ref i c hold
      exact ⟨_, players_called hk op env, hsession⟩
    · exact ⟨_, players_called (hnew c hop _ hreply) op env, rfl⟩
  own := by
    intro c k' hk'
    obtain ⟨k, hk, rfl⟩ := players_of_called hk'
    have hown := h.own c k hk
    refine ⟨hown.unstarted, hown.flushed, hown.self, fun joined hj => ?_, hown.made⟩
    rcases List.mem_append.1 hj with hj | hj
    · exact hown.joined joined hj
    · obtain ⟨msg, hmsg, hself⟩ := heard_joined hj
      obtain ⟨hop, ref, hreply⟩ :=
        Server.Handovers.joined_told (apply_effect sha256 env s.manager op) hmsg
      obtain rfl := Option.some.inj (hk.symm.trans (hnew c hop _ hreply))
      exact hself
  awaits := by
    intro c k' p hk' hlt
    obtain ⟨k, hk, rfl⟩ := players_of_called hk'
    exact (h.awaits c k p hk hlt).hear (heard_quiet (hquiet c) p answerOf)
  source := by
    intro c k' p hk' d hd
    obtain ⟨k, hk, rfl⟩ := players_of_called hk'
    unfold Player.hear at hd
    rw [answersDown_append, show answersDown p (heard codec c _) = [] from
      heard_quiet (hquiet c) p answerOf, List.append_nil] at hd
    obtain ⟨y, ky, epoch, offer, heq, hy, hsession⟩ := h.source c k p hk d hd
    exact ⟨y, _, epoch, offer, heq, players_called hy op env, hsession⟩
  paired := fun _ _ _ _ _ _ _ hab hx hy hkx hky =>
    paired_called h hloose hnew hquiet hab hx hy hkx hky

end Calls

/-- One message goes from the queue of `c` to that of `r`. -/
structure Relayed (s t : State) (c : Conn) (k : Player) (target : PlayerId)
    (payload : SignalPayload Desc) (rest : List (ClientMessage Desc)) (r : Conn) (kr : Player) :
    Prop where
  sender : Sits s k.session.room k.session.playerID c
  receiver : Sits s k.session.room target r
  player : s.players r = some kr
  session : kr.session = ⟨k.session.room, target⟩
  other : r ≠ c
  players : ∀ d, t.players d = if d = c then some { k with up := rest }
    else if d = r then some (kr.hear [.signal k.session.playerID payload]) else s.players d
  sits : ∀ ref i d, Sits t ref i d → Sits s ref i d

theorem call_relayed {s : State} (h : Inv s) {c : Conn} {k : Player} (hk : s.players c = some k)
    {target : PlayerId} {payload : SignalPayload Desc} (rest : List (ClientMessage Desc))
    {env : Env} {x : Relay}
    (hauth : Authentic s.manager (clientOp codec c k.session (.signal target payload)) x)
    (hout : (s.manager.apply sha256 env
      (clientOp codec c k.session (.signal target payload))).out = [x.call]) :
    ∃ r kr, Relayed s ((s.set c { k with up := rest }).call codec sha256
      (clientOp codec c k.session (.signal target payload)) env) c k target payload rest r kr := by
  obtain ⟨room, source, sender, dest, r, raw⟩ := x
  obtain ⟨hcall, hholder, hother, htarget⟩ := hauth
  simp only [clientOp, Op.signal.injEq, Int.natCast_inj] at hcall
  obtain ⟨hsession, rfl, rfl, rfl⟩ := hcall
  simp only at hholder hother htarget
  have hsender : Sits s k.session.room k.session.playerID c := by
    rw [hsession]
    exact hholder.2.2
  have hreceiver : Sits s k.session.room target r := by
    rw [hsession]
    exact htarget
  obtain ⟨kr, hkr, hsessionr⟩ := h.seated _ _ _ hreceiver
  have hne : r ≠ c := by
    rintro rfl
    refine hother ?_
    rw [Option.some.inj (hkr.symm.trans hk), hsession] at hsessionr
    exact (congrArg Session.playerID hsessionr).symm
  refine ⟨r, kr, hsender, hreceiver, hkr, hsessionr, hne, fun d => ?_, fun ref i d hd => ?_⟩
  · have hcalled : ((s.set c { k with up := rest }).manager.apply sha256 env
        (clientOp codec c k.session (.signal target payload))).out =
        [Relay.call ⟨room, source, c, target, r, codec.encode payload⟩] := hout
    rw [players_call, players_set, hcalled]
    by_cases hdc : d = c
    · subst hdc
      have hnone : heard codec d [Relay.call ⟨room, source, d, target, r, codec.encode payload⟩] =
          [] := by simp [heard, Relay.call, hears, hne]
      rw [if_pos rfl, if_pos rfl, hnone, Option.map_some, hear_nil]
    rw [if_neg hdc, if_neg hdc]
    by_cases hdr : d = r
    · subst hdr
      have hone : heard codec d [Relay.call ⟨room, source, c, target, d, codec.encode payload⟩] =
          [.signal k.session.playerID payload] := by
        simp [heard, Relay.call, hears, decode, codec.decode_encode, hsession]
      rw [if_pos rfl, hone, hkr, Option.map_some]
    · have hnone : heard codec d [Relay.call ⟨room, source, c, target, r, codec.encode payload⟩] =
          [] := by simp [heard, Relay.call, hears, Ne.symm hdr]
      rw [if_neg hdr, hnone]
      cases s.players d with
      | none => rfl
      | some kd => exact congrArg some (hear_nil kd)
  · refine (sits_call hd).resolve_right fun hn => ?_
    cases hn.1

section Relays
variable {s t : State} {c r : Conn} {k kr : Player} {target : PlayerId}
  {payload : SignalPayload Desc} {rest : List (ClientMessage Desc)}

/-- What can be said of a client after a relay. -/
theorem Relayed.cases (h : Relayed s t c k target payload rest r kr) {d : Conn} {kd' : Player}
    (hd : t.players d = some kd') :
    d = c ∧ kd' = { k with up := rest } ∨
      d = r ∧ kd' = kr.hear [.signal k.session.playerID payload] ∨
      d ≠ c ∧ d ≠ r ∧ s.players d = some kd' := by
  rw [h.players] at hd
  split_ifs at hd with hdc hdr
  · exact .inl ⟨hdc, (Option.some.inj hd).symm⟩
  · exact .inr (.inl ⟨hdr, (Option.some.inj hd).symm⟩)
  · exact .inr (.inr ⟨hdc, hdr, hd⟩)

theorem Relayed.kept (h : Relayed s t c k target payload rest r kr) (hk : s.players c = some k)
    {d : Conn} {kd : Player} (hd : s.players d = some kd) :
    ∃ kd', t.players d = some kd' ∧ kd'.session = kd.session := by
  rw [h.players]
  split_ifs with hdc hdr
  · subst hdc
    obtain rfl := Option.some.inj (hk.symm.trans hd)
    exact ⟨_, rfl, rfl⟩
  · subst hdr
    obtain rfl := Option.some.inj (h.player.symm.trans hd)
    exact ⟨_, rfl, rfl⟩
  · exact ⟨kd, hd, rfl⟩

theorem Relayed.third (hrel : Relayed s t c k target payload rest r kr) (h : Inv s)
    {ref i j : Nat} {d : Conn} (hr : Sits s ref i r) (hd : Sits s ref j d) (hdc : d ≠ c) :
    k.session.playerID ≠ j := by
  rintro rfl
  have hroom := congrArg Session.room (hrel.session.symm.trans (h.session hr hrel.player))
  have hsits : Sits s k.session.room k.session.playerID d := hroom ▸ hd
  exact hdc (Option.some.inj (hsits.symm.trans hrel.sender))

theorem Relayed.own (hrel : Relayed s t c k target payload rest r kr) (h : Inv s)
    (hk : s.players c = some k) (hup : k.up = .signal target payload :: rest) {d : Conn}
    {kd' : Player} (hd : t.players d = some kd') : Own d kd' := by
  have hpop : Keeps true c k { k with up := rest } := Keeps.pop hup
  rcases hrel.cases hd with ⟨rfl, rfl⟩ | ⟨rfl, rfl⟩ | ⟨-, -, hd⟩
  · exact hpop.own (h.own d k hk)
  · have hown := h.own d kr hrel.player
    refine ⟨hown.unstarted, hown.flushed, hown.self, fun joined hj => ?_, hown.made⟩
    refine hown.joined joined ((List.mem_append.1 hj).resolve_right fun hmem => ?_)
    cases List.mem_singleton.1 hmem
  · exact h.own d kd' hd

theorem Relayed.awaits (hrel : Relayed s t c k target payload rest r kr) (h : Inv s)
    (hk : s.players c = some k) (hup : k.up = .signal target payload :: rest)
    (horder : (answerOf payload).isSome → noticed target k.down = false) {d : Conn}
    {kd' : Player} {p : PlayerId} (hd : t.players d = some kd') (hlt : kd'.session.playerID < p) :
    Awaits d p kd' := by
  have hpop : Keeps true c k { k with up := rest } := Keeps.pop hup
  rcases hrel.cases hd with ⟨rfl, rfl⟩ | ⟨rfl, rfl⟩ | ⟨-, -, hd⟩
  · exact hpop.awaits p hlt (h.awaits d k p hk hlt)
  · have hwait := h.awaits d kr p hrel.player hlt
    by_cases hother : k.session.playerID ≠ p ∨ answerOf payload = none
    · exact hwait.hear (plain_signal hother).picks
    rw [not_or, not_not] at hother
    obtain ⟨rfl, hanswer⟩ := hother
    have htarget : target < k.session.playerID := by
      have hsession := congrArg Session.playerID hrel.session
      exact lt_of_eq_of_lt hsession.symm hlt
    have hpair := h.paired _ _ _ _ _ kr k htarget hrel.receiver hrel.sender hrel.player hk
    cases payload with
    | answer sdp => exact hpair.awaits_answer hwait hup (horder rfl)
    | offer | ice | unknown => exact absurd rfl hanswer
  · exact h.awaits d kd' p hd hlt

theorem Relayed.source (hrel : Relayed s t c k target payload rest r kr) (h : Inv s)
    (hk : s.players c = some k) (hup : k.up = .signal target payload :: rest) {d : Conn}
    {kd' : Player} {p : PlayerId} (hd : t.players d = some kd') {sdp : Desc}
    (hsdp : sdp ∈ answersDown p kd'.down) : ∃ y ky epoch offer, sdp = .answer ⟨y, epoch⟩ offer ∧
      t.players y = some ky ∧ ky.session = ⟨kd'.session.room, p⟩ := by
  have hstill : ∀ d kd, s.players d = some kd → sdp ∈ answersDown p kd.down →
      ∃ y ky epoch offer, sdp = .answer ⟨y, epoch⟩ offer ∧ t.players y = some ky ∧
        ky.session = ⟨kd.session.room, p⟩ := by
    intro d kd hd hsdp
    obtain ⟨y, ky, epoch, offer, heq, hy, hsession⟩ := h.source d kd p hd sdp hsdp
    obtain ⟨ky', hky', hsame⟩ := hrel.kept hk hy
    exact ⟨y, ky', epoch, offer, heq, hky', hsame.trans hsession⟩
  rcases hrel.cases hd with ⟨rfl, rfl⟩ | ⟨rfl, rfl⟩ | ⟨-, -, hd⟩
  · exact hstill d k hk hsdp
  · rcases List.mem_append.1 (by rwa [Player.hear, answersDown_append] at hsdp) with hold | hnew
    · exact hstill d kr hrel.player hold
    by_cases hother : k.session.playerID ≠ p ∨ answerOf payload = none
    · rw [show answersDown p _ = [] from (plain_signal hother).picks] at hnew
      cases hnew
    rw [not_or, not_not] at hother
    obtain ⟨rfl, hanswer⟩ := hother
    have hmade : sdp ∈ answersUp target k.up := by
      cases payload with
      | answer sdp' =>
        rw [hup]
        simp only [answersDown, downFrom, answerOf, if_true, List.filterMap_cons,
          List.filterMap_nil, List.mem_singleton] at hnew
        simp [answersUp, upTo, answerOf, hnew]
      | offer | ice | unknown => exact absurd rfl hanswer
    obtain ⟨epoch, offer, heq⟩ := (h.own c k hk).made target sdp hmade
    refine ⟨c, { k with up := rest }, epoch, offer, heq, by rw [hrel.players, if_pos rfl], ?_⟩
    change k.session = ⟨kr.session.room, k.session.playerID⟩
    rw [hrel.session]
  · exact hstill d kd' hd hsdp

theorem Relayed.paired (hrel : Relayed s t c k target payload rest r kr) (h : Inv s)
    (hk : s.players c = some k) (hup : k.up = .signal target payload :: rest)
    (horder : (offerOf payload).isSome ∨ (answerOf payload).isSome →
      noticed target k.down = false) {ref a b : Nat} {x y : Conn} {kx' ky' : Player} (hab : a < b)
    (hx : Sits s ref a x) (hy : Sits s ref b y) (hkx : t.players x = some kx')
    (hky : t.players y = some ky') : Paired a b x kx' ky' := by
  obtain ⟨kx, hwasx, -⟩ := h.seated ref a x hx
  obtain ⟨ky, hwasy, -⟩ := h.seated ref b y hy
  have hpair := h.paired ref a b x y kx ky hab hx hy hwasx hwasy
  have hne := Nat.ne_of_lt hab
  rcases hrel.cases hkx with ⟨rfl, rfl⟩ | ⟨rfl, rfl⟩ | ⟨hxc, hxr, hkx⟩
  · obtain rfl := Option.some.inj (hk.symm.trans hwasx)
    have ha := congrArg Session.playerID (h.session hx hk)
    rcases hrel.cases hky with ⟨rfl, rfl⟩ | ⟨rfl, rfl⟩ | ⟨-, -, hky⟩
    · exact absurd (ha.symm.trans (congrArg Session.playerID (h.session hy hk))) hne
    · obtain rfl := Option.some.inj (hrel.player.symm.trans hwasy)
      obtain rfl : target = b := congrArg Session.playerID
        (hrel.session.symm.trans (h.session hy hrel.player))
      obtain rfl : k.session.playerID = a := ha
      cases payload with
      | offer sdp => exact hpair.relay_offer hup (horder (.inl rfl))
      | answer | ice | unknown =>
        exact (hpair.pop_offerer hup).hear_answerer (plain_signal (.inr rfl))
    · obtain rfl := Option.some.inj (hky.symm.trans hwasy)
      exact hpair.pop_offerer hup
  · obtain rfl := Option.some.inj (hrel.player.symm.trans hwasx)
    rcases hrel.cases hky with ⟨rfl, rfl⟩ | ⟨rfl, rfl⟩ | ⟨hyc, -, hky⟩
    · obtain rfl := Option.some.inj (hk.symm.trans hwasy)
      obtain rfl : target = a := congrArg Session.playerID
        (hrel.session.symm.trans (h.session hx hrel.player))
      obtain rfl : k.session.playerID = b := congrArg Session.playerID (h.session hy hk)
      cases payload with
      | answer sdp => exact hpair.relay_answer hup (horder (.inr rfl))
      | offer | ice | unknown =>
        exact (hpair.pop_answerer hup).hear_offerer (plain_signal (.inr rfl))
    · have hsame := (h.session hx hrel.player).symm.trans (h.session hy hrel.player)
      exact absurd (congrArg Session.playerID hsame) hne
    · obtain rfl := Option.some.inj (hky.symm.trans hwasy)
      exact hpair.hear_offerer (plain_signal (.inl (hrel.third h hx hy hyc)))
  · obtain rfl := Option.some.inj (hkx.symm.trans hwasx)
    rcases hrel.cases hky with ⟨rfl, rfl⟩ | ⟨rfl, rfl⟩ | ⟨-, -, hky⟩
    · obtain rfl := Option.some.inj (hk.symm.trans hwasy)
      exact hpair.pop_answerer hup
    · obtain rfl := Option.some.inj (hrel.player.symm.trans hwasy)
      exact hpair.hear_answerer (plain_signal (.inl (hrel.third h hy hx hxc)))
    · obtain rfl := Option.some.inj (hky.symm.trans hwasy)
      exact hpair

theorem Inv.relay (h : Inv s) (hrel : Relayed s t c k target payload rest r kr)
    (hk : s.players c = some k) (hup : k.up = .signal target payload :: rest)
    (horder : (offerOf payload).isSome ∨ (answerOf payload).isSome →
      noticed target k.down = false) : Inv t where
  seated := by
    intro ref i d hd
    obtain ⟨kd, hkd, hsession⟩ := h.seated ref i d (hrel.sits ref i d hd)
    obtain ⟨kd', hkd', hsame⟩ := hrel.kept hk hkd
    exact ⟨kd', hkd', hsame.trans hsession⟩
  own := fun _ _ hd => hrel.own h hk hup hd
  awaits := fun _ _ _ hd hlt => hrel.awaits h hk hup (fun ha => horder (.inr ha)) hd hlt
  source := fun _ _ _ hd _ hsdp => hrel.source h hk hup hd hsdp
  paired := fun ref a b x y _ _ hab hx hy hkx hky =>
    hrel.paired h hk hup horder hab (hrel.sits ref a x hx) (hrel.sits ref b y hy) hkx hky

end Relays

theorem inv_init (limits : Limits) : Inv ⟨newManager limits, fun _ => none⟩ where
  seated := by
    intro ref i c hc
    unfold Sits at hc
    rw [room_of_ge _ (Nat.zero_le ref), slot_absent] at hc
    cases hc
  own := fun _ _ h => nomatch h
  awaits := fun _ _ _ h => nomatch h
  source := fun _ _ _ h => nomatch h
  paired := fun _ _ _ _ _ _ _ _ _ _ h => nomatch h

theorem Inv.enter {s : State} (h : Inv s) {c : Conn} (hnone : s.players c = none)
    (sess : Session) : Inv (s.set c ⟨sess, none, [], []⟩) := by
  have hplayer : ∀ d kd', (s.set c ⟨sess, none, [], []⟩).players d = some kd' →
      d = c ∧ kd' = ⟨sess, none, [], []⟩ ∨ s.players d = some kd' := by
    intro d kd' hd
    rw [players_set] at hd
    split_ifs at hd with hdc
    · exact .inl ⟨hdc, (Option.some.inj hd).symm⟩
    · exact .inr hd
  have hkept : ∀ d kd, s.players d = some kd →
      (s.set c ⟨sess, none, [], []⟩).players d = some kd := by
    intro d kd hd
    rw [players_set, if_neg, hd]
    rintro rfl
    rw [hnone] at hd
    cases hd
  have hold : ∀ {ref i d kd'}, Sits s ref i d →
      (s.set c ⟨sess, none, [], []⟩).players d = some kd' → s.players d = some kd' := by
    intro ref i d kd' hd hkd'
    obtain ⟨kd, hkd, -⟩ := h.seated ref i d hd
    rw [hkept d kd hkd] at hkd'
    rwa [← Option.some.inj hkd']
  constructor
  · intro ref i d hd
    obtain ⟨kd, hkd, hsession⟩ := h.seated ref i d hd
    exact ⟨kd, hkept d kd hkd, hsession⟩
  · intro d kd' hd
    rcases hplayer d kd' hd with ⟨rfl, rfl⟩ | hd
    · exact ⟨fun _ => rfl, fun _ h => (nomatch h), fun _ h => (nomatch h), fun _ h => (nomatch h),
        fun _ _ h => (nomatch h)⟩
    · exact h.own d kd' hd
  · intro d kd' p hd hlt
    rcases hplayer d kd' hd with ⟨rfl, rfl⟩ | hd
    · exact ⟨.nil _, rfl⟩
    · exact h.awaits d kd' p hd hlt
  · intro d kd' p hd sdp hsdp
    rcases hplayer d kd' hd with ⟨rfl, rfl⟩ | hd
    · cases hsdp
    · obtain ⟨y, ky, epoch, offer, heq, hy, hsession⟩ := h.source d kd' p hd sdp hsdp
      exact ⟨y, ky, epoch, offer, heq, hkept y ky hy, hsession⟩
  · intro ref a b x y kx ky hab hx hy hkx hky
    exact h.paired ref a b x y kx ky hab hx hy (hold hx hkx) (hold hy hky)

theorem quiet_call (sha256 : String → TokenHash) (m : Manager) (op : Op) (env : Env)
    (hop : ∀ sess conn target payload, op ≠ .signal sess conn target payload) (d : Conn) :
    signalsTo d (m.apply sha256 env op).out = [] := by
  rcases effect_relays sha256 (apply_effect sha256 env m op) with ⟨-, -, h⟩ | ⟨x, -, -, hauth, -⟩
  · exact h d
  · exact absurd hauth.call (hop _ _ _ _)

theorem Inv.call_old {s : State} (h : Inv s) {op : Op} {env : Env} (hop : opJoining op = none)
    (hquiet : ∀ d, signalsTo d (s.manager.apply sha256 env op).out = []) :
    Inv (s.call codec sha256 op env) := by
  refine h.call (fun c hc => ?_) (fun c hc => ?_) hquiet
  · rw [hop] at hc
    cases hc
  · rw [hop] at hc
    cases hc

theorem Inv.serve {s : State} (h : Inv s) {c : Conn} {k : Player} (hk : s.players c = some k)
    {msg : ClientMessage Desc} {rest : List (ClientMessage Desc)} (hup : k.up = msg :: rest)
    (horder : s.holds c k = true → ∀ n ∈ k.down, crosses msg n = false) (env : Env) :
    Inv ((s.set c { k with up := rest }).call codec sha256 (clientOp codec c k.session msg) env) := by
  have hpop := h.set hk (Keeps.pop hup)
  have hop : opJoining (clientOp codec c k.session msg) = none := by cases msg <;> rfl
  rcases effect_relays sha256 (apply_effect sha256 env s.manager (clientOp codec c k.session msg))
    with ⟨-, -, hquiet⟩ | ⟨x, -, -, hauth, hout⟩
  · exact hpop.call_old hop hquiet
  cases msg with
  | leave => cases hauth.call
  | signal target payload =>
    obtain ⟨r, kr, hrel⟩ := call_relayed h hk rest hauth hout
    refine h.relay hrel hk hup fun hpayload => ?_
    have hholds : s.holds c k = true := beq_iff_eq.2 hrel.sender
    refine List.any_eq_false.2 fun n hn hnotice => ?_
    have hcross := horder hholds n hn
    have hn : noticeOf n = some target := by simpa [isNotice] using hnotice
    cases payload with
    | offer | answer => simp [crosses, negotiates, hn] at hcross
    | ice | unknown => simp [offerOf, answerOf] at hpayload

theorem Inv.entered {s t : State} {c : Conn} {op : Op} {env : Env} (h : Inv s)
    (hstep : s.next codec sha256 (.enter c op env) = some t) : Inv t := by
  unfold State.next at hstep
  simp only at hstep
  split_ifs at hstep with hguard
  simp only [Bool.and_eq_true, Option.isNone_iff_eq_none, beq_iff_eq] at hguard
  obtain ⟨hnone, hop⟩ := hguard
  have hquiet := quiet_call sha256 s.manager op env (by rintro _ _ _ _ rfl; cases hop)
  have hloose : Loose s.manager op := h.loose fun d hd => by
    rw [← Option.some.inj (hop.symm.trans hd)]
    exact hnone
  cases hreply : (s.manager.apply sha256 env op).reply with
  | session res =>
    cases res with
    | ok sess =>
      rw [hreply] at hstep
      cases hstep
      refine (h.enter hnone sess).call hloose (fun d hd sess' hsess' => ?_) hquiet
      obtain rfl := Option.some.inj (hop.symm.trans hd)
      cases hreply.symm.trans hsess'
      rw [players_set, if_pos rfl]
    | error err =>
      rw [hreply] at hstep
      cases hstep
      exact h.call hloose (fun d _ sess' hsess' => nomatch hreply.symm.trans hsess') hquiet
  | relayed | none | collected =>
    rw [hreply] at hstep
    cases hstep
    exact h.call hloose (fun d _ sess' hsess' => nomatch hreply.symm.trans hsess') hquiet

theorem Inv.served {s t : State} {c : Conn} {env : Env} {answers : Bool} (h : Inv s)
    (horder : s.orderly (.serve c env answers) = true)
    (hstep : s.next codec sha256 (.serve c env answers) = some t) : Inv t := by
  unfold State.next at hstep
  unfold State.orderly at horder
  obtain ⟨k, hk, hstep⟩ := Option.bind_eq_some_iff.1 hstep
  cases hup : k.up with
  | nil => simp [hup] at hstep
  | cons msg rest =>
    simp only [hup] at hstep
    obtain ⟨k', hk', hstep⟩ := Option.bind_eq_some_iff.1 hstep
    cases hstep
    refine (h.serve hk hup (fun hholds n hn => ?_) env).set hk' (Keeps.replied fun m hm => ?_)
    · simp only [hk, hup, hholds, Bool.not_true, Bool.false_or, List.all_eq_true,
        Bool.not_eq_true'] at horder
      exact horder n hn
    · unfold replied at hm
      split_ifs at hm
      · split at hm
        · exact ⟨_, _, List.mem_singleton.1 hm⟩
        · cases hm
      · cases hm

theorem Inv.delivered {s t : State} {c : Conn} {rtc : Rtc Desc} (h : Inv s)
    (horder : s.orderly (.deliver c rtc) = true)
    (hstep : s.next codec sha256 (.deliver c rtc) = some t) : Inv t := by
  unfold State.next at hstep
  unfold State.orderly at horder
  obtain ⟨k, hk, hstep⟩ := Option.bind_eq_some_iff.1 hstep
  obtain ⟨k', hk', hstep⟩ := Option.bind_eq_some_iff.1 hstep
  cases hstep
  obtain ⟨head, new, hacts⟩ := acts_receive (h.own c k hk) hk'
  refine h.set hk (Keeps.acts hacts fun hholds m hm msg hmsg => ?_)
  obtain rfl := Option.some.inj hm
  have hdown : k.down = head :: k'.down := hacts.down
  simp only [hk, hdown, hholds, Bool.not_true, Bool.false_or, List.all_eq_true,
    Bool.not_eq_true'] at horder
  exact horder msg hmsg

theorem Inv.given {s t : State} {c : Conn} {rtc : Rtc Desc} {input : Input Desc} (h : Inv s)
    (horder : s.orderly (.input c rtc input) = true)
    (hstep : s.next codec sha256 (.input c rtc input) = some t) : Inv t := by
  unfold State.next at hstep
  unfold State.orderly at horder
  have hinput : (∀ msg, input ≠ .internal (.ws msg)) ∧ (do
      let k ← s.players c
      let k ← k.take (named rtc c) input
      return s.set c k) = some t := by
    refine ⟨?_, ?_⟩
    · rintro msg rfl
      cases hstep
    · cases input with
      | internal input =>
        cases input with
        | ws msg => cases hstep
        | _ => exact hstep
      | _ => exact hstep
  obtain ⟨hws, hstep⟩ := hinput
  obtain ⟨k, hk, hstep⟩ := Option.bind_eq_some_iff.1 hstep
  obtain ⟨k', hk', hstep⟩ := Option.bind_eq_some_iff.1 hstep
  cases hstep
  obtain ⟨new, hacts⟩ := acts_input (h.own c k hk) hws hk' (by
    rintro g p epoch hg rfl hrebuilds
    simp only [hk, hg] at horder
    have hrebuilds : g.actor.rebuilds rtc p epoch = true := hrebuilds
    simpa [hrebuilds] using horder)
  exact h.set hk (Keeps.acts hacts fun _ m hm => nomatch hm)

theorem Inv.step {s t : State} {action : Action} (h : Inv s) (horder : s.orderly action = true)
    (hstep : s.next codec sha256 action = some t) : Inv t := by
  cases action with
  | enter c op env => exact h.entered hstep
  | serve c env answers => exact h.served horder hstep
  | deliver c rtc => exact h.delivered horder hstep
  | input c rtc input => exact h.given horder hstep
  | lose c env | touch c env =>
    obtain ⟨k, hk, hstep⟩ := Option.bind_eq_some_iff.1 hstep
    cases hstep
    exact h.call_old rfl (quiet_call _ _ _ _ (by simp))
  | collect env =>
    cases hstep
    exact h.call_old rfl (quiet_call _ _ _ _ (by simp))

theorem inv_run {limits : Limits} {actions : List Action} {s : State}
    (run : Run ((signaling codec sha256 limits).restrict fun s action => s.orderly action = true)
      actions s) : Inv s := by
  refine run.invariant Inv ?_ ?_
  · rintro s rfl
    exact inv_init limits
  · rintro s action t h ⟨horder, hstep⟩
    exact h.step horder hstep

/-- The answer was made by the client in slot `p`, for the offer of this link. -/
def Matched (s : State) (c : Conn) (k : Player) (p : PlayerId) (link : Link) (sdp : Desc) : Prop :=
  ∃ y ky epoch, s.players y = some ky ∧ ky.session = ⟨k.session.room, p⟩ ∧
    sdp = .answer ⟨y, epoch⟩ ⟨c, link.epoch⟩

/-- While no offer or answer crosses the notice that it is for somebody else by now, a
client sets on a link only the answer to the offer of that link. -/
theorem answers_matched (codec : Codec) (sha256 : String → TokenHash) (limits : Limits)
    (actions : List Action) (s : State)
    (run : Run ((signaling codec sha256 limits).restrict fun s action => s.orderly action = true)
      actions s)
    (c : Conn) (rtc : Rtc Desc) (k : Player) (g : Game Desc) (p : PlayerId) (link : Link)
    (sdp : Desc) (hlower : k.session.playerID < p) (h : Applies s c rtc k g p link sdp) :
    Matched s c k p link sdp := by
  have hinv := inv_run run
  obtain ⟨rest, hdown⟩ : ∃ rest, k.down = .signal p (.answer sdp) :: rest := by
    cases hdown : k.down with
    | nil =>
      have hhead := h.head
      simp [hdown] at hhead
    | cons m rest =>
      have hhead := h.head
      rw [hdown] at hhead
      exact ⟨rest, by rw [Option.some.inj hhead]⟩
  have hanswers : answersDown p k.down = sdp :: answersDown p rest := by
    rw [hdown]
    simp [answersDown, downFrom, answerOf]
  have hwaiting : Player.status c k p = .waiting ⟨c, link.epoch⟩ := by
    have htaken := h.taken
    unfold Actor.takesAnswer at htaken
    obtain ⟨peer, hpeer, hlink⟩ := Option.map_eq_some_iff.1 h.link
    rw [hpeer] at htaken
    simp only [hlink, Bool.and_eq_true, decide_eq_true_eq] at htaken
    simp only [Player.status, h.game, status, h.running, if_true, linkTo, hpeer, Option.map_some,
      linkStatus, htaken.1.2, hlink]
  have hsingle := (hinv.awaits c k p h.player hlower).single
  rw [hanswers] at hsingle
  have hoffered : sdp.offered = ⟨c, link.epoch⟩ := by
    rcases hsingle.head with hst | hst
    · rw [hwaiting] at hst
      exact (Status.waiting.inj hst).symm
    · rw [hwaiting] at hst
      cases hst
  obtain ⟨y, ky, epoch, offer, rfl, hy, hsession⟩ := hinv.source c k p h.player sdp (by
    rw [hanswers]
    exact List.mem_cons_self)
  refine ⟨y, ky, epoch, hy, hsession, ?_⟩
  rw [← hoffered]
  rfl

section
open Server.Websocket (calm smallLimits codePoints)
open Server.Tokens (openOp resumeOp)

def tally (n : Nat) : List Char := List.replicate n '1' ++ ['.']

def readTally : List Char → Option (Nat × List Char)
  | '1' :: cs => (readTally cs).map fun r => (r.1 + 1, r.2)
  | '.' :: cs => some (0, cs)
  | _ => none

@[simp] theorem readTally_tally (n : Nat) (cs : List Char) :
    readTally (tally n ++ cs) = some (n, cs) := by
  induction n with
  | zero => rfl
  | succ n ih =>
    have hcons : tally (n + 1) ++ cs = '1' :: (tally n ++ cs) := rfl
    rw [hcons, readTally, ih]
    rfl

def writeLink (link : LinkId) : List Char := tally link.conn ++ tally link.epoch

def readLink (cs : List Char) : Option (LinkId × List Char) := do
  let (conn, cs) ← readTally cs
  let (epoch, cs) ← readTally cs
  return (⟨conn, epoch⟩, cs)

@[simp] theorem readLink_writeLink (link : LinkId) (cs : List Char) :
    readLink (writeLink link ++ cs) = some (link, cs) := by
  simp [readLink, writeLink, List.append_assoc]

def writeDesc : Desc → List Char
  | .offer link => 'o' :: writeLink link
  | .answer link offer => 'a' :: (writeLink link ++ writeLink offer)

def readDesc : List Char → Option Desc
  | 'o' :: cs => (readLink cs).map fun r => .offer r.1
  | 'a' :: cs => do
    let (link, cs) ← readLink cs
    let (offer, _) ← readLink cs
    return .answer link offer
  | _ => none

theorem readDesc_writeDesc (d : Desc) : readDesc (writeDesc d) = some d := by
  cases d with
  | offer link =>
    have h := readLink_writeLink link []
    rw [List.append_nil] at h
    simp [writeDesc, readDesc, h]
  | answer link offer =>
    have h := readLink_writeLink offer []
    rw [List.append_nil] at h
    simp [writeDesc, readDesc, h]

def writePayload : SignalPayload Desc → List Char
  | .offer d => 'o' :: writeDesc d
  | .answer d => 'a' :: writeDesc d
  | .ice none => ['i']
  | .ice (some candidate) => 'c' :: candidate.toList
  | .unknown => ['u']

def readPayload : List Char → Option (SignalPayload Desc)
  | 'o' :: cs => (readDesc cs).map .offer
  | 'a' :: cs => (readDesc cs).map .answer
  | ['i'] => some (.ice none)
  | 'c' :: cs => some (.ice (some (String.ofList cs)))
  | ['u'] => some .unknown
  | _ => none

def tallied : Codec where
  encode payload := String.ofList (writePayload payload)
  decode text := readPayload text.toList
  decode_encode payload := by
    rw [String.toList_ofList]
    cases payload with
    | offer d => simp [writePayload, readPayload, readDesc_writeDesc]
    | answer d => simp [writePayload, readPayload, readDesc_writeDesc]
    | ice candidate => cases candidate <;> simp [writePayload, readPayload]
    | unknown => rfl

def smooth : Rtc Desc where
  creates := fun _ => true
  offers := fun _ => true
  describes := fun _ => true
  parses := true
  answers := true
  failed := false
  takes := fun _ => true
  offerOf := fun epoch => .offer ⟨0, epoch⟩
  answerOf := fun epoch offer => .answer ⟨0, epoch⟩ offer.link

def start : State := ⟨newManager smallLimits, fun _ => none⟩

/-- Two players meet; the first one has made its offer. -/
def metActions : List Action :=
  [.enter 0 (openOp 0) (calm 1 "a"), .deliver 0 smooth,
    .enter 1 (resumeOp "" 1) (calm 2 "b"), .deliver 0 smooth]

def answeredActions : List Action := metActions ++
  [.serve 0 (calm 3 "") true, .deliver 1 smooth, .deliver 1 smooth, .serve 1 (calm 4 "") true]

/-- The offer is answered; then the second player resumes on another transport, and is offered another link. -/
def returnedActions : List Action := answeredActions ++
  [.deliver 0 smooth, .enter 2 (resumeOp "b" 2) (calm 5 "c"), .deliver 0 smooth,
    .serve 0 (calm 6 "") true, .deliver 2 smooth, .deliver 2 smooth, .serve 2 (calm 7 "") true]

/-- The second player resumes on another transport while the offer is under way. -/
def crossedActions : List Action := metActions ++
  [.enter 2 (resumeOp "b" 2) (calm 3 "c"), .serve 0 (calm 4 "") true, .deliver 2 smooth,
    .deliver 2 smooth, .deliver 0 smooth, .serve 2 (calm 5 "") true]

def orderlyNext (codec : Codec) (sha256 : String → TokenHash) (s : State) (action : Action) :
    Option State :=
  if s.orderly action then s.next codec sha256 action else none

/-- The epoch of the link to `p` and the answer that the client behind `c` is about to set
on it. -/
def settles (s : State) (c : Conn) (rtc : Rtc Desc) (p : PlayerId) : Option (Nat × Desc) := do
  let k ← s.players c
  let g ← k.game
  let peer ← g.actor.peers p
  match k.down with
  | .signal source (.answer sdp) :: _ =>
    if source = p ∧ k.session.playerID < p ∧ g.running = true ∧ g.actor.closed = false ∧
        p ≠ g.actor.selfId ∧ g.actor.takesAnswer (named rtc c) p = true then
      some (peer.link.epoch, sdp)
    else none
  | _ => none

theorem settles_applies {s : State} {c : Conn} {rtc : Rtc Desc} {p : PlayerId} {epoch : Nat}
    {sdp : Desc} (h : settles s c rtc p = some (epoch, sdp)) :
    ∃ k g link, Applies s c rtc k g p link sdp ∧ k.session.playerID < p ∧ link.epoch = epoch := by
  unfold settles at h
  obtain ⟨k, hk, hgame⟩ := Option.bind_eq_some_iff.1 h
  obtain ⟨g, hg, hpeers⟩ := Option.bind_eq_some_iff.1 hgame
  obtain ⟨peer, hpeer, hdown⟩ := Option.bind_eq_some_iff.1 hpeers
  split at hdown
  · rename_i source sdp' rest hhead
    split_ifs at hdown with hcond
    cases hdown
    obtain ⟨rfl, hlower, hrun, hopen, hother, htaken⟩ := hcond
    refine ⟨k, g, peer.link, ⟨hk, hg, hrun, ?_, hopen, hother, ?_, htaken⟩, hlower, rfl⟩
    · rw [hhead]
      rfl
    · rw [hpeer]
      rfl
  · cases hdown

theorem run_orderly {actions : List Action} {s : State}
    (h : follow (orderlyNext tallied codePoints) actions start = some s) :
    Run ((signaling tallied codePoints smallLimits).restrict
      fun s action => s.orderly action = true) actions s := by
  have hnext : ∀ s action t, orderlyNext tallied codePoints s action = some t →
      s.orderly action = true ∧ s.next tallied codePoints action = some t := by
    intro s action t hnext
    unfold orderlyNext at hnext
    split_ifs at hnext with horder
    exact ⟨horder, hnext⟩
  have run : Run ((signaling tallied codePoints smallLimits).restrict
      fun s action => s.orderly action = true) ([] ++ actions) s :=
    Run.follow hnext (.init rfl) h
  exact run

set_option maxRecDepth 10000

theorem answers_matched_return : ∃ s k link sdp,
    follow (orderlyNext tallied codePoints) returnedActions start = some s ∧
    s.players 0 = some k ∧ link.epoch = 2 ∧ Matched s 0 k 1 link sdp := by
  have hsettles : (follow (orderlyNext tallied codePoints) returnedActions start).bind
      (settles · 0 smooth 1) = some (2, .answer ⟨2, 1⟩ ⟨0, 2⟩) := rfl
  obtain ⟨s, hs, hsettles⟩ := Option.bind_eq_some_iff.1 hsettles
  obtain ⟨k, g, link, happ, hlower, hepoch⟩ := settles_applies hsettles
  exact ⟨s, k, link, _, hs, happ.player, hepoch,
    answers_matched tallied codePoints smallLimits _ s (run_orderly hs) 0 smooth k g 1 link _
      hlower happ⟩

/-- The link made after the notice is set to the answer that its predecessor asked for. -/
theorem answer_crossed : ¬∀ (actions : List Action) (s : State),
    Run (signaling tallied codePoints smallLimits) actions s →
    ∀ c rtc k g p link sdp, k.session.playerID < p → Applies s c rtc k g p link sdp →
      Matched s c k p link sdp := by
  intro hall
  have hsettles : (follow (State.next tallied codePoints) crossedActions start).bind
      (settles · 0 smooth 1) = some (2, .answer ⟨2, 1⟩ ⟨0, 1⟩) := rfl
  obtain ⟨s, hs, hsettles⟩ := Option.bind_eq_some_iff.1 hsettles
  obtain ⟨k, g, link, happ, hlower, hepoch⟩ := settles_applies hsettles
  have run : Run (signaling tallied codePoints smallLimits) ([] ++ crossedActions) s :=
    Run.follow (fun _ _ _ h => h) (.init rfl) hs
  obtain ⟨y, ky, epoch, -, -, hsdp⟩ := hall _ s run _ _ _ _ _ _ _ hlower happ
  rw [hepoch] at hsdp
  cases hsdp

end

end Lobbylink.System.Answers
