import Lobbylink.Server.Sweeps

/-! What the lobby offers one transport over a run of the server: for each time it is
attached to a slot, its joined message, then notices of the others, then nothing but the
kick of the operation that detaches it. -/
namespace Lobbylink.Server.Attachments
open Protocol Lobby Registry Policy Fanout Operations Effects Slots Audience Sessions
  Websocket Streams Sweeps Lib.Runs

variable {sha256 : String → TokenHash} {env : Env}

def connAt (m : Manager) (sess : Session) : Option Conn :=
  ((m.room sess.room).slot sess.playerID).conn

def entrant (op : Op) : Reply → Option (Conn × Session)
  | .session (.ok sess) => (opJoining op).map fun c => (c, sess)
  | _ => none

/-- `Plays` over all rooms. -/
structure Attends (m : Manager) (joiner : Option (Conn × Session)) (out : List Out)
    (m' : Manager) : Prop where
  held : ∀ sess c, connAt m sess = some c →
    Spell sess.playerID (connAt m' sess = some c) (stream c out)
  entered : ∀ c sess, joiner = some (c, sess) → ∃ msg items,
    stream c out = .offered (.joined msg) :: items ∧ msg.selfID = sess.playerID ∧
      Spell sess.playerID (connAt m' sess = some c) items
  absent : ∀ c, (∀ sess, connAt m sess ≠ some c) → (∀ sess, joiner ≠ some (c, sess)) →
    stream c out = []
  removed : ∀ sess c, connAt m sess = some c → (m'.room sess.room).destroyed = true →
    stream c out = [.kicked .roomExpired]

theorem eviction_spell {m : Manager} (hp : Placed m) (m' : Manager) {sess : Session} {c : Conn}
    (hc : connAt m sess = some c) :
    Spell sess.playerID (connAt m' sess = some c) (eviction (Evicted m m' c)) := by
  by_cases hstill : connAt m' sess = some c
  · have hnot : ¬Evicted m m' c := by
      rintro ⟨ref, i, hi, hgone⟩
      obtain rfl := hp.unique ref sess.room i sess.playerID c hi hc
      obtain rfl := hp.distinct sess.room i sess.playerID c hi hc
      exact hgone hstill
    rw [eviction_neg hnot]
    exact .nothing _ _
  · have hgone : Evicted m m' c := ⟨sess.room, sess.playerID, hc, hstill⟩
    rw [eviction_pos hgone]
    exact .kicked _ hstill _

theorem eviction_removed {m m' : Manager} (hs : ∀ ref, Sound (m.room ref)) {out : List Out}
    (hswept : Swept env.now m m' out) {sess : Session} {c : Conn} (hc : connAt m sess = some c)
    (hdes : (m'.room sess.room).destroyed = true) :
    eviction (Evicted m m' c) = [.kicked .roomExpired] := by
  apply eviction_pos
  refine ⟨sess.room, sess.playerID, hc, ?_⟩
  rcases hswept.rooms sess.room with hsame | ⟨-, hclosed⟩
  · rw [hsame, (hs sess.room sess.playerID c hc).2] at hdes
    cases hdes
  · rw [hclosed, slot_closed]
    exact fun h => nomatch h

theorem not_evicted {m : Manager} (m' : Manager) {c : Conn} (h : ∀ sess, connAt m sess ≠ some c) :
    ¬Evicted m m' c := by
  rintro ⟨ref, i, hi, -⟩
  exact h ⟨ref, i⟩ hi

theorem gc_attends {m : Manager} (hp : Placed m) (hs : ∀ ref, Sound (m.room ref)) (env : Env) :
    Attends m none (gcLocked env.now m).out (gcLocked env.now m).manager where
  held := by
    intro sess c hc
    rw [gcLocked_stream hp]
    exact eviction_spell hp _ hc
  entered := fun _ _ h => nomatch h
  absent := by
    intro c hc _
    rw [gcLocked_stream hp, eviction_neg (not_evicted _ hc)]
  removed := by
    intro sess c hc hdes
    rw [gcLocked_stream hp]
    exact eviction_removed hs (gcLocked_swept env.now m) hc hdes

theorem onRoom_attends {m : Manager} (hp : Placed m) (hs : ∀ ref, Sound (m.room ref)) {ref : Nat}
    {r' : Room} {out : List Out}
    {joiner : Option (Conn × Nat)} (hplays : Plays (seating (m.room ref)) joiner out (seating r'))
    (hloose : ∀ c i, joiner = some (c, i) → ∀ sess, connAt m sess ≠ some c)
    (hkept : seating ((m.setRoom ref r').room ref) = seating r')
    (hdes : r'.destroyed = (m.room ref).destroyed) :
    Attends m (joiner.map fun j => (j.1, ⟨ref, j.2⟩)) out (m.setRoom ref r') where
  held := by
    rintro ⟨ref', i⟩ c hc
    by_cases href : ref' = ref
    · subst href
      have hnow : connAt (m.setRoom ref' r') ⟨ref', i⟩ = seating r' i := congrFun hkept i
      rw [hnow]
      exact hplays.held i c hc
    · have hout : stream c out = [] := by
        apply hplays.absent
        · exact fun j hj => href (hp.unique ref' ref i j c hc hj)
        · exact fun j hj => hloose c j hj ⟨ref', i⟩ hc
      rw [hout]
      exact .nothing _ _
  entered := by
    intro c sess hj
    obtain ⟨⟨d, i⟩, hjoiner, heq⟩ := Option.map_eq_some_iff.1 hj
    cases heq
    have hnow : connAt (m.setRoom ref r') ⟨ref, i⟩ = seating r' i := congrFun hkept i
    rw [hnow]
    exact hplays.entered d i hjoiner
  absent := by
    intro c hc hj
    apply hplays.absent c fun i => hc ⟨ref, i⟩
    intro i hi
    exact hj ⟨ref, i⟩ (by rw [hi]; rfl)
  removed := by
    intro sess c hc hgone
    have hlive := (hs sess.room sess.playerID c hc).2
    rw [room_setRoom] at hgone
    split_ifs at hgone with href
    · rw [hdes, ← href.1, hlive] at hgone
      cases hgone
    · rw [hlive] at hgone
      cases hgone

theorem seating_setRoom {m : Manager} {ref : Nat} {r' : Room} {a : Act} {o : Outcome}
    {out : List Out} (hs : Sound (m.room ref)) (hdoes : Does sha256 env (m.room ref) a o r' out) :
    seating ((m.setRoom ref r').room ref) = seating r' := by
  rw [room_setRoom]
  by_cases hlt : ref < m.heap.length
  · rw [if_pos ⟨rfl, hlt⟩]
  · have habsent := room_of_ge m (Nat.le_of_not_lt hlt)
    have hdes : r'.destroyed = true := by rw [(does_sameRoom hdoes).destroyed, habsent]; rfl
    rw [if_neg fun h => hlt h.2, habsent]
    funext i
    have hnone : (r'.slot i).conn = none := by
      by_contra hne
      obtain ⟨c, hc⟩ := Option.ne_none_iff_exists'.1 hne
      rw [(does_sound hdoes hs i c hc).2] at hdes
      cases hdes
    rw [seating, slot_absent, seating, hnone]

theorem entrant_map (ref : Nat) {op : Op} {conn : Conn} (hop : opJoining op = some conn)
    (res : Except ProtoError Nat) :
    (joinerOf conn res).map (fun j => (j.1, ⟨ref, j.2⟩)) =
      entrant op (.session (res.map (Session.mk ref))) := by
  cases res with
  | error => rfl
  | ok id =>
    simp only [entrant, Except.map, hop]
    rfl

theorem joinerOf_loose {m : Manager} {op : Op} (hl : Loose m op) {conn : Conn}
    (hop : opJoining op = some conn) (res : Except ProtoError Nat) (c : Conn) (i : Nat)
    (h : joinerOf conn res = some (c, i)) (sess : Session) : connAt m sess ≠ some c := by
  cases res with
  | error => cases h
  | ok id =>
    cases h
    exact hl conn hop sess.room sess.playerID

theorem entering_attends {m : Manager} (hp : Placed m) (hs : ∀ ref, Sound (m.room ref)) {op : Op}
    (hl : Loose m op) {conn : Conn} (hop : opJoining op = some conn) {ref : Nat}
    {f : Call → Call × Except ProtoError Nat} {a : Act} {o : Outcome} {r' : Room} {out : List Out}
    (hf : (f ⟨m.room ref, []⟩).1 = ⟨r', out⟩) (hdoes : Does sha256 env (m.room ref) a o r' out)
    (hplayed : Played ⟨m.room ref, []⟩ conn (f ⟨m.room ref, []⟩)) :
    Attends m (entrant op (.session ((f ⟨m.room ref, []⟩).2.map (Session.mk ref)))) out
      (m.setRoom ref r') := by
  obtain ⟨out', hout, hplays⟩ := hplayed
  rw [hf] at hout hplays
  obtain rfl : out = out' := by simpa using hout
  rw [← entrant_map ref hop]
  exact onRoom_attends hp hs hplays (joinerOf_loose hl hop _) (seating_setRoom (hs ref) hdoes)
    (does_sameRoom hdoes).destroyed

theorem session_attends {m : Manager} (hp : Placed m) (hs : ∀ ref, Sound (m.room ref)) {ref : Nat}
    {t : Call} {a : Act} {o : Outcome} {r' : Room} {out : List Out} (ht : t = ⟨r', out⟩)
    (hdoes : Does sha256 env (m.room ref) a o r' out) (hsettles : Settles ⟨m.room ref, []⟩ t) :
    Attends m none out (m.setRoom ref r') := by
  obtain ⟨out', hout, hplays⟩ := hsettles
  subst ht
  obtain rfl : out = out' := by simpa using hout
  exact onRoom_attends hp hs hplays (fun _ _ h => nomatch h) (seating_setRoom (hs ref) hdoes)
    (does_sameRoom hdoes).destroyed

theorem sweepFor_stream {m : Manager} (hp : Placed m) (now : Time) (c : Conn) :
    stream c (sweepFor now m).out = eviction (Evicted m (sweepFor now m).manager c) := by
  by_cases hfull : m.limits.maxRooms ≤ m.rooms.length
  · rw [sweepFor_full hfull]
    exact gcLocked_stream hp now c
  · rw [sweepFor_room hfull, eviction_neg (evicted_irrefl m c), stream_nil]

theorem creating_attends {m : Manager} (hp : Placed m) (hs : ∀ ref, Sound (m.room ref)) {op : Op}
    (hl : Loose m op) {conn : Conn} (hop : opJoining op = some conn) {appID code : String}
    {opts : RoomOptions} {f : Call → Call × Except ProtoError Nat} {r' : Room} {out : List Out}
    (hf : (f ⟨newRoom appID code opts env.now, (sweepFor env.now m).out⟩).1 =
      ⟨r', (sweepFor env.now m).out ++ out⟩)
    (hplayed : Played ⟨newRoom appID code opts env.now, (sweepFor env.now m).out⟩ conn
      (f ⟨newRoom appID code opts env.now, (sweepFor env.now m).out⟩)) :
    Attends m (entrant op (.session
      ((f ⟨newRoom appID code opts env.now, (sweepFor env.now m).out⟩).2.map
        (Session.mk m.heap.length)))) ((sweepFor env.now m).out ++ out)
      ((withRoom env.now m (newRoom appID code opts env.now)).setRoom m.heap.length r') := by
  obtain ⟨out', hout, hplays⟩ := hplayed
  rw [hf] at hout hplays
  obtain rfl : out = out' := by simpa using hout
  have hstream := sweepFor_stream hp env.now
  have hempty : ∀ i, seating (newRoom appID code opts env.now) i = none := fun i => by
    rw [seating, slot_newRoom]
  have hnew : ∀ i c, connAt m ⟨m.heap.length, i⟩ ≠ some c := fun i c hc => by
    rw [connAt, room_of_ge m (Nat.le_refl _), slot_absent] at hc
    cases hc
  have hlen := heap_withRoom env.now m (newRoom appID code opts env.now)
  have hquiet : ∀ c, c ≠ conn → stream c out = [] := by
    intro c hc
    apply hplays.absent
    · intro i hi
      rw [hempty] at hi
      cases hi
    · intro i hi
      cases hres : (f ⟨newRoom appID code opts env.now, (sweepFor env.now m).out⟩).2 with
      | error => rw [hres] at hi; cases hi
      | ok id =>
        rw [hres] at hi
        exact hc (Prod.ext_iff.1 (Option.some.inj hi)).1.symm
  have hold : ∀ ref, ref ≠ m.heap.length →
      ((withRoom env.now m (newRoom appID code opts env.now)).setRoom m.heap.length r').room ref =
        (sweepFor env.now m).manager.room ref := by
    intro ref href
    rw [room_setRoom, if_neg fun h => href h.1, room_withRoom, if_neg href]
  rw [← entrant_map _ hop]
  refine ⟨?_, ?_, ?_, ?_⟩
  · rintro ⟨ref, i⟩ c hc
    have href : ref ≠ m.heap.length := fun h => hnew i c (h ▸ hc)
    have hnow : connAt ((withRoom env.now m (newRoom appID code opts env.now)).setRoom
        m.heap.length r') ⟨ref, i⟩ = connAt (sweepFor env.now m).manager ⟨ref, i⟩ := by
      simp only [connAt, hold ref href]
    have hne : c ≠ conn := fun h => hl conn hop ref i (h ▸ hc)
    rw [stream_append, hstream, hquiet c hne, List.append_nil, hnow]
    exact eviction_spell hp _ hc
  · intro c sess hj
    obtain ⟨⟨d, i⟩, hjoiner, heq⟩ := Option.map_eq_some_iff.1 hj
    cases heq
    have hnow : connAt ((withRoom env.now m (newRoom appID code opts env.now)).setRoom
        m.heap.length r') ⟨m.heap.length, i⟩ = seating r' i := by
      simp only [connAt]
      rw [room_setRoom, if_pos ⟨rfl, by omega⟩]
      rfl
    have hd : d = conn := by
      by_contra hne
      obtain ⟨msg, items, hitems, -⟩ := hplays.entered d i hjoiner
      rw [hquiet d hne] at hitems
      cases hitems
    have hnone : ¬Evicted m (sweepFor env.now m).manager d :=
      not_evicted _ fun sess => hd ▸ hl conn hop _ _
    rw [stream_append, hstream, eviction_neg hnone, List.nil_append, hnow]
    exact hplays.entered d i hjoiner
  · intro c hc hj
    rw [stream_append, hstream, eviction_neg (not_evicted _ hc), List.nil_append]
    apply hplays.absent c
    · intro i hi
      rw [hempty] at hi
      cases hi
    · intro i hi
      exact hj ⟨_, i⟩ (by rw [hi]; rfl)
  · rintro ⟨ref, i⟩ c hc hdes
    have href : ref ≠ m.heap.length := fun h => hnew i c (h ▸ hc)
    have hne : c ≠ conn := fun h => hl conn hop ref i (h ▸ hc)
    rw [hold ref href] at hdes
    rw [stream_append, hstream, hquiet c hne, List.append_nil]
    exact eviction_removed hs (sweepFor_swept env.now m) hc hdes

theorem declined_attends {m : Manager} (hs : ∀ ref, Sound (m.room ref)) {op : Op}
    (err : ProtoError) :
    Attends m (entrant op (.session (.error err))) [] m where
  held := fun _ _ _ => .nothing _ _
  entered := fun _ _ h => nomatch h
  absent := fun _ _ _ => rfl
  removed := by
    intro sess c hc hdes
    rw [(hs sess.room sess.playerID c hc).2] at hdes
    cases hdes

theorem swept_attends {m m₀ : Manager} (hp : Placed m) (hs : ∀ ref, Sound (m.room ref))
    {out : List Out} (hswept : Swept env.now m m₀ out)
    (hstream : ∀ c, stream c out = eviction (Evicted m m₀ c)) (op : Op) (err : ProtoError) :
    Attends m (entrant op (.session (.error err))) out m₀ where
  held := fun _ c hc => hstream c ▸ eviction_spell hp m₀ hc
  entered := fun _ _ h => nomatch h
  absent := fun c hc _ => by rw [hstream, eviction_neg (not_evicted m₀ hc)]
  removed := fun sess c hc hdes => by
    rw [hstream]
    exact eviction_removed hs hswept hc hdes

theorem join_attends {m : Manager} (hp : Placed m) (hs : ∀ ref, Sound (m.room ref))
    (appID code resumeToken : String) (create : Option RoomOptions) (conn : Conn)
    (hl : Loose m (.join appID code resumeToken create conn)) :
    let op := Op.join appID code resumeToken create conn
    let res := m.apply sha256 env op
    Attends m (entrant op res.reply) res.out res.manager := by
  have hcase := join_joins sha256 env m appID code resumeToken create conn
  simp only [Manager.apply]
  generalize Registry.join sha256 env appID code resumeToken create conn m = res at hcase ⊢
  cases hcase with
  | found create ref hlook =>
    obtain ⟨r', out, o, heq, hdoes, -⟩ :=
      joinRoom_does sha256 env appID code resumeToken conn ⟨m.room ref, []⟩
    have hplayed := joinRoom_played sha256 env appID code resumeToken conn ⟨m.room ref, []⟩
      (hs ref) (hp.distinct ref) (fun j => hl conn rfl ref j)
    have hattends := entering_attends hp hs hl rfl heq hdoes hplayed
    simpa only [Manager.onRoom, entered, Entered.result, heq, List.nil_append] using hattends
  | missing err hlook => exact declined_attends hs _
  | refused opts err hlook =>
    exact swept_attends hp hs (sweepFor_swept env.now m) (sweepFor_stream hp env.now) _ _
  | created opts hlook hspace =>
    have hroom : (withRoom env.now m (newRoom appID code opts env.now)).room m.heap.length =
        newRoom appID code opts env.now := by
      rw [room_withRoom, if_pos rfl]
    obtain ⟨r', out, o, heq, -, -⟩ := joinRoom_does sha256 env appID code resumeToken
      conn ⟨newRoom appID code opts env.now, (sweepFor env.now m).out⟩
    have hplayed := joinRoom_played sha256 env appID code resumeToken conn
      ⟨newRoom appID code opts env.now, (sweepFor env.now m).out⟩ (sound_newRoom _ _ _ _)
      (fun i j c hc _ => by rw [seating, slot_newRoom] at hc; cases hc)
      (fun j hj => by rw [seating, slot_newRoom] at hj; cases hj)
    have hattends := creating_attends hp hs hl rfl heq hplayed
    simpa only [Manager.onRoom, entered, Entered.result, hroom, heq] using hattends

theorem apply_attends {m : Manager} (hp : Placed m) (hs : ∀ ref, Sound (m.room ref)) (op : Op)
    (hl : Loose m op) :
    Attends m (entrant op (m.apply sha256 env op).reply) (m.apply sha256 env op).out
      (m.apply sha256 env op).manager := by
  cases op with
  | join appID code resumeToken create conn =>
    exact join_attends hp hs appID code resumeToken create conn hl
  | claim appID code playerID conn =>
    simp only [Manager.apply, Registry.claim]
    cases hlook : m.lookup code with
    | none => exact declined_attends hs _
    | some ref =>
      obtain ⟨r', out, o, heq, hdoes, -⟩ :=
        claimRoom_does sha256 env appID code playerID conn ⟨m.room ref, []⟩
      have hplayed := claimRoom_played sha256 env appID code playerID conn ⟨m.room ref, []⟩
        (hs ref) (hp.distinct ref) (fun j => hl conn rfl ref j)
      have hattends := entering_attends hp hs hl rfl heq hdoes hplayed
      simpa only [Manager.onRoom, entered, Entered.result, heq, List.nil_append] using hattends
  | signal sess conn target payload =>
    obtain ⟨r', out, o, heq, hdoes, -⟩ :=
      signal_does sha256 env sess.playerID conn target payload ⟨m.room sess.room, []⟩
    have hattends := session_attends hp hs heq hdoes
      (signal_settles env sess.playerID conn target payload _ (hp.distinct sess.room))
    simpa only [Manager.apply, entrant, Manager.onRoom, heq, List.nil_append] using hattends
  | leave sess conn =>
    obtain ⟨r', out, heq, hdoes⟩ := leave_does sha256 env sess.playerID conn ⟨m.room sess.room, []⟩
    have hattends := session_attends hp hs heq hdoes
      (leave_settles env sess.playerID conn _ (hp.distinct sess.room))
    simpa only [Manager.apply, entrant, Manager.onSession, Manager.onRoom, heq, List.nil_append]
      using hattends
  | disconnect sess conn =>
    obtain ⟨r', out, heq, hdoes⟩ :=
      disconnect_does sha256 env sess.playerID conn ⟨m.room sess.room, []⟩
    have hattends := session_attends hp hs heq hdoes
      (disconnect_settles env sess.playerID conn _ (hp.distinct sess.room))
    simpa only [Manager.apply, entrant, Manager.onSession, Manager.onRoom, heq, List.nil_append]
      using hattends
  | touch sess conn =>
    obtain ⟨r', heq, hdoes⟩ := touch_does sha256 env sess.playerID conn ⟨m.room sess.room, []⟩
    have hattends := session_attends hp hs heq hdoes (touch_settles env sess.playerID conn _)
    simpa only [Manager.apply, entrant, Manager.onSession, Manager.onRoom, heq] using hattends
  | gc => exact gc_attends hp hs env

variable {cfg : Config} {limits : Limits}

/-- What the lobby has transport `c` hear; the answers of its own handler are not part of it. -/
def events (c : Conn) (ls : List Label) : List Item :=
  ls.flatMap fun l => if l.op.isSome then stream c l.out else []

@[simp] theorem events_nil (c : Conn) : events c [] = [] := rfl

@[simp] theorem events_append (c : Conn) (a b : List Label) :
    events c (a ++ b) = events c a ++ events c b := List.flatMap_append

/-- The step gives transport `c` the slot of `sess`. -/
def Enters (l : Label) (c : Conn) (sess : Session) : Prop :=
  l.op.bind opJoining = some c ∧ l.reply = .session (.ok sess)

structure Occurs (s t : State) (l : Label) (c : Conn) : Prop where
  held : ∀ ref i, Attached s ref i c → Spell i (Attached t ref i c) (events c [l])
  entered : ∀ ref i, Enters l c ⟨ref, i⟩ → (∀ ref' i', ¬Attached s ref' i' c) ∧
    ∃ msg items, events c [l] = .offered (.joined msg) :: items ∧ msg.selfID = i ∧
      Spell i (Attached t ref i c) items
  absent : (∀ ref i, ¬Attached s ref i c) → (∀ sess, ¬Enters l c sess) → events c [l] = []
  stayed : ∀ ref i, Attached t ref i c → Attached s ref i c ∨ Enters l c ⟨ref, i⟩
  removed : ∀ ref i, Attached s ref i c → (t.manager.room ref).destroyed = true →
    events c [l] = [.kicked .roomExpired]

theorem step_occurs {s t : State} {l : Label} (hs : Disciplined s)
    (hstep : (server cfg sha256 limits).step s l t) (c : Conn) : Occurs s t l c := by
  cases step_acts hs hstep with
  | idle ht hop _ _ =>
    have hevents : events c [l] = [] := by simp [events, hop]
    refine ⟨fun ref i _ => ?_, fun ref i h => ?_, fun _ _ => hevents, fun ref i h => ?_,
      fun ref i h hdes => ?_⟩
    · rw [hevents]
      exact .nothing _ _
    · rw [Enters, hop] at h
      cases h.1
    · exact .inl (by rwa [Attached, ht] at h)
    · rw [ht, (hs.sound ref i c h).2] at hdes
      cases hdes
  | calls op hop hl _ ht hout hreply =>
    have hevents : events c [l] = stream c (s.manager.apply sha256 l.env op).out := by
      simp [events, hop, hout]
    have hattends : Attends s.manager (entrant op (s.manager.apply sha256 l.env op).reply)
        (s.manager.apply sha256 l.env op).out (s.manager.apply sha256 l.env op).manager :=
      apply_attends (Disciplined.placed hs) hs.sound op hl
    have hat : ∀ ref i, Attached t ref i c ↔
        connAt (s.manager.apply sha256 l.env op).manager ⟨ref, i⟩ = some c := by
      intro ref i
      rw [Attached, ht]
      rfl
    have henters : ∀ sess, Enters l c sess ↔
        entrant op (s.manager.apply sha256 l.env op).reply = some (c, sess) := by
      intro sess
      rw [Enters, hop, hreply, Option.bind_some, entrant.eq_def]
      constructor
      · rintro ⟨hjoin, heq⟩
        simp only [heq, hjoin, Option.map_some]
      · intro h
        split at h
        · rename_i sess' heq
          obtain ⟨d, hd, hpair⟩ := Option.map_eq_some_iff.1 h
          cases hpair
          exact ⟨hd, heq⟩
        · cases h
    refine ⟨fun ref i h => ?_, fun ref i h => ⟨fun ref' i' => ?_, ?_⟩, fun h hno => ?_,
      fun ref i h => ?_, fun ref i h hdes => ?_⟩
    · rw [hevents, hat]
      exact hattends.held ⟨ref, i⟩ c h
    · have hjoin : opJoining op = some c := by simpa [Enters, hop] using h.1
      exact hl c hjoin ref' i'
    · rw [hevents, hat]
      exact hattends.entered c ⟨ref, i⟩ ((henters _).1 h)
    · rw [hevents]
      exact hattends.absent c (fun sess => h sess.room sess.playerID) fun sess hsess =>
        hno sess ((henters sess).2 hsess)
    · rcases roomStep_conn (apply_room sha256 l.env s.manager op ref) ((hat ref i).1 h)
        with hold | ⟨hjoin, heq⟩
      · exact .inl hold
      · exact .inr ⟨by rw [hop]; exact hjoin, hreply.trans heq⟩
    · rw [hevents]
      exact hattends.removed ⟨ref, i⟩ c h (ht ▸ hdes)

theorem disciplined_steps {s t : State} {ls : List Label} (hs : Disciplined s)
    (steps : Steps (server cfg sha256 limits) s ls t) : Disciplined t :=
  steps.invariant Disciplined (fun _ _ _ h hstep => disciplined_step h hstep) hs

theorem detached_silent {s t : State} {ls : List Label} (hs : Disciplined s) {c : Conn}
    (hc : ∀ ref i, ¬Attached s ref i c) (steps : Steps (server cfg sha256 limits) s ls t)
    (hno : ∀ l ∈ ls, ∀ sess, ¬Enters l c sess) :
    events c ls = [] ∧ ∀ ref i, ¬Attached t ref i c := by
  induction steps with
  | refl => exact ⟨rfl, hc⟩
  | @snoc ls t u l steps hstep ih =>
    obtain ⟨hevents, hnone⟩ := ih fun m hm => hno m (List.mem_append_left _ hm)
    have hoccurs := step_occurs (disciplined_steps hs steps) hstep c
    have hl := hno l (List.mem_append_right _ List.mem_cons_self)
    refine ⟨?_, fun ref i h => ?_⟩
    · rw [events_append, hevents, hoccurs.absent hnone hl, List.nil_append]
    · rcases hoccurs.stayed ref i h with h | h
      · exact hnone ref i h
      · exact hl _ h

/-- The stream of an attachment, from the step that makes it on. -/
theorem attachment_stream {s t u : State} {l : Label} {ls : List Label} (hs : Disciplined s)
    (hstep : (server cfg sha256 limits).step s l t) {c : Conn} {ref i : Nat}
    (hl : Enters l c ⟨ref, i⟩) (steps : Steps (server cfg sha256 limits) t ls u)
    (hno : ∀ m ∈ ls, ∀ sess, ¬Enters m c sess) :
    (∃ msg items, events c (l :: ls) = .offered (.joined msg) :: items ∧ msg.selfID = i ∧
      Spell i (Attached u ref i c) items) ∧
    ∀ ref' i', Attached u ref' i' c → ref' = ref ∧ i' = i := by
  have ht := disciplined_step hs hstep
  have hfirst := step_occurs hs hstep c
  obtain ⟨hnone, msg, items, hitems, hmsg, hspell⟩ := hfirst.entered ref i hl
  induction steps with
  | refl =>
    refine ⟨⟨msg, items, hitems, hmsg, hspell⟩, fun ref' i' h => ?_⟩
    rcases hfirst.stayed ref' i' h with h | h
    · exact absurd h (hnone ref' i')
    · cases h.2.symm.trans hl.2
      exact ⟨rfl, rfl⟩
  | @snoc ls u v m steps hm ih =>
    obtain ⟨⟨msg', items', hitems', hmsg', hspell'⟩, honly⟩ := ih fun m hm =>
      hno m (List.mem_append_left _ hm)
    have hoccurs := step_occurs (disciplined_steps ht steps) hm c
    have hlast := hno m (List.mem_append_right _ List.mem_cons_self)
    have hback : ∀ ref' i', Attached v ref' i' c → Attached u ref' i' c := fun ref' i' h =>
      (hoccurs.stayed ref' i' h).resolve_right (hlast _)
    refine ⟨⟨msg', items' ++ events c [m], ?_, hmsg', ?_⟩, fun ref' i' h =>
      honly ref' i' (hback ref' i' h)⟩
    · rw [← List.cons_append, events_append, hitems', List.cons_append]
    · by_cases hstill : Attached u ref i c
      · exact hspell'.append hstill (hoccurs.held ref i hstill)
      · have hgone : ∀ ref' i', ¬Attached u ref' i' c := by
          intro ref' i' h
          obtain ⟨rfl, rfl⟩ := honly ref' i' h
          exact hstill h
        rw [hoccurs.absent hgone hlast, List.append_nil]
        exact hspell'.weaken (hback ref i)

/-- Whoever is attached has entered, and not entered anything since. -/
theorem attached_entered {ls : List Label} {s : State} (run : Run (server cfg sha256 limits) ls s)
    {c : Conn} {ref i : Nat} (hc : Attached s ref i c) :
    ∃ before l after, ls = before ++ l :: after ∧ Enters l c ⟨ref, i⟩ ∧
      ∀ m ∈ after, ∀ sess, ¬Enters m c sess := by
  induction run with
  | init h =>
    subst h
    rw [Attached, room_of_ge _ (Nat.zero_le ref), slot_absent] at hc
    cases hc
  | @step ls s t l run hstep ih =>
    have hoccurs := step_occurs (disciplined_run run) hstep c
    rcases hoccurs.stayed ref i hc with hold | hl
    · obtain ⟨before, l', after, rfl, hl', hno⟩ := ih hold
      refine ⟨before, l', after ++ [l], by simp, hl', fun m hm sess hsess => ?_⟩
      rcases List.mem_append.1 hm with hm | hm
      · exact hno m hm sess hsess
      · obtain rfl := List.mem_singleton.1 hm
        exact (hoccurs.entered sess.room sess.playerID hsess).1 ref i hold
    · exact ⟨ls, l, [], by simp, hl, by simp⟩

/-- The lobby's event stream on every transport, cut at the steps that attach it: a joined
message for its own slot, then notices of the other slots, then at most the kick that
detaches it, and nothing while it is detached. -/
theorem event_stream (cfg : Config) (sha256 : String → TokenHash) (limits : Limits)
    (ls : List Label) (s : State) (run : Run (server cfg sha256 limits) ls s) (c : Conn) :
    (∀ before l after ref i, ls = before ++ l :: after → Enters l c ⟨ref, i⟩ →
      (∀ m ∈ after, ∀ sess, ¬Enters m c sess) →
      ∃ (msg : Joined) (notices : List Msg) (kick : Option ErrCode),
        events c (l :: after) = .offered (.joined msg) :: notices.map .offered ++
          kick.toList.map .kicked ∧
        msg.selfID = i ∧ (∀ m ∈ notices, Notice i m) ∧ (Attached s ref i c → kick = none)) ∧
    (∀ before after t, ls = before ++ after → Run (server cfg sha256 limits) before t →
      Steps (server cfg sha256 limits) t after s → (∀ ref i, ¬Attached t ref i c) →
      (∀ m ∈ after, ∀ sess, ¬Enters m c sess) → events c after = []) ∧
    ∀ ref i, Attached s ref i c → ∃ before l after, ls = before ++ l :: after ∧
      Enters l c ⟨ref, i⟩ ∧ ∀ m ∈ after, ∀ sess, ¬Enters m c sess := by
  refine ⟨?_, ?_, fun ref i h => attached_entered run h⟩
  · intro before l after ref i hsplit hl hno
    obtain ⟨t, u, hbefore, hstep, hafter⟩ := run.split hsplit
    obtain ⟨⟨msg, items, hitems, hmsg, notices, kick, rfl, hnotices, hkick⟩, -⟩ :=
      attachment_stream (disciplined_run hbefore) hstep hl hafter hno
    exact ⟨msg, notices, kick, hitems, hmsg, hnotices, hkick⟩
  · intro before after t _ hbefore hafter hnone hno
    exact (detached_silent (disciplined_run hbefore) hnone hafter hno).1

/-- The socket that resumed the slot is still in it. -/
theorem event_stream_resume : ∃ ls s before l after,
    Run (server nativeOnly codePoints smallLimits) ls s ∧ ls = before ++ l :: after ∧
      Enters l 1 ⟨0, 0⟩ ∧ ∃ (msg : Joined) (notices : List Msg),
        events 1 (l :: after) = .offered (.joined msg) :: notices.map .offered ∧
        msg.selfID = 0 ∧ ∀ m ∈ notices, Notice 0 m := by
  obtain ⟨s, ls, hexec, hconn⟩ : ∃ s ls,
      exec nativeOnly codePoints resumeEvents ⟨newManager smallLimits, []⟩ = some (s, ls) ∧
        Attached s 0 0 1 := ⟨_, _, rfl, rfl⟩
  have run := exec_run hexec
  obtain ⟨hstream, -, hattached⟩ := event_stream _ _ _ ls s run 1
  obtain ⟨before, l, after, hsplit, hl, hno⟩ := hattached 0 0 hconn
  obtain ⟨msg, notices, kick, hevents, hmsg, hnotices, hkick⟩ :=
    hstream before l after 0 0 hsplit hl hno
  refine ⟨ls, s, before, l, after, run, hsplit, hl, msg, notices, ?_, hmsg, hnotices⟩
  rw [hevents, hkick hconn]
  simp

end Lobbylink.Server.Attachments
