import Lobbylink.Server.Started
import Lobbylink.System.Agreement
import Lobbylink.System.Tellings
import Lobbylink.Ts.Telling

/-! What a client knows of its room. Whatever else happens to it in between, a client that has
taken the messages of its transport knows the seats of its room and whether it has started. -/
namespace Lobbylink.System.Rooms
open Server.Protocol Server.Lobby Server.Registry Server.Policy Server.Fanout Server.Operations
  Server.Effects Server.Slots Server.Announcements Server.Websocket Server.Sessions Server.Audience
open Client.Protocol (JoinedMsg SignalPayload WirePlayer ServerMessage decode wirePlayer)
open Client.Roster Client.Story Lib.Runs
open Agreement (Agrees Strands view)

variable {R Sdp : Type}

structure Knowledge where
  selfId : Nat
  maxPlayers : Nat
  roster : List Client.Roster.PlayerInfo
  started : Bool

def known (s : Session R) : Knowledge := ⟨s.selfId, s.maxPlayers, s.roster, s.started⟩

def isStart : ServerMessage Sdp → Bool
  | .roomStarted => true
  | _ => false

def Knowledge.learn (k : Knowledge) (msg : ServerMessage Sdp) : Knowledge :=
  { k with
    roster := updateRoster k.maxPlayers k.roster msg
    started := k.started || isStart msg }

def heard : Happening Sdp → Option (ServerMessage Sdp)
  | .message msg _ => some msg
  | _ => none

theorem known_forget (s : Session R) : known s.forget = known s := by
  unfold Session.forget
  split_ifs <;> rfl

theorem known_meet (reader : Reader R) (s : Session R) (p : Nat) (made : Bool) :
    known (s.meet reader p made) = known s := by
  simp only [Session.meet]
  split_ifs <;> rfl

theorem known_refuse (s : Session R) (code message : String) :
    known (s.refuse code message) = known s := by
  simp only [Session.refuse]
  split_ifs
  · rfl
  · exact known_forget _
  · rfl
  · rfl

theorem known_hear (reader : Reader R) (s : Session R) (msg : ServerMessage Sdp)
    (makes : Nat → Bool) : known (s.hear reader msg makes) = (known s).learn msg := by
  have hplain (h : isStart msg = false) : (known s).learn msg =
      { known s with roster := updateRoster s.maxPlayers s.roster msg } := by
    simp [Knowledge.learn, h, known]
  cases msg with
  | playerJoined p players =>
    rw [hplain rfl]
    exact known_meet reader _ p _
  | playerRejoined p | playerReplaced p =>
    rw [hplain rfl]
    exact known_meet reader _ p _
  | playerLeft p reason =>
    rw [hplain rfl]
    simp only [Session.hear]
    split_ifs <;> rfl
  | roomStarted => simp [Session.hear, Session.tell, known, Knowledge.learn, isStart]
  | signal source payload =>
    rw [hplain rfl]
    cases payload with
    | offer sdp =>
      simp only [Session.hear]
      split_ifs <;> rfl
    | answer | ice | unknown => rfl
  | error code message =>
    rw [hplain rfl]
    exact known_refuse _ code message
  | joined | unknown => exact (hplain rfl).symm

theorem known_begin (reader : Reader R) (s : Session R) (makes : Nat → Bool) :
    known (s.begin reader makes) = known s := by
  unfold Session.begin
  generalize s.targets = targets
  induction targets generalizing s with
  | nil => rfl
  | cons p rest ih => exact ih _

theorem known_take (reader : Reader R) (s : Session R) (happening : Happening Sdp)
    (hopen : (s.take reader happening).closed = false) : s.closed = false ∧
      known (s.take reader happening) = (heard happening).elim (known s) (known s).learn := by
  unfold Session.take at hopen ⊢
  by_cases hclosed : s.closed = true
  · rw [if_pos hclosed] at hopen
    exact absurd (hclosed.symm.trans hopen) (by decide)
  rw [if_neg hclosed] at hopen ⊢
  refine ⟨by simpa using hclosed, ?_⟩
  cases happening with
  | begun makes => exact known_begin reader s makes
  | message msg makes => exact known_hear reader s msg makes
  | lost =>
    simp only [heard]
    split_ifs <;> rfl
  | state p number state =>
    simp only [heard, Session.report]
    split
    · rfl
    · cases state with
      | failed =>
        simp only [Session.fail]
        split_ifs <;> rfl
      | new | connecting | connected | disconnected | closed => rfl
  | frame p number data now =>
    simp only [heard, Session.receive]
    split
    · rfl
    · split <;> rfl
  | datagram | pair =>
    simp only [heard]
    split_ifs <;> rfl
  | retry p number failed makes =>
    simp only [heard, Session.retry]
    split_ifs <;> rfl
  | leave =>
    have hleft : s.leave.closed = true := closed_leave s
    exact absurd (hleft.symm.trans hopen) (by decide)

theorem known_run (reader : Reader R) (s : Session R) (happenings : List (Happening Sdp))
    (hopen : (s.run reader happenings).closed = false) : s.closed = false ∧
      known (s.run reader happenings) = (happenings.filterMap heard).foldl .learn (known s) := by
  induction happenings generalizing s with
  | nil => exact ⟨hopen, rfl⟩
  | cons happening rest ih =>
    obtain ⟨htaken, hrest⟩ := ih (s.take reader happening) hopen
    obtain ⟨hbefore, hknown⟩ := known_take reader s happening htaken
    refine ⟨hbefore, hrest.trans ?_⟩
    rw [hknown, List.filterMap_cons]
    cases heard happening <;> rfl

theorem learn_all (k : Knowledge) (msgs : List (ServerMessage Sdp)) :
    msgs.foldl .learn k = { k with
      roster := msgs.foldl (updateRoster k.maxPlayers) k.roster
      started := k.started || msgs.any isStart } := by
  induction msgs generalizing k with
  | nil => simp
  | cons msg rest ih =>
    rw [List.foldl_cons, ih]
    simp [Knowledge.learn, Bool.or_assoc]

variable (payloadOf : String → Option (SignalPayload Sdp))

/-- The messages of `msgs` that a client can read. -/
def readable (msgs : List Msg) : List (ServerMessage Sdp) := msgs.filterMap (decode payloadOf)

theorem any_readable (msgs : List Msg) :
    (readable payloadOf msgs).any isStart = true ↔ .roomStarted ∈ msgs := by
  unfold readable
  rw [List.any_filterMap, List.any_eq_true]
  constructor
  · rintro ⟨m, hm, hstart⟩
    cases m with
    | roomStarted => exact hm
    | signal source payload =>
      cases hp : payloadOf payload with
      | none => simp [decode, hp] at hstart
      | some p => simp [decode, hp, isStart] at hstart
    | _ => simp [decode, isStart] at hstart
  · exact fun hm => ⟨_, hm, rfl⟩

def Listed (maxPlayers : Nat) : Msg → Prop
  | .joined msg => msg.players.map (·.id) = List.range maxPlayers
  | .playerJoined _ players => players.map (·.id) = List.range maxPlayers
  | _ => True

theorem listed_snapshot (q : Room) (now : Time) :
    (q.snapshot now).map (·.id) = List.range q.slots.length := by
  apply List.ext_getElem
  · simp [Room.snapshot]
  · simp [Room.snapshot]

theorem listed_left (n : Nat) (ids : List Nat) : ∀ m ∈ ids.map leftMsg, Listed n m := by
  intro m hm
  obtain ⟨id, -, rfl⟩ := List.mem_map.1 hm
  trivial

theorem listed_errors (n : Nat) {msgs : List Msg} (h : ∀ m ∈ msgs, IsError m) :
    ∀ m ∈ msgs, Listed n m := by
  intro m hm
  obtain ⟨err, rfl⟩ := h m hm
  trivial

theorem listed_announced {lost : Nat → Prop} {r r' : Room} {msgs : List Msg}
    (h : Announced lost r r' msgs) : ∀ m ∈ msgs, Listed r.slots.length m := by
  intro m hm
  cases h with
  | dropped own ids hown =>
    rcases List.mem_append.1 hm with hm | hm
    · obtain ⟨source, payload, rfl⟩ := hown m hm
      trivial
    · exact listed_left _ ids m hm
  | left i ids =>
    rcases List.mem_cons.1 hm with rfl | hm
    · trivial
    · exact listed_left _ ids m hm
  | handed id ok ids msg hmsg =>
    rcases List.mem_cons.1 hm with rfl | hm
    · rcases hmsg with rfl | rfl <;> trivial
    · exact listed_left _ ids m hm
  | joined id q now startedNow d₁ d₂ hq =>
    simp only [news, List.cons_append, List.mem_cons, List.mem_append] at hm
    rcases hm with rfl | hm | hm
    · exact hq ▸ listed_snapshot q now
    · exact listed_left _ d₁ m hm
    · cases startedNow
      · cases hm
      · rcases List.mem_cons.1 hm with rfl | hm
        · trivial
        · exact listed_left _ d₂ m hm

/-- The transport of slot `i` knows its slot and all the others. -/
structure Oriented (history : List Msg) (r : Room) (i : Nat) (msg : Joined) (after : List Msg) :
    Prop where
  since : SinceJoined history msg after
  self : msg.selfID = i
  size : msg.maxPlayers = r.slots.length
  first : Listed r.slots.length (.joined msg)
  listed : ∀ m ∈ after, Listed r.slots.length m

theorem Oriented.append {history : List Msg} {r r' : Room} {i : Nat} {msg : Joined}
    {after msgs : List Msg} (h : Oriented history r i msg after)
    (hsize : r'.slots.length = r.slots.length) (hno : ∀ m, .joined m ∉ msgs)
    (hmsgs : ∀ m ∈ msgs, Listed r.slots.length m) :
    Oriented (history ++ msgs) r' i msg (after ++ msgs) := by
  refine ⟨h.since.append hno, h.self, h.size.trans hsize.symm, ?_, ?_⟩
  · rw [hsize]
    exact h.first
  · rw [hsize]
    exact fun m hm => (List.mem_append.1 hm).elim (h.listed m) (hmsgs m)

theorem oriented_step {history : List Msg} {s t : State} {l : Label} {ref i : Nat} {c : Conn}
    (h : Heard s t l ref i c)
    (hold : Attached s ref i c → ∃ msg after, Oriented history (s.manager.room ref) i msg after) :
    ∃ msg after, Oriented (history ++ accepted c l.out) (t.manager.room ref) i msg after := by
  cases h with
  | nothing heq hatt herr =>
    obtain ⟨msg, after, horiented⟩ := hold hatt
    exact ⟨msg, _, horiented.append (by rw [heq]) (no_joined_errors herr) (listed_errors _ herr)⟩
  | kept hatt _ hlen hann =>
    obtain ⟨msg, after, horiented⟩ := hold hatt
    exact ⟨msg, _, horiented.append hlen (no_joined_announced hann) (listed_announced hann)⟩
  | greeted _ hgreet =>
    generalize accepted c l.out = msgs at hgreet
    cases hgreet with
    | joined q token now ids hmax hlen =>
      exact ⟨_, _, sinceJoined_new history _ (no_joined_left ids), rfl, hmax,
        hlen ▸ listed_snapshot q now, listed_left _ ids⟩

variable {cfg : Config} {sha256 : String → TokenHash} {limits : Limits}

theorem oriented_run {ls : List Label} {s : State} (run : Run (server cfg sha256 limits) ls s) :
    ∀ ref i c, Attached s ref i c →
      ∃ msg after, Oriented (accepted c (calls ls)) (s.manager.room ref) i msg after := by
  refine run.history (fun ls s => ∀ ref i c, Attached s ref i c → ∃ msg after,
    Oriented (accepted c (calls ls)) (s.manager.room ref) i msg after) ?_ ?_
  · rintro s rfl ref i c hc
    unfold Attached at hc
    rw [room_of_ge _ (Nat.zero_le ref), slot_absent] at hc
    cases hc
  · intro ls s l t run hinv hstep ref i c hc
    rw [calls_append, calls_singleton, accepted_append]
    exact oriented_step (step_heard (disciplined_run run) hstep hc) (hinv ref i c)

def joinedMsg (msg : Joined) : JoinedMsg :=
  ⟨msg.code, msg.selfID, msg.maxPlayers, msg.started, msg.resumeToken, msg.players.map wirePlayer⟩

theorem full_players {n : Nat} {players : List Server.Protocol.PlayerInfo}
    (h : players.map (·.id) = List.range n) : Ts.Telling.Full n (players.map wirePlayer) := by
  unfold Ts.Telling.Full
  rw [List.map_map]
  exact h

theorem full_readable {n : Nat} {msgs : List Msg} (h : ∀ m ∈ msgs, Listed n m) :
    ∀ msg ∈ readable payloadOf msgs, Ts.Telling.FullMessage n msg := by
  intro msg hmsg
  obtain ⟨m, hm, hdecode⟩ := List.mem_filterMap.1 hmsg
  have hlisted := h m hm
  cases m with
  | playerJoined id players =>
    obtain rfl := Option.some.inj hdecode
    exact full_players hlisted
  | signal source payload =>
    obtain ⟨p, -, rfl⟩ := Option.map_eq_some_iff.1 hdecode
    trivial
  | _ =>
    obtain rfl := Option.some.inj hdecode
    trivial

/-- What a client knows after the joined message `msg` and what followed. -/
def learned (msg : Joined) (after : List Msg) : Knowledge :=
  (readable payloadOf after).foldl .learn ⟨msg.selfID, msg.maxPlayers,
    rosterFromSnapshot msg.maxPlayers (msg.players.map wirePlayer), msg.started⟩

theorem learned_eq (msg : Joined) (after : List Msg) : learned payloadOf msg after =
    ⟨msg.selfID, msg.maxPlayers, view payloadOf msg after,
      msg.started || (readable payloadOf after).any isStart⟩ := learn_all _ _

theorem ids_view (msg : Joined) (after : List Msg) :
    (view payloadOf msg after).map (·.id) = List.range msg.maxPlayers :=
  List.foldlRecOn (motive := fun roster => roster.map (·.id) = List.range msg.maxPlayers) _ _
    (ids_rosterFromSnapshot ..) fun roster h m _ => ids_updateRoster _ roster m h

/-- The slots of a room: who is there, and who is connected. -/
def seats (r : Room) : List (Int × Bool × Bool) :=
  r.slots.mapIdx fun j t => (j, t.occupied, t.conn.isSome)

def entries (roster : List Client.Roster.PlayerInfo) : List (Int × Bool × Bool) :=
  roster.map fun p => (p.id, p.occupied, p.connected)

theorem entries_eq {roster : List Client.Roster.PlayerInfo} {r : Room} (h : Agrees roster r)
    (hids : roster.map (·.id) = List.range r.slots.length) : entries roster = seats r := by
  have hvector := h.vector
  apply List.ext_getElem
  · simpa [entries, seats] using h.length
  intro j hj hj'
  have hlt : j < roster.length := by simpa [entries] using hj
  have hslot : j < r.slots.length := by simpa [seats] using hj'
  have hid : roster[j].id = j := by
    have hget := congrArg (fun ids => ids[j]?) hids
    simpa [hlt, hslot] using hget
  have hmark : (roster[j].occupied, roster[j].connected) =
      (r.slots[j].occupied, r.slots[j].conn.isSome) := by
    have hget := congrArg (fun marks => marks[j]?) hvector
    simpa [hlt, hslot] using hget
  simp only [entries, seats, List.getElem_map, List.getElem_mapIdx, hid]
  exact congrArg (Prod.mk (j : Int)) hmark

/-- A client knows its slot, the seats of its room, and whether the room has started. -/
structure Knows (r : Room) (i : Nat) (selfId maxPlayers : Int) (roster : List (Int × Bool × Bool))
    (started : Bool) : Prop where
  self : selfId = i
  size : maxPlayers = r.slots.length
  seats : roster = seats r
  started : started = r.started

theorem knows_of_learned {history : List Msg} {r : Room} {i : Nat} {msg : Joined}
    {after : List Msg} (h : Oriented history r i msg after) (hagree : Agrees (view payloadOf msg after) r)
    (hstarted : r.started = true ↔ msg.started = true ∨ .roomStarted ∈ after) {s : Session R}
    (hknown : known s = learned payloadOf msg after) :
    Knows r i s.selfId s.maxPlayers (entries s.roster) s.started := by
  rw [learned_eq] at hknown
  refine ⟨?_, ?_, ?_, ?_⟩
  · exact congrArg Nat.cast ((congrArg Knowledge.selfId hknown).trans h.self)
  · exact congrArg Nat.cast ((congrArg Knowledge.maxPlayers hknown).trans h.size)
  · have hroster : s.roster = view payloadOf msg after := congrArg Knowledge.roster hknown
    rw [hroster]
    refine entries_eq hagree ?_
    rw [ids_view, h.size]
  · have hflag : s.started = _ := congrArg Knowledge.started hknown
    rw [hflag, Bool.eq_iff_iff, Bool.or_eq_true, any_readable]
    exact hstarted.symm

/-- A client of the story that is still there has learned what it heard. -/
theorem learned_run (reader : Reader R) {msg : Joined} {after : List Msg} {keeps : Bool}
    {happenings : List (Happening Sdp)} (hheard : happenings.filterMap heard = readable payloadOf after)
    (hopen : ((Session.new (joinedMsg msg) keeps).run reader happenings).closed = false) :
    known ((Session.new (joinedMsg msg) keeps).run reader happenings) =
      learned payloadOf msg after := by
  rw [(known_run reader _ happenings hopen).2, hheard]
  rfl

open Client.Native (Rtc Input Actor)
open Tellings (rustAfter rustHappenings)
open Java.Json (Value JString)
open Java.Messages (JavaNumbers)

/-- Rust clients that joined by `msg`, took `after`, and were not closed. -/
def RustKnows (payloadOf : String → Option (SignalPayload String)) (r : Room) (i : Nat)
    (msg : Joined) (after : List Msg) : Prop :=
  ∀ (rtc : Rtc String) (path : Option String) (inputs : List (Rtc String × Input String)),
    (rustHappenings rtc inputs).filterMap heard = readable payloadOf after →
    ∀ a : Actor String, a = (rustAfter rtc path (joinedMsg msg) inputs).actor → a.closed = false →
      Knows r i a.selfId a.maxPlayers (entries a.roster) a.started

/-- Java clients that joined by `msg`, took `after`, and were not closed. -/
def JavaKnows {D : Type} (lib : JavaNumbers D) (raw : Value D → String)
    (payloadOf : String → Option (SignalPayload String)) (r : Room) (i : Nat) (msg : Joined)
    (after : List Msg) : Prop :=
  ∀ (m : Java.Messages.Members D) (path : Option JString) (ls : List (Java.Tasks.Label D))
    (σ : Java.Tasks.State D), Wire.joined m = some (joinedMsg msg) →
    Run (Java.Tasks.system lib path (Java.Tasks.Joined.read lib m)) ls σ →
    (∀ l ∈ ls, Java.Telling.ReadableStep lib raw l) →
    (ls.filterMap (Java.Telling.told lib raw)).filterMap heard = readable payloadOf after →
    σ.actor.closed = false → Knows r i σ.actor.selfId σ.actor.maxPlayers
      (σ.actor.roster.map fun p => (p.id, p.occupied, p.connected)) σ.actor.startedFlag

/-- Browser clients that joined by `msg`, took `after`, and were not closed. -/
def BrowserKnows (payloadOf : String → Option (SignalPayload String)) (r : Room) (i : Nat)
    (msg : Joined) (after : List Msg) : Prop :=
  ∀ (env : Ts.Game.Env) (storage : Option (Option String)) (ls : List (Ts.Game.Label String))
    (g : Ts.Game.P2PGame String), Run (Ts.Game.system env storage (joinedMsg msg)) ls g →
    (ls.filterMap Ts.Telling.told).filterMap heard = readable payloadOf after →
    g.closedFlag = false → Knows r i g.selfId g.maxPlayers (entries g.roster) g.startedFlag

section Clients
variable {payloadOf : String → Option (SignalPayload String)} {r : Room} {i : Nat} {msg : Joined}
  {after : List Msg} {history : List Msg}

theorem rust_knows (h : Oriented history r i msg after) (hagree : Agrees (view payloadOf msg after) r)
    (hstarted : r.started = true ↔ msg.started = true ∨ .roomStarted ∈ after) :
    RustKnows payloadOf r i msg after := by
  intro rtc path inputs hheard a ha hopen
  have hstory := Tellings.story_rustAfter rtc path (joinedMsg msg) inputs
  rw [← ha] at hstory
  have hstill : (Client.Telling.story a).closed = false := hopen
  rw [hstory] at hstill
  have hknown := learned_run payloadOf Client.Telling.reader hheard hstill
  rw [← hstory] at hknown
  exact knows_of_learned payloadOf h hagree hstarted hknown

theorem java_knows {D : Type} (lib : JavaNumbers D) (raw : Value D → String)
    (h : Oriented history r i msg after) (hagree : Agrees (view payloadOf msg after) r)
    (hstarted : r.started = true ↔ msg.started = true ∨ .roomStarted ∈ after) :
    JavaKnows lib raw payloadOf r i msg after := by
  intro m path ls σ hjoined run hread hheard hopen
  obtain ⟨first, rfl, steps⟩ := run.steps
  have hshows := (Java.Telling.shows_new lib hjoined path).steps lib steps hread
  have hstill := hshows.closed.symm.trans hopen
  have hknows := knows_of_learned payloadOf h hagree hstarted
    (learned_run payloadOf Java.Telling.reader hheard hstill)
  have hview := hshows.view
  have hself : σ.actor.selfId = _ := congrArg Java.Telling.View.selfId hview
  have hsize : σ.actor.maxPlayers = _ := congrArg Java.Telling.View.maxPlayers hview
  have hroster : σ.actor.roster = _ := congrArg Java.Telling.View.roster hview
  have hflag : σ.actor.startedFlag = _ := congrArg Java.Telling.View.started hview
  refine ⟨hself.trans hknows.self, hsize.trans hknows.size, ?_, hflag.trans hknows.started⟩
  rw [← hknows.seats, hroster]
  simp only [Java.Telling.written, entries, List.map_map]
  rfl

theorem browser_knows (h : Oriented history r i msg after)
    (hagree : Agrees (view payloadOf msg after) r)
    (hstarted : r.started = true ↔ msg.started = true ∨ .roomStarted ∈ after) :
    BrowserKnows payloadOf r i msg after := by
  intro env storage ls g run hheard hopen
  have hfirst : Ts.Telling.Full (joinedMsg msg).maxPlayers (joinedMsg msg).players := by
    have hsize : (joinedMsg msg).maxPlayers = r.slots.length := h.size
    rw [hsize]
    exact full_players h.first
  have hfull : ∀ l ∈ ls, Ts.Telling.FullStep (joinedMsg msg).maxPlayers l := by
    intro l hl
    cases l with
    | message env m =>
      have hmem : m ∈ (ls.filterMap Ts.Telling.told).filterMap heard :=
        List.mem_filterMap.2 ⟨_, List.mem_filterMap.2 ⟨_, hl, rfl⟩, rfl⟩
      rw [hheard] at hmem
      have hlisted := full_readable payloadOf h.listed m hmem
      rw [← h.size] at hlisted
      exact hlisted
    | _ => trivial
  have hstory := (Ts.Telling.shows_run hfirst run hfull).story
  have hstill : (Ts.Telling.story g).closed = false := hopen
  rw [hstory] at hstill
  have hknown := learned_run payloadOf Ts.Telling.reader (by exact hheard) hstill
  rw [← hstory] at hknown
  exact knows_of_learned payloadOf h hagree hstarted hknown

end Clients

/-- In a run without a stranding step every client of an attached transport knows its room. -/
theorem clients_know {D : Type} (lib : JavaNumbers D) (raw : Value D → String)
    (payloadOf : String → Option (SignalPayload String)) {ls : List Label} {s : State}
    (run : Run ((server cfg sha256 limits).restrict fun s l => ¬Strands s l) ls s)
    {ref i : Nat} {c : Conn} (hc : Attached s ref i c) :
    ∃ msg after, SinceJoined (accepted c (calls ls)) msg after ∧
      RustKnows payloadOf (s.manager.room ref) i msg after ∧
      JavaKnows lib raw payloadOf (s.manager.room ref) i msg after ∧
      BrowserKnows payloadOf (s.manager.room ref) i msg after := by
  obtain ⟨msg, after, horiented⟩ := oriented_run run.unrestrict ref i c hc
  have hinstep : Agreement.InStep payloadOf (accepted c (calls ls)) (s.manager.room ref) :=
    Agreement.inStep_run run ref i c hc
  obtain ⟨msg', after', hsince', -, hagree⟩ := hinstep
  obtain ⟨rfl, rfl⟩ := sinceJoined_unique horiented.since hsince'
  obtain ⟨msg', after', hsince', hcount⟩ := Server.Started.informed_run run.unrestrict ref i c hc
  obtain ⟨rfl, rfl⟩ := sinceJoined_unique horiented.since hsince'
  have hstarted := (Server.Started.told_once hcount).1
  rw [List.one_le_count_iff] at hstarted
  exact ⟨msg, after, horiented.since, rust_knows horiented hagree hstarted,
    java_knows lib raw horiented hagree hstarted, browser_knows horiented hagree hstarted⟩

open Agreement (noPayload returnJoined returnHeard return_run)
open Java.Json (units)
open Java.Tasks (Joined.read)
open Java.Telling (plainNumbers callEnv startEnv leftText leftMembers parse_leftText slotMembers
  run_after run_text readable_text told_text)

/-- A Rust client that is given what it can read of it. -/
def returnInputs : List (Rtc String × Input String) :=
  (readable noPayload returnHeard).map fun m => (Tellings.startRtc, .internal (.ws m))

def returnRust : Actor String := (rustAfter Tellings.startRtc none (joinedMsg returnJoined) returnInputs).actor

def returnLabels : List (Ts.Game.Label String) :=
  (readable noPayload returnHeard).map (.message Ts.Telling.pairEnv)

def returnGame : Ts.Game.P2PGame String :=
  returnLabels.foldl Ts.Game.P2PGame.take (.start Ts.Telling.pairEnv none (joinedMsg returnJoined))

theorem game_run : Run (Ts.Game.system Ts.Telling.pairEnv none (joinedMsg returnJoined)) returnLabels
    returnGame := by
  let start : Ts.Game.P2PGame String := .start Ts.Telling.pairEnv none (joinedMsg returnJoined)
  let came := start.take (.message Ts.Telling.pairEnv
    (.playerJoined 1 [⟨0, true, true⟩, ⟨1, true, true⟩]))
  let left := came.take (.message Ts.Telling.pairEnv (.playerLeft 1 "disconnected"))
  have hstart : Run (Ts.Game.system Ts.Telling.pairEnv none (joinedMsg returnJoined)) [] start := .init rfl
  have hcame : Run (Ts.Game.system Ts.Telling.pairEnv none (joinedMsg returnJoined)) _ came :=
    Ts.Telling.run_take hstart _ rfl
  have hleft : Run (Ts.Game.system Ts.Telling.pairEnv none (joinedMsg returnJoined)) _ left :=
    Ts.Telling.run_take hcame _ rfl
  exact Ts.Telling.run_take hleft (.message Ts.Telling.pairEnv (.playerRejoined 1 false)) rfl

def joinedMembers : Java.Messages.Members Empty :=
  [(units "type", .string (units "joined")), (units "code", .string (units "ROOM")),
    (units "selfId", .long 0), (units "maxPlayers", .long 2), (units "started", .bool true),
    (units "resumeToken", .string (units "a")),
    (units "players", .list [slotMembers 0, .map [(units "id", .long 1)]])]

theorem joined_read : Wire.joined joinedMembers = some (joinedMsg returnJoined) := by
  with_unfolding_all rfl

def cameText : JString := units ("\x7b\"type\":\"player-joined\",\"playerId\":1,\"players\":" ++
  "[\x7b\"id\":0,\"occupied\":true,\"connected\":true\x7d," ++
  "\x7b\"id\":1,\"occupied\":true,\"connected\":true\x7d]\x7d")

def cameMembers : Java.Messages.Members Empty :=
  [(units "type", .string (units "player-joined")), (units "playerId", .long 1),
    (units "players", .list [slotMembers 0, slotMembers 1])]

set_option maxRecDepth 100000 in
theorem parse_cameText :
    Java.Json.parse plainNumbers.toJavaLib callEnv.calls cameText = some (.ok (.map cameMembers)) := by
  with_unfolding_all rfl

def backText : JString :=
  units "\x7b\"type\":\"player-rejoined\",\"playerId\":1,\"wasReplacement\":false\x7d"

def backMembers : Java.Messages.Members Empty :=
  [(units "type", .string (units "player-rejoined")), (units "playerId", .long 1),
    (units "wasReplacement", .bool false)]

set_option maxRecDepth 100000 in
theorem parse_backText :
    Java.Json.parse plainNumbers.toJavaLib callEnv.calls backText = some (.ok (.map backMembers)) := by
  with_unfolding_all rfl

def returnTasks : List (Java.Tasks.Label Empty) :=
  [.post .start, .run startEnv .start, .post (.serverText cameText), .run callEnv (.serverText cameText),
    .post (.serverText leftText), .run callEnv (.serverText leftText), .post (.serverText backText),
    .run callEnv (.serverText backText)]

def begunActor : Java.Tasks.Actor Empty :=
  (Java.Tasks.Actor.new none (Joined.read plainNumbers joinedMembers)).runTask plainNumbers startEnv .start

def returnActor : Java.Tasks.Actor Empty :=
  ((begunActor.handleMembers plainNumbers callEnv cameMembers).handleMembers plainNumbers callEnv
    leftMembers).handleMembers plainNumbers callEnv backMembers

theorem tasks_run : Run (Java.Tasks.system plainNumbers none (Joined.read plainNumbers joinedMembers))
    returnTasks ⟨returnActor, []⟩ := by
  have hstart : Run (Java.Tasks.system plainNumbers none (Joined.read plainNumbers joinedMembers)) []
      ⟨Java.Tasks.Actor.new none (Joined.read plainNumbers joinedMembers), []⟩ := .init rfl
  have hbegun : Run (Java.Tasks.system plainNumbers none (Joined.read plainNumbers joinedMembers)) _
      ⟨begunActor, []⟩ :=
    run_after _ (run_after _ hstart (l := .post .start) ⟨rfl, trivial⟩) (l := .run startEnv .start) rfl
  have hcame := run_text plainNumbers hbegun parse_cameText rfl
  have hleft := run_text plainNumbers hcame parse_leftText rfl
  exact run_text plainNumbers hleft parse_backText rfl

theorem read_came : Wire.serverMessage (fun _ => "") (.map cameMembers) =
    some (.playerJoined 1 [⟨0, true, true⟩, ⟨1, true, true⟩]) := by
  with_unfolding_all rfl

theorem read_left : Wire.serverMessage (fun _ => "") (.map leftMembers) =
    some (.playerLeft 1 "disconnected") := by
  with_unfolding_all rfl

theorem read_back : Wire.serverMessage (fun _ => "") (.map backMembers) =
    some (.playerRejoined 1 false) := by
  with_unfolding_all rfl

theorem tasks_readable :
    ∀ l ∈ returnTasks, Java.Telling.ReadableStep plainNumbers (fun _ => "") l := by
  have hcame := readable_text plainNumbers parse_cameText (Option.isSome_of_eq_some read_came)
  have hleft := readable_text plainNumbers parse_leftText (Option.isSome_of_eq_some read_left)
  have hback := readable_text plainNumbers parse_backText (Option.isSome_of_eq_some read_back)
  intro l hl
  simp only [returnTasks, List.mem_cons, List.not_mem_nil, or_false] at hl
  rcases hl with rfl | rfl | rfl | rfl | rfl | rfl | rfl | rfl
  · trivial
  · trivial
  · trivial
  · exact hcame
  · trivial
  · exact hleft
  · trivial
  · exact hback

theorem told_return {text : JString} {m : Java.Messages.Members Empty} {msg : ServerMessage String}
    (hparse : Java.Json.parse plainNumbers.toJavaLib callEnv.calls text = some (.ok (.map m)))
    (hmsg : Wire.serverMessage (fun _ => "") (.map m) = some msg) :
    Java.Telling.told plainNumbers (fun _ => "") (.run callEnv (.serverText text)) =
      some (.message msg fun p => callEnv.creates p) := by
  rw [told_text plainNumbers hparse, hmsg, Option.map_some]

theorem tasks_heard : (returnTasks.filterMap (Java.Telling.told plainNumbers fun _ => "")).filterMap heard =
    readable noPayload returnHeard := by
  have hcame := told_return parse_cameText read_came
  have hleft := told_return parse_leftText read_left
  have hback := told_return parse_backText read_back
  have hbegun : Java.Telling.told plainNumbers (fun _ => "") (.run startEnv .start) =
      some (.begun fun p => startEnv.creates p) := rfl
  have hposted (task : Java.Tasks.Task Empty) :
      Java.Telling.told plainNumbers (fun _ => "") (.post task) = none := rfl
  simp only [returnTasks, List.filterMap_cons, hposted, hbegun, hcame, hleft, hback]
  rfl

theorem clients_know_return : ∃ ls s, Run (server nativeOnly codePoints smallLimits) ls s ∧
    Attached s 0 0 0 ∧ accepted 0 (calls ls) = .joined returnJoined :: returnHeard ∧
    Knows (s.manager.room 0) 0 returnRust.selfId returnRust.maxPlayers (entries returnRust.roster)
      returnRust.started ∧
    Knows (s.manager.room 0) 0 returnActor.selfId returnActor.maxPlayers
      (returnActor.roster.map fun p => (p.id, p.occupied, p.connected)) returnActor.startedFlag ∧
    Knows (s.manager.room 0) 0 returnGame.selfId returnGame.maxPlayers (entries returnGame.roster)
      returnGame.startedFlag := by
  obtain ⟨ls, s, run, hconn, hheard⟩ := return_run
  obtain ⟨msg, after, hsince, hrust, hjava, hbrowser⟩ := clients_know plainNumbers (fun _ => "")
    noPayload run hconn
  obtain ⟨rfl, rfl⟩ := sinceJoined_unique hsince ⟨[], hheard, by simp [returnHeard]⟩
  refine ⟨ls, s, run.unrestrict, hconn, hheard, ?_, ?_, ?_⟩
  · exact hrust Tellings.startRtc none returnInputs rfl returnRust rfl rfl
  · exact hjava joinedMembers none returnTasks ⟨returnActor, []⟩ joined_read tasks_run tasks_readable
      tasks_heard rfl
  · exact hbrowser Ts.Telling.pairEnv none returnLabels returnGame game_run rfl rfl

end Lobbylink.System.Rooms
