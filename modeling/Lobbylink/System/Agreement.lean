import Lobbylink.Client.Roster
import Lobbylink.Server.Audience

/-! The roster of a client against the seats of its room. The server announces
every change of the seats, except one: when an occupied slot is handed to a
transport that refuses its joined message, the others hear that the player is
back and never that it is gone again. -/
namespace Lobbylink.System.Agreement
open Server.Protocol Server.Lobby Server.Registry Server.Policy Server.Fanout Server.Operations
  Server.Effects Server.Slots Server.Announcements Server.Websocket Server.Sessions Server.Audience
open Client.Protocol (SignalPayload WirePlayer ServerMessage PlayerLeftReason decode wirePlayer)
open Client.Roster Lib.Runs

/-- The client's roster is the room's vector of occupied and attached slots. -/
structure Agrees (roster : List Client.Roster.PlayerInfo) (r : Room) : Prop where
  length : roster.length = r.slots.length
  marks : ∀ i, mark roster i = seat r i

theorem Agrees.vector {roster : List Client.Roster.PlayerInfo} {r : Room} (h : Agrees roster r) :
    roster.map (fun p => (p.occupied, p.connected)) =
      r.slots.map fun t => (t.occupied, t.conn.isSome) := by
  apply List.ext_getElem
  · simpa using h.length
  intro i hi hi'
  rw [List.length_map] at hi hi'
  have hm := h.marks i
  unfold mark seat at hm
  rw [List.getElem?_eq_getElem hi, slot_of_lt r hi'] at hm
  simpa [Slot.seat] using hm

variable {Sdp : Type} (payloadOf : String → Option (SignalPayload Sdp))

/-- The roster a client has after the joined message `msg` and what followed. -/
def view (msg : Joined) (after : List Msg) : List Client.Roster.PlayerInfo :=
  followRoster payloadOf msg.maxPlayers
    (rosterFromSnapshot msg.maxPlayers (msg.players.map wirePlayer)) after

theorem follow_append (maxPlayers : Nat) (roster : List Client.Roster.PlayerInfo)
    (a b : List Msg) : followRoster payloadOf maxPlayers roster (a ++ b) =
      followRoster payloadOf maxPlayers (followRoster payloadOf maxPlayers roster a) b := by
  simp only [followRoster, List.filterMap_append, List.foldl_append]

theorem follow_cons (maxPlayers : Nat) (roster : List Client.Roster.PlayerInfo) (m : Msg)
    {sm : ServerMessage Sdp} (hm : decode payloadOf m = some sm) (rest : List Msg) :
    followRoster payloadOf maxPlayers roster (m :: rest) =
      followRoster payloadOf maxPlayers (updateRoster maxPlayers roster sm) rest := by
  simp only [followRoster, List.filterMap_cons, hm, List.foldl_cons]

theorem follow_other (maxPlayers : Nat) (roster : List Client.Roster.PlayerInfo)
    {msgs : List Msg} (h : ∀ m ∈ msgs, IsSignal m ∨ IsError m ∨ m = .roomStarted) :
    followRoster payloadOf maxPlayers roster msgs = roster := by
  induction msgs generalizing roster with
  | nil => rfl
  | cons m rest ih =>
    have hrest := ih roster fun x hx => h x (List.mem_cons_of_mem m hx)
    rcases h m List.mem_cons_self with ⟨source, payload, rfl⟩ | ⟨err, rfl⟩ | rfl
    · cases hp : payloadOf payload with
      | none =>
        simp only [followRoster, List.filterMap_cons, decode, hp, Option.map_none] at hrest ⊢
        exact hrest
      | some p =>
        have hm : decode payloadOf (.signal source payload) = some (.signal source p) := by
          simp only [decode, hp, Option.map_some]
        rw [follow_cons payloadOf _ _ _ hm]
        exact hrest
    · rw [follow_cons payloadOf _ _ _ rfl]
      exact hrest
    · rw [follow_cons payloadOf _ _ _ rfl]
      exact hrest

theorem fromWire_disconnected :
    PlayerLeftReason.fromWire LeftReason.disconnected.text = .disconnected := by
  decide

theorem fromWire_explicit :
    PlayerLeftReason.fromWire LeftReason.explicit.text = .explicitLeave := by
  decide

theorem follow_left (maxPlayers : Nat) (roster : List Client.Roster.PlayerInfo) (ids : List Nat) :
    (followRoster payloadOf maxPlayers roster (ids.map leftMsg)).length = roster.length ∧
      ∀ i, mark (followRoster payloadOf maxPlayers roster (ids.map leftMsg)) i =
        without (mark roster) ids i := by
  induction ids generalizing roster with
  | nil => exact ⟨rfl, fun i => rfl⟩
  | cons id rest ih =>
    rw [List.map_cons, follow_cons payloadOf _ _ _ rfl]
    simp only [updateRoster, fromWire_disconnected]
    obtain ⟨hlen, hmark⟩ := ih (roster.modify id fun slot => { slot with connected := false })
    refine ⟨hlen.trans (List.length_modify ..), fun i => ?_⟩
    rw [hmark]
    unfold without
    rw [mark_disconnect]
    by_cases hi : i = id <;> by_cases hr : i ∈ rest <;> simp [hi, hr]

theorem agrees_left {roster : List Client.Roster.PlayerInfo} {f : Nat → Bool × Bool} {r : Room}
    {ids : List Nat} (maxPlayers : Nat) (hlen : roster.length = r.slots.length)
    (hmark : ∀ i, mark roster i = f i) (hseat : ∀ i, seat r i = without f ids i) :
    Agrees (followRoster payloadOf maxPlayers roster (ids.map leftMsg)) r := by
  obtain ⟨hlen', hmark'⟩ := follow_left payloadOf maxPlayers roster ids
  refine ⟨hlen'.trans hlen, fun i => ?_⟩
  rw [hmark', hseat]
  unfold without
  rw [hmark]

theorem snapshot_entry (q : Room) (now : Time) (i : Nat) :
    ((q.snapshot now).map wirePlayer)[i]? =
      if i < q.slots.length then some ⟨i, (seat q i).1, (seat q i).2⟩ else none := by
  unfold Room.snapshot seat
  rw [List.getElem?_map, List.getElem?_mapIdx]
  by_cases hi : i < q.slots.length
  · rw [List.getElem?_eq_getElem hi, if_pos hi, slot_of_lt q hi]
    rfl
  · rw [List.getElem?_eq_none (Nat.le_of_not_lt hi), if_neg hi]
    rfl

theorem mark_snapshot (q : Room) (now : Time) (i : Nat) :
    mark (rosterFromSnapshot q.slots.length ((q.snapshot now).map wirePlayer)) i = seat q i := by
  have hlen : ((q.snapshot now).map wirePlayer).length = q.slots.length := by
    simp [Room.snapshot]
  conv_lhs => rw [← hlen]
  rw [mark_rosterFromSnapshot]
  · rw [snapshot_entry]
    by_cases hi : i < q.slots.length
    · rw [if_pos hi]
    · rw [if_neg hi, seat, slot_of_ge q (Nat.le_of_not_lt hi)]
      rfl
  · intro n p hp
    rw [snapshot_entry] at hp
    split_ifs at hp
    cases hp
    rfl

theorem agrees_announced {lost : Nat → Prop} {r r' : Room} {msgs : List Msg}
    {roster : List Client.Roster.PlayerInfo} (h : Announced lost r r' msgs)
    (hr : Agrees roster r) (hlen : r'.slots.length = r.slots.length) (hlost : ∀ id, ¬lost id) :
    Agrees (followRoster payloadOf r.slots.length roster msgs) r' := by
  cases h with
  | dropped own ids hown hseat =>
    rw [follow_append, follow_other payloadOf _ _ fun m hm => .inl (hown m hm)]
    exact agrees_left payloadOf _ (hr.length.trans hlen.symm) hr.marks hseat
  | left i ids hseat =>
    rw [follow_cons payloadOf _ _ _ rfl]
    simp only [updateRoster, fromWire_explicit]
    refine agrees_left payloadOf _ (by rw [List.length_modify, hr.length, hlen])
      (fun j => ?_) hseat
    rw [mark_leave, hr.marks]
  | handed id ok ids msg hmsg hlt hids hseat =>
    have hok : refused ok id = [] := by
      cases ok
      · exact absurd (hids rfl).2 (hlost id)
      · rfl
    rw [hok, List.nil_append] at hseat
    have hmod : followRoster payloadOf r.slots.length roster (msg :: ids.map leftMsg) =
        followRoster payloadOf r.slots.length (roster.modify id fun slot =>
          { slot with occupied := true, connected := true }) (ids.map leftMsg) := by
      rcases hmsg with rfl | rfl
      · exact follow_cons payloadOf _ _ (.playerRejoined id false) rfl _
      · exact follow_cons payloadOf _ _ (.playerReplaced id) rfl _
    rw [hmod]
    refine agrees_left payloadOf _ (by rw [List.length_modify, hr.length, hlen])
      (fun j => ?_) hseat
    rw [mark_attach roster (hr.length ▸ hlt), hr.marks]
  | joined id q now startedNow d₁ d₂ hq hseat _ _ hquiet =>
    set roster' := rosterFromSnapshot r.slots.length ((q.snapshot now).map wirePlayer) with hroster
    have hsnap : ∀ j, mark roster' j = seat q j := fun j => hroster ▸ hq ▸ mark_snapshot q now j
    have hlen' : roster'.length = r'.slots.length := by
      rw [hroster, length_rosterFromSnapshot, hlen]
    have hnews : followRoster payloadOf r.slots.length roster
        (news (.playerJoined id (q.snapshot now)) startedNow d₁ d₂) =
        followRoster payloadOf r.slots.length roster' ((d₁ ++ d₂).map leftMsg) := by
      unfold news
      rw [List.cons_append, follow_cons payloadOf _ _ _ rfl, List.map_append, follow_append,
        follow_append]
      cases startedNow
      · rw [hquiet rfl]
        rfl
      · exact follow_cons payloadOf _ _ .roomStarted rfl _
    rw [hnews]
    exact agrees_left payloadOf _ hlen' hsnap hseat

theorem agrees_greeted {i : Nat} {r' : Room} {msgs : List Msg} (h : Greeted i r' msgs) :
    ∃ msg after, msgs = .joined msg :: after ∧ (∀ m, .joined m ∉ after) ∧
      msg.maxPlayers = r'.slots.length ∧ Agrees (view payloadOf msg after) r' := by
  cases h with
  | joined q token now ids hmax hlen hseat hstart =>
    refine ⟨_, _, rfl, no_joined_left ids, hmax, ?_⟩
    refine agrees_left payloadOf _ ?_ (fun j => ?_) hseat
    · exact (length_rosterFromSnapshot ..).trans hmax
    · have h := mark_snapshot q now j
      rw [hlen, ← hmax] at h
      exact h

/-- The client at the end of `history` sees the room as it is. -/
def InStep (history : List Msg) (r : Room) : Prop :=
  ∃ msg after, SinceJoined history msg after ∧ msg.maxPlayers = r.slots.length ∧
    Agrees (view payloadOf msg after) r

/-- The step gives an occupied slot to a transport that refuses its joined
message, while another transport of the room takes all its messages. -/
def Strands (s : State) (l : Label) : Prop :=
  ∃ ref id, Stranded s l ref id ∧
    ∃ k c, k ≠ id ∧ Attached s ref k c ∧ ∀ msg, .enqueue c msg false ∉ l.out

variable {payloadOf}

theorem inStep_same {history msgs : List Msg} {r : Room} (h : InStep payloadOf history r)
    (hmsgs : ∀ m ∈ msgs, IsError m) : InStep payloadOf (history ++ msgs) r := by
  obtain ⟨msg, after, hsince, hmax, hagree⟩ := h
  refine ⟨msg, _, hsince.append (no_joined_errors hmsgs), hmax, ?_⟩
  unfold view at hagree ⊢
  rw [follow_append, follow_other payloadOf _ _ fun m hm => .inr (.inl (hmsgs m hm))]
  exact hagree

theorem announced_elsewhere {lost : Nat → Prop} {r r' : Room} {msgs : List Msg}
    (h : Announced lost r r' msgs) {i : Nat} {c : Conn} (hc : (r'.slot i).conn = some c) :
    Announced (fun id => lost id ∧ i ≠ id) r r' msgs := by
  cases h with
  | dropped own ids hown hseat hstart => exact .dropped own ids hown hseat hstart
  | left j ids hseat hstart => exact .left j ids hseat hstart
  | handed id ok ids msg hmsg hlt hids hseat hstart =>
    refine .handed id ok ids msg hmsg hlt (fun hok => ⟨(hids hok).1, (hids hok).2, ?_⟩) hseat hstart
    rintro rfl
    have hsome : (seat r' i).2 = true := by simp [seat, Slot.seat, hc]
    rw [hseat i, hok, without, if_pos (by simp [refused])] at hsome
    cases hsome
  | joined id q now startedNow d₁ d₂ hlen hseat hstart hnow hquiet =>
    exact .joined id q now startedNow d₁ d₂ hlen hseat hstart hnow hquiet

theorem inStep_step {history : List Msg} {s t : State} {l : Label} {ref i : Nat} {c : Conn}
    (h : Heard s t l ref i c) (hc : Attached t ref i c) (hno : ¬Strands s l)
    (hold : Attached s ref i c → InStep payloadOf history (s.manager.room ref)) :
    InStep payloadOf (history ++ accepted c l.out) (t.manager.room ref) := by
  cases h with
  | nothing heq hatt herr =>
    rw [heq]
    exact inStep_same (hold hatt) herr
  | kept hatt hall hlen hann =>
    obtain ⟨msg, after, hsince, hmax, hagree⟩ := hold hatt
    refine ⟨msg, _, hsince.append (no_joined_announced hann), hmax.trans hlen.symm, ?_⟩
    unfold view at hagree ⊢
    rw [follow_append, hmax]
    rw [hmax] at hagree
    exact agrees_announced payloadOf (announced_elsewhere hann hc) hagree hlen
      fun id hid => hno ⟨ref, id, hid.1, i, c, hid.2, hatt, hall⟩
  | greeted _ hgreet =>
    obtain ⟨msg, after, hmsgs, hno, hmax, hagree⟩ := agrees_greeted payloadOf hgreet
    rw [hmsgs]
    exact ⟨msg, after, sinceJoined_new history msg hno, hmax, hagree⟩

variable {cfg : Config} {sha256 : String → TokenHash} {limits : Limits}

theorem inStep_run {ls : List Label} {s : State}
    (run : Run ((server cfg sha256 limits).restrict fun s l => ¬Strands s l) ls s) :
    ∀ ref i c, Attached s ref i c →
      InStep payloadOf (accepted c (calls ls)) (s.manager.room ref) := by
  refine run.history (fun ls s => ∀ ref i c, Attached s ref i c →
    InStep payloadOf (accepted c (calls ls)) (s.manager.room ref)) ?_ ?_
  · rintro s rfl ref i c hc
    unfold Attached at hc
    rw [room_of_ge _ (Nat.zero_le ref), slot_absent] at hc
    cases hc
  · intro ls s l t run hinv hstep ref i c hc
    rw [calls_append, calls_singleton, accepted_append]
    exact inStep_step (step_heard (disciplined_run run.unrestrict) hstep.2 hc) hc hstep.1
      (hinv ref i c)

/-- The roster an attached client arrives at is the vector of its room. -/
def FollowsRoom (payloadOf : String → Option (SignalPayload Sdp)) (history : List Msg) (r : Room) :
    Prop :=
  ∃ msg after, SinceJoined history msg after ∧
    (view payloadOf msg after).map (fun p => (p.occupied, p.connected)) =
      r.slots.map fun t => (t.occupied, t.conn.isSome)

/-- In a run without a stranding step every attached client knows its room. -/
theorem roster_agreement (cfg : Config) (sha256 : String → TokenHash) (limits : Limits)
    (payloadOf : String → Option (SignalPayload Sdp)) (ls : List Label) (s : State)
    (run : Run ((server cfg sha256 limits).restrict fun s l => ¬Strands s l) ls s)
    (ref i : Nat) (c : Conn) (hc : Attached s ref i c) :
    FollowsRoom payloadOf (accepted c (calls ls)) (s.manager.room ref) := by
  obtain ⟨msg, after, hsince, -, hagree⟩ := inStep_run run ref i c hc
  exact ⟨msg, after, hsince, hagree.vector⟩

/-- A run that refuses no joined message strands nobody. -/
theorem run_unstranded {ls : List Label} {s : State}
    (run : Run (server cfg sha256 limits) ls s) (h : ∀ l ∈ ls, JoinsTaken l.out) :
    Run ((server cfg sha256 limits).restrict fun s l => ¬Strands s l) ls s :=
  run.restrict fun l hl _ ⟨_, _, ⟨_, _, c, msg, hm⟩, _⟩ =>
    (joinsTaken_iff _).1 (h l hl) c msg hm

/-- A client that reads no relayed payload; these runs relay none. -/
def noPayload : String → Option (SignalPayload String) := fun _ => none

/-- The second player loses its socket and comes back with its token. -/
def returnEvents : List (Event × Env) :=
  enterEvents 0 1 "a" (joinMsg "") ++ enterEvents 1 2 "b" (joinMsg "") ++
    [(.readError 1, calm 3 ""), (.proceed 1, calm 3 "")] ++ enterEvents 2 4 "c" (joinMsg "b")

/-- The joined message of the first player, and what it hears after that. -/
def returnJoined : Joined := ⟨"ROOM", 0, 2, true, "a", [⟨0, true, true, 0⟩, ⟨1, false, false, 0⟩]⟩

def returnHeard : List Msg :=
  [.playerJoined 1 [⟨0, true, true, 0⟩, ⟨1, true, true, 0⟩], .playerLeft 1 .disconnected,
    .playerRejoined 1 false]

theorem return_run : ∃ ls s,
    Run ((server nativeOnly codePoints smallLimits).restrict fun s l => ¬Strands s l) ls s ∧
      Attached s 0 0 0 ∧ accepted 0 (calls ls) = .joined returnJoined :: returnHeard := by
  obtain ⟨s, ls, hexec, hconn, hjoins, hheard⟩ : ∃ s ls,
      exec nativeOnly codePoints returnEvents ⟨newManager smallLimits, []⟩ = some (s, ls) ∧
        Attached s 0 0 0 ∧ ls.all (fun l => l.out.all fun o => !refusesJoined o) = true ∧
        accepted 0 (calls ls) = .joined returnJoined :: returnHeard := ⟨_, _, rfl, rfl, rfl, rfl⟩
  have hall : ∀ l ∈ ls, JoinsTaken l.out := by simpa [JoinsTaken] using hjoins
  exact ⟨ls, s, run_unstranded (exec_run hexec) hall, hconn, hheard⟩

theorem roster_agreement_return : ∃ ls s, Run (server nativeOnly codePoints smallLimits) ls s ∧
    Attached s 0 0 0 ∧ accepted 0 (calls ls) = .joined returnJoined :: returnHeard ∧
    FollowsRoom noPayload (accepted 0 (calls ls)) (s.manager.room 0) := by
  obtain ⟨ls, s, run, hconn, hheard⟩ := return_run
  exact ⟨ls, s, run.unrestrict, hconn, hheard,
    roster_agreement _ _ _ noPayload ls s run 0 0 0 hconn⟩

def strandHeard : List Msg :=
  [.playerJoined 1 [⟨0, true, true, 0⟩, ⟨1, true, true, 0⟩], .playerRejoined 1 false]

/-- Two players; the second one's slot is resumed by a socket that cannot take
its joined message. The first player still believes the second is connected. -/
def strandEvents : List (Event × Env) :=
  enterEvents 0 1 "a" (joinMsg "") ++ enterEvents 1 2 "b" (joinMsg "") ++
    [(.accept "", calm 3 ""), (.text 2 (.ok (joinMsg "b")), calm 3 ""),
      (.proceed 2, { calm 3 "c" with accepts := fun n => n != 1 })]

theorem roster_disagreement : ∃ ls s, Run (server nativeOnly codePoints smallLimits) ls s ∧
    Attached s 0 0 0 ∧ ¬FollowsRoom noPayload (accepted 0 (calls ls)) (s.manager.room 0) := by
  obtain ⟨s, ls, hexec, hconn, hslots, msg, hhistory, hview⟩ : ∃ s ls,
      exec nativeOnly codePoints strandEvents ⟨newManager smallLimits, []⟩ = some (s, ls) ∧
        Attached s 0 0 0 ∧
        (s.manager.room 0).slots.map (fun t => (t.occupied, t.conn.isSome)) =
          [(true, true), (true, false)] ∧
        ∃ msg, accepted 0 (calls ls) = [] ++ .joined msg :: strandHeard ∧
          (view noPayload msg strandHeard).map (fun p => (p.occupied, p.connected)) =
            [(true, true), (true, true)] := ⟨_, _, rfl, rfl, rfl, _, rfl, rfl⟩
  refine ⟨ls, s, exec_run hexec, hconn, ?_⟩
  rintro ⟨msg', after', hsince, heq⟩
  obtain ⟨rfl, rfl⟩ := sinceJoined_unique ⟨[], hhistory, by simp [strandHeard]⟩ hsince
  rw [hview, hslots] at heq
  cases heq

end Lobbylink.System.Agreement
