import Lobbylink.Server.Audience

/-! The start of a room. The flag is set by the first operation after which the
start condition holds, and every attached transport knows it from its joined
message or from one room-started message, never from both. -/
namespace Lobbylink.Server.Started
open Protocol Lobby Registry Policy Fanout Operations Effects Slots Announcements Websocket
  Sessions Audience Lib.Runs

/-- The start condition: all slots occupied, or any slot if the room does not
wait until it is full. -/
def Met (r : Room) : Prop :=
  if r.opts.waitUntilFull = true then ∀ i, i < r.slots.length → (r.slot i).occupied = true
  else ∃ i, (r.slot i).occupied = true

theorem met_of_occupied {r : Room} (r' : Room) (hopts : r'.opts = r.opts)
    (hlen : r'.slots.length = r.slots.length)
    (hocc : ∀ i, (r'.slot i).occupied = true → (r.slot i).occupied = true) (h : Met r') : Met r := by
  unfold Met at h ⊢
  rw [hopts] at h
  split_ifs at h ⊢
  · exact fun i hi => hocc i (h i (hlen ▸ hi))
  · obtain ⟨i, hi⟩ := h
    exact ⟨i, hocc i hi⟩

theorem occupiedCount_full (r : Room) :
    r.occupiedCount = r.opts.maxPlayers ↔
      ∀ i, i < r.slots.length → (r.slot i).occupied = true := by
  rw [← r.slots_length]
  unfold Room.occupiedCount
  rw [List.countP_eq_length]
  constructor
  · intro h i hi
    rw [slot_of_lt r hi]
    exact h _ (List.getElem_mem hi)
  · intro h t ht
    obtain ⟨i, hi, rfl⟩ := List.getElem_of_mem ht
    rw [← slot_of_lt r hi]
    exact h i hi

/-- With a slot occupied, the server's test is the start condition. -/
theorem startsNow_iff {r : Room} {i : Nat} (hi : (r.slot i).occupied = true) :
    r.startsNow = true ↔ r.started = false ∧ Met r := by
  unfold Room.startsNow Met
  by_cases hw : r.opts.waitUntilFull = true
  · simp [hw, occupiedCount_full]
  · have hex : ∃ i, (r.slot i).occupied = true := ⟨i, hi⟩
    simp [hw, hex]

variable {sha256 : String → TokenHash} {env : Env}

theorem occupied_detachAll (r : Room) (ids : List Nat) (i : Nat) :
    ((detachAll r ids).slot i).occupied = (r.slot i).occupied := by
  rw [slot_detachAll]
  split_ifs <;> rfl

theorem does_start {r r' : Room} {a : Act} {o : Outcome} {out : List Out}
    (h : Does sha256 env r a o r' out) :
    (r'.started = r.started ∧
      ∀ i, (r'.slot i).occupied = true → (r.slot i).occupied = true) ∨
    (r'.started = true ↔ r.started = true ∨ Met r') := by
  have hsame := does_sameRoom h
  have hhanded : ∀ (q : Room) (id : Nat) (f : Slot → Slot), (∀ t, (f t).occupied = t.occupied) →
      ∀ (ids : List Nat) (e : Time), q = (noted r env.now).modifySlot id f →
      r' = emptyAt (detachAll q ids) e → r'.started = r.started ∧
        ∀ i, (r'.slot i).occupied = true → (r.slot i).occupied = true := by
    rintro q id f hf ids e rfl rfl
    refine ⟨rfl, fun i hi => ?_⟩
    rw [slot_emptyAt, occupied_detachAll, slot_modifySlot] at hi
    split_ifs at hi with hid
    · rw [hf] at hi
      exact hid.1 ▸ hi
    · exact hi
  cases h with
  | stale | barred | rejected => exact .inl ⟨rfl, fun _ h => h⟩
  | touched j conn | unsent j conn | relayed j conn =>
    exact .inl ⟨rfl, fun i hi => (congrArg Prod.fst (seat_refreshed r j i env.now)).symm.trans hi⟩
  | overflowed j conn dest c payload out drops e =>
    refine .inl ⟨rfl, fun i hi => ?_⟩
    rw [slot_emptyAt, occupied_detachAll] at hi
    exact (congrArg Prod.fst (seat_refreshed r j i env.now)).symm.trans hi
  | freed j conn out drops e hcur =>
    refine .inl ⟨rfl, fun i hi => ?_⟩
    rw [slot_emptyAt, occupied_detachAll, slot_freed] at hi
    split_ifs at hi
    · cases hi
    · exact hi
  | detached j conn out drops e =>
    refine .inl ⟨rfl, fun i hi => ?_⟩
    rwa [slot_emptyAt, occupied_detachAll] at hi
  | resumed id resumeToken token conn r' out ok drops hdes hne hallow hfind ht hacq =>
    exact .inl (hhanded _ id (Slot.resumed conn (sha256 token) env.now) (fun _ => rfl) _ _ rfl
      hacq.room)
  | replaced id token conn r' out ok drops hdes hocc hallow hpolicy hsilent ht hacq =>
    exact .inl (hhanded _ id (Slot.replaced conn (sha256 token) env.now) (fun _ => rfl) _ _ rfl
      hacq.room)
  | occupied a id token conn r' out ok d₁ d₂ hdes hlt hocc ht hwhy hacq =>
    right
    set q := (noted r env.now).modifySlot id fun _ => Slot.occupiedBy conn (sha256 token) env.now
      with hq
    have hid : (q.slot id).occupied = true := by
      rw [hq, slot_written hlt, if_pos rfl]
      rfl
    have hocc' : ∀ i, (r'.slot i).occupied = (q.slot i).occupied := by
      intro i
      rw [hacq.room, slot_emptyAt, occupied_detachAll, slot_start]
    have hlen : q.slots.length = r'.slots.length := by
      rw [hsame.length]
      exact length_modifySlot ..
    have hmet : Met r' ↔ Met q :=
      ⟨met_of_occupied _ hsame.opts hlen.symm fun i hi => hocc' i ▸ hi,
        met_of_occupied _ hsame.opts.symm hlen fun i hi => (hocc' i).trans hi⟩
    rw [hmet, (started_acquired hacq).1, (started_start q).1, Bool.or_eq_true, startsNow_iff hid]
    have hstarted : q.started = r.started := rfl
    rw [hstarted]
    cases r.started <;> simp

/-- A room that has not started does not meet its start condition. -/
def Waiting (r : Room) : Prop := r.started = false → ¬Met r

theorem waiting_newRoom (appID code : String) (opts : RoomOptions) (now : Time) :
    Waiting (newRoom appID code opts now) := by
  intro _ h
  unfold Met at h
  split_ifs at h
  · have hlen : 0 < (newRoom appID code opts now).slots.length := by
      rw [Room.slots_length]
      exact opts.positive
    simpa using h 0 hlen
  · simp at h

theorem waiting_absent : Waiting absent := by
  rintro - ⟨i, hi⟩
  rw [slot_absent] at hi
  cases hi

/-- The flag after an operation: as before, or the condition now holds. -/
theorem does_started_iff {r r' : Room} {a : Act} {o : Outcome} {out : List Out}
    (h : Does sha256 env r a o r' out) (hw : Waiting r) :
    r'.started = true ↔ r.started = true ∨ Met r' := by
  rcases does_start h with ⟨hstart, hocc⟩ | hiff
  · rw [hstart]
    refine ⟨.inl, fun h' => h'.elim id fun hmet => ?_⟩
    by_contra hnot
    have hsame := does_sameRoom h
    exact hw (by simpa using hnot) (met_of_occupied _ hsame.opts hsame.length hocc hmet)
  · exact hiff

theorem roomStep_started {m : Manager} {op : Op} {res : Result} {ref : Nat}
    (h : RoomStep sha256 env m op res ref) (hw : Waiting (m.room ref)) :
    ((res.manager.room ref).started = true ↔
      (m.room ref).started = true ∨ Met (res.manager.room ref)) := by
  cases h with
  | idle heq =>
    rw [heq]
    refine ⟨.inl, fun h => h.elim id fun hmet => ?_⟩
    by_contra hnot
    exact hw (by simpa using hnot) hmet
  | closed _ heq =>
    have hstart : (closed (m.room ref)).started = (m.room ref).started := rfl
    rw [heq, hstart]
    refine ⟨.inl, fun h => h.elim id fun hmet => ?_⟩
    by_contra hnot
    have hmet' : Met (m.room ref) := met_of_occupied (closed (m.room ref)) rfl
      (length_detachAll ..) (fun i hi => by rwa [slot_closed] at hi) hmet
    exact hw (by simpa using hnot) hmet'
  | does r a o swept out hfound _ hdoes =>
    rcases hfound with ⟨-, rfl⟩ | ⟨href, appID, code, opts, rfl⟩
    · exact does_started_iff hdoes hw
    · rw [does_started_iff hdoes (waiting_newRoom appID code opts env.now),
        room_of_ge m (Nat.le_of_eq href.symm)]
      rfl

variable {cfg : Config} {limits : Limits}

theorem step_manager {s t : State} {l : Label} (h : (server cfg sha256 limits).step s l t) :
    t.manager = s.manager ∨ ∃ op, t.manager = (s.manager.apply sha256 l.env op).manager := by
  cases step_cases h with
  | accepted origin heq => exact .inl (by rw [heq])
  | collected heq => exact .inr ⟨.gc, by rw [heq]; rfl⟩
  | moved c hd mv _ _ _ heq =>
    cases hop : mv.op with
    | none => exact .inl (by rw [heq, hop]; rfl)
    | some op => exact .inr ⟨op, by rw [heq, hop]; rfl⟩

theorem step_started {s t : State} {l : Label} (h : (server cfg sha256 limits).step s l t)
    (ref : Nat) (hw : Waiting (s.manager.room ref)) :
    ((t.manager.room ref).started = true ↔
      (s.manager.room ref).started = true ∨ Met (t.manager.room ref)) := by
  rcases step_manager h with heq | ⟨op, heq⟩
  · rw [heq]
    refine ⟨.inl, fun h => h.elim id fun hmet => ?_⟩
    by_contra hnot
    exact hw (by simpa using hnot) hmet
  · rw [heq]
    exact roomStep_started (apply_room sha256 l.env s.manager op ref) hw

theorem waiting_run {ls : List Label} {s : State} (run : Run (server cfg sha256 limits) ls s) :
    ∀ ref, Waiting (s.manager.room ref) := by
  refine run.invariant (fun s => ∀ ref, Waiting (s.manager.room ref)) ?_ ?_
  · rintro s rfl ref
    rw [room_of_ge _ (Nat.zero_le ref)]
    exact waiting_absent
  · intro s l t hw hstep ref hnot hmet
    rw [(step_started hstep ref (hw ref)).2 (.inr hmet)] at hnot
    cases hnot

theorem started_iff_met {ls : List Label} {s : State}
    (run : Run (server cfg sha256 limits) ls s) (ref : Nat) :
    (s.manager.room ref).started = true ↔
      ∃ before after t, ls = before ++ after ∧ Run (server cfg sha256 limits) before t ∧
        Steps (server cfg sha256 limits) t after s ∧ Met (t.manager.room ref) := by
  refine run.latched (fun s => (s.manager.room ref).started = true)
    (fun s => Met (s.manager.room ref)) ?_ fun ls s l t run h =>
      step_started h ref (waiting_run run ref)
  rintro s rfl
  have habsent : (newManager limits).room ref = absent := room_of_ge _ (Nat.zero_le ref)
  rw [habsent]
  exact ⟨by simp [absent], waiting_absent rfl⟩

def flag (b : Bool) : Nat := if b = true then 1 else 0

/-- The transport of slot `i` was told of the start once, or not at all before
it: by its joined message or by a message since. -/
def Informed (history : List Msg) (r : Room) : Prop :=
  ∃ msg after, SinceJoined history msg after ∧
    flag msg.started + after.count .roomStarted = flag r.started

theorem told_once {a b : Bool} {n : Nat} (h : flag a + n = flag b) :
    (b = true ↔ a = true ∨ 1 ≤ n) ∧ ¬(a = true ∧ 1 ≤ n) ∧ n ≤ 1 := by
  unfold flag at h
  cases a <;> cases b <;> simp at h ⊢ <;> omega

theorem count_left (ids : List Nat) : (ids.map leftMsg).count .roomStarted = 0 := by
  simp [List.count_eq_zero, leftMsg]

theorem count_errors {msgs : List Msg} (h : ∀ m ∈ msgs, IsError m) :
    msgs.count .roomStarted = 0 := by
  rw [List.count_eq_zero]
  intro hm
  obtain ⟨err, heq⟩ := h _ hm
  cases heq

theorem announced_count {lost : Nat → Prop} {r r' : Room} {msgs : List Msg}
    (h : Announced lost r r' msgs) :
    flag r.started + msgs.count .roomStarted = flag r'.started := by
  cases h with
  | dropped own ids hown hseat hstart =>
    have hzero : own.count .roomStarted = 0 := by
      rw [List.count_eq_zero]
      intro hm
      obtain ⟨source, payload, heq⟩ := hown _ hm
      cases heq
    rw [List.count_append, hzero, count_left, hstart]
    rfl
  | left i ids hseat hstart => rw [List.count_cons_of_ne (by simp), count_left, hstart]; rfl
  | handed id ok ids msg hmsg hlt hids hseat hstart =>
    have hne : msg ≠ .roomStarted := by
      rintro rfl
      rcases hmsg with h | h <;> cases h
    rw [List.count_cons_of_ne hne, count_left, hstart]
    rfl
  | joined id q now startedNow d₁ d₂ hlen hseat hstart hnow =>
    rw [hstart]
    unfold news
    cases startedNow
    · simp [count_left]
    · simp [List.count_append, count_left, hnow rfl, flag]

theorem informed_step {history : List Msg} {s t : State} {l : Label} {ref i : Nat} {c : Conn}
    (h : Heard s t l ref i c)
    (hold : Attached s ref i c → Informed history (s.manager.room ref)) :
    Informed (history ++ accepted c l.out) (t.manager.room ref) := by
  cases h with
  | nothing heq hatt herr =>
    obtain ⟨msg, after, hsince, hcount⟩ := hold hatt
    refine ⟨msg, _, hsince.append (no_joined_errors herr), ?_⟩
    rw [List.count_append, count_errors herr, heq]
    exact hcount
  | kept hatt _ _ hann =>
    obtain ⟨msg, after, hsince, hcount⟩ := hold hatt
    refine ⟨msg, _, hsince.append (no_joined_announced hann), ?_⟩
    rw [List.count_append, ← announced_count hann, ← hcount, Nat.add_assoc]
  | greeted _ hgreet =>
    generalize accepted c l.out = msgs at hgreet
    cases hgreet with
    | joined q token now ids hmax hlen hseat hstart =>
      refine ⟨_, _, sinceJoined_new history _ (no_joined_left ids), ?_⟩
      rw [count_left, hstart]
      rfl

theorem informed_run {ls : List Label} {s : State} (run : Run (server cfg sha256 limits) ls s) :
    ∀ ref i c, Attached s ref i c → Informed (accepted c (calls ls)) (s.manager.room ref) := by
  refine run.history (fun ls s => ∀ ref i c, Attached s ref i c →
    Informed (accepted c (calls ls)) (s.manager.room ref)) ?_ ?_
  · rintro s rfl ref i c hc
    unfold Attached at hc
    rw [room_of_ge _ (Nat.zero_le ref), slot_absent] at hc
    cases hc
  · intro ls s l t run hinv hstep ref i c hc
    rw [calls_append, calls_singleton, accepted_append]
    exact informed_step (step_heard (disciplined_run run) hstep hc) (hinv ref i c)

/-- The start of every room: when it happens, that it is final, and that each
attached transport has been told of it once if and only if it has happened. -/
theorem start_announced (cfg : Config) (sha256 : String → TokenHash) (limits : Limits)
    (ls : List Label) (s : State) (run : Run (server cfg sha256 limits) ls s) (ref : Nat) :
    ((s.manager.room ref).started = true ↔
      ∃ before after t, ls = before ++ after ∧ Run (server cfg sha256 limits) before t ∧
        Steps (server cfg sha256 limits) t after s ∧ Met (t.manager.room ref)) ∧
    (∀ l t, (server cfg sha256 limits).step s l t →
      ((t.manager.room ref).started = true ↔
        (s.manager.room ref).started = true ∨ Met (t.manager.room ref))) ∧
    (∀ i c, Attached s ref i c → ∃ msg after, SinceJoined (accepted c (calls ls)) msg after ∧
      ((s.manager.room ref).started = true ↔ msg.started = true ∨ .roomStarted ∈ after) ∧
      ¬(msg.started = true ∧ .roomStarted ∈ after) ∧ after.count .roomStarted ≤ 1) := by
  refine ⟨started_iff_met run ref, fun l t h => step_started h ref (waiting_run run ref), ?_⟩
  intro i c hc
  obtain ⟨msg, after, hsince, hcount⟩ := informed_run run ref i c hc
  refine ⟨msg, after, hsince, ?_⟩
  rw [← List.one_le_count_iff]
  exact told_once hcount

/-- A room for two that waits until it is full, filled by two sockets. -/
def fillEvents : List (Event × Env) :=
  let msg := { joinMsg "" with create := some { maxPlayers := 2, waitUntilFull := some true } }
  enterEvents 0 1 "a" msg ++ enterEvents 1 2 "b" msg

theorem start_announced_full : ∃ ls s, Run (server nativeOnly codePoints smallLimits) ls s ∧
    (s.manager.room 0).started = true ∧
    ∃ msg after, SinceJoined (accepted 0 (calls ls)) msg after ∧
      (msg.started = true ∨ .roomStarted ∈ after) ∧
      ¬(msg.started = true ∧ .roomStarted ∈ after) := by
  obtain ⟨s, ls, hexec, hstart, hconn⟩ : ∃ s ls,
      exec nativeOnly codePoints fillEvents ⟨newManager smallLimits, []⟩ = some (s, ls) ∧
        (s.manager.room 0).started = true ∧ Attached s 0 0 0 := ⟨_, _, rfl, rfl, rfl⟩
  have run := exec_run hexec
  obtain ⟨msg, after, hsince, hiff, hone, -⟩ :=
    (start_announced _ _ _ ls s run 0).2.2 0 0 hconn
  exact ⟨ls, s, run, hstart, msg, after, hsince, hiff.1 hstart, hone⟩

end Lobbylink.Server.Started
