import Lobbylink.Server.Audience

/-! Who may take a seat. A free slot goes to a join or a claim, an occupied one to
the holder of its token or, after enough silence, to a claim; only the player
itself gives a slot up. Silence is measured on the whole run. -/
namespace Lobbylink.Server.Seats
open Protocol Lobby Registry Policy Fanout Operations Effects Slots Announcements Websocket
  Sessions Audience Lib.Runs

variable {sha256 : String → TokenHash} {env : Env}

/-- Slot `i` is the free slot of the lowest index. -/
def LowestFree (r : Room) (i : Nat) : Prop :=
  i < r.slots.length ∧ (r.slot i).occupied = false ∧ ∀ j, j < i → (r.slot j).occupied = true

/-- The operation may take the free slot `i`. -/
def MayTake (r : Room) (i : Nat) (op : Op) : Prop :=
  (∃ appID code token create conn, op = .join appID code token create conn ∧
    (r.started = false ∨ r.opts.allowLateJoin = true) ∧ LowestFree r i) ∨
  (∃ appID code conn, op = .claim appID code i conn ∧ r.opts.allowReplacement = true ∧
    r.opts.reconnectPolicy.allowsClaim = true)

/-- The operation presents the token of slot `i`. -/
def MayResume (sha256 : String → TokenHash) (r : Room) (i : Nat) (op : Op) : Prop :=
  ∃ appID code token create conn, op = .join appID code token create conn ∧ token ≠ "" ∧
    r.opts.allowReconnect = true ∧ (r.slot i).hasToken = true ∧
    (r.slot i).tokenHash = sha256 token

/-- The operation claims slot `i`, and the room lets it. -/
def MayReplace (r : Room) (i : Nat) (op : Op) : Prop :=
  ∃ appID code conn, op = .claim appID code i conn ∧ r.opts.allowReplacement = true ∧
    r.opts.reconnectPolicy.allowsClaim = true

theorem opAct_join {op : Op} {token : String} {conn : Conn}
    (h : opAct op = some (.join token conn)) :
    ∃ appID code create, op = .join appID code token create conn := by
  cases op <;> cases h
  exact ⟨_, _, _, rfl⟩

theorem opAct_claim {op : Op} {playerID : Int} {conn : Conn}
    (h : opAct op = some (.claim playerID conn)) :
    ∃ appID code, op = .claim appID code playerID conn := by
  cases op <;> cases h
  exact ⟨_, _, rfl⟩

theorem slotStep_taken {r : Room} {a : Act} {o : Outcome} {i : Nat} {t : Slot} {op : Op}
    (h : SlotStep sha256 env r a o i t) (hop : opAct op = some a)
    (hwas : (r.slot i).occupied = false) (hnow : t.occupied = true) :
    o = .seated i ∧ MayTake r i op := by
  induction h with
  | kept | seen => exact absurd (hwas.symm.trans hnow) (by simp)
  | freed => cases hnow
  | resumed _ _ _ _ _ _ _ _ hfind =>
    exact absurd (hwas.symm.trans (findToken_occupied hfind)) (by simp)
  | replaced _ _ _ _ _ hocc => exact absurd (hwas.symm.trans hocc) (by simp)
  | dropped _ _ ih => exact ih hnow
  | occupied conn token ho _ _ _ hwhy =>
    refine ⟨ho, ?_⟩
    rcases hwhy with ⟨tok, rfl, hlate, hfree⟩ | ⟨rfl, hallow, hpolicy⟩
    · obtain ⟨appID, code, create, rfl⟩ := opAct_join hop
      refine .inl ⟨appID, code, tok, create, conn, rfl, ?_, freeSlot_lt hfree⟩
      cases hs : r.started with
      | false => exact .inl rfl
      | true => exact .inr (hlate hs)
    · obtain ⟨appID, code, rfl⟩ := opAct_claim hop
      exact .inr ⟨appID, code, conn, rfl, hallow, hpolicy⟩

/-- A slot becomes occupied only by an operation that may take it. -/
theorem roomStep_taken {m : Manager} {op : Op} {res : Result} {ref i : Nat}
    (h : RoomStep sha256 env m op res ref) (hwas : ((m.room ref).slot i).occupied = false)
    (hnow : ((res.manager.room ref).slot i).occupied = true) :
    res.reply = .session (.ok ⟨ref, i⟩) ∧ ∃ r, Found m ref env.now r ∧ MayTake r i op := by
  cases h with
  | idle heq =>
    rw [heq] at hnow
    exact absurd (hwas.symm.trans hnow) (by simp)
  | closed _ heq =>
    rw [heq, slot_closed] at hnow
    exact absurd (hwas.symm.trans hnow) (by simp)
  | does r a o swept out hfound hop hdoes hans =>
    rw [← found_slot hfound] at hwas
    obtain ⟨ho, hmay⟩ := slotStep_taken (does_slot hdoes i) hop hwas hnow
    exact ⟨(hans.seated ⟨ref, i⟩).2 ⟨ho, rfl⟩, r, hfound, hmay⟩

/-- The transport `old`, if one was attached to slot `i`, was kicked once, before
anything else was said, and is no longer attached. -/
def Displaced (r r' : Room) (i : Nat) (out : List Out) : Prop :=
  ∀ old, (r.slot i).conn = some old → ∃ code text rest,
    (code = .superseded ∨ code = .replaced) ∧ out = .kick old code text :: rest ∧
    kicks old rest = [] ∧ accepted old rest = [] ∧ ∀ j, (r'.slot j).conn ≠ some old

theorem acquired_displaced {r q r' : Room} {i : Nat} {conn : Conn} {token : String}
    {startedNow ok : Bool} {announced : Msg} {out : List Out} {d₁ d₂ : List Nat} {f : Slot → Slot}
    (hacq : Acquired env token i conn q startedNow announced r' out ok d₁ d₂) (hd : Distinct r)
    (hfree : ∀ j, (r.slot j).conn ≠ some conn)
    (hq : ∀ j, q.slot j = if j = i then f (r.slot i) else r.slot j)
    (hf : (f (r.slot i)).conn = some conn) {code : ErrCode} (text : String)
    (hcode : code = .superseded ∨ code = .replaced) :
    Displaced r r' i (displacedKick (r.slot i).conn code text ++ out) := by
  intro old hold
  have hgone : ∀ j, (q.slot j).conn ≠ some old := by
    intro j hj
    rw [hq] at hj
    split_ifs at hj with hji
    · rw [hf] at hj
      exact hfree i (hold.trans hj.symm)
    · exact hji (hd j i old hj hold)
  have hdel := (hacq.heard (distinct_taken hd hfree hq hf)).others old hgone
  refine ⟨code, text, out, hcode, by rw [hold]; rfl, hdel.2, hdel.1, fun j hj => ?_⟩
  rw [hacq.room, slot_emptyAt] at hj
  exact hgone j (conn_detachAll.1 hj).2

/-- An occupied slot is answered to the holder of its token or to a claim. -/
theorem does_handed {r r' : Room} {a : Act} {i : Nat} {out : List Out} {op : Op}
    (h : Does sha256 env r a (.seated i) r' out) (hop : opAct op = some a) (hd : Distinct r)
    (hfree : ∀ d, joining a = some d → ∀ j, (r.slot j).conn ≠ some d)
    (hocc : (r.slot i).occupied = true) :
    (MayResume sha256 r i op ∨ MayReplace r i op ∧
      r.opts.claimAfter ≤ Time.sub env.now (r.slot i).lastSeenAt) ∧ Displaced r r' i out := by
  cases h with
  | stale _ _ _ _ _ _ ho => rcases ho with ho | ho <;> cases ho
  | occupied _ _ _ _ _ _ _ _ _ _ _ hfreed => exact absurd (hfreed.symm.trans hocc) (by simp)
  | resumed _ tok token conn _ out ok drops hdes hne hallow hfind ht hacq =>
    obtain ⟨appID, code, create, rfl⟩ := opAct_join hop
    obtain ⟨hlt, hold⟩ := findToken_lt sha256 hfind
    simp only [Slot.holdsToken, Bool.and_eq_true, beq_iff_eq] at hold
    exact ⟨.inl ⟨appID, code, tok, create, conn, rfl, hne, hallow, hold.1.2, hold.2⟩,
      acquired_displaced hacq hd (hfree conn rfl) (slot_written hlt _ _) rfl _ (.inl rfl)⟩
  | replaced _ token conn _ out ok drops hdes _ hallow hpolicy hsilent ht hacq =>
    obtain ⟨appID, code, rfl⟩ := opAct_claim hop
    exact ⟨.inr ⟨⟨appID, code, conn, rfl, hallow, hpolicy⟩, hsilent⟩,
      acquired_displaced hacq hd (hfree conn rfl) (slot_written (lt_of_occupied hocc) _ _) rfl _
        (.inr rfl)⟩

theorem slotStep_lastSeenAt {r : Room} {a : Act} {o : Outcome} {i : Nat} {t : Slot}
    (h : SlotStep sha256 env r a o i t) :
    t.lastSeenAt = (r.slot i).lastSeenAt ∨ t.lastSeenAt = env.now := by
  induction h with
  | kept | freed => exact .inl rfl
  | seen | resumed | occupied | replaced => exact .inr rfl
  | dropped _ _ ih => exact ih

theorem roomStep_lastSeenAt {m : Manager} {op : Op} {res : Result} {ref i : Nat}
    (h : RoomStep sha256 env m op res ref) :
    ((res.manager.room ref).slot i).lastSeenAt = ((m.room ref).slot i).lastSeenAt ∨
      ((res.manager.room ref).slot i).lastSeenAt = env.now := by
  cases h with
  | idle heq => exact .inl (by rw [heq])
  | closed _ heq =>
    rw [heq, slot_closed]
    exact .inl rfl
  | does r a o swept out hfound _ hdoes =>
    rw [← found_slot hfound]
    exact slotStep_lastSeenAt (does_slot hdoes i)

theorem touch_lastSeenAt (sha256 : String → TokenHash) (env : Env) {m : Manager} {ref i : Nat}
    {c : Conn} (hs : Sound (m.room ref)) (hc : ((m.room ref).slot i).conn = some c) :
    (((m.apply sha256 env (.touch ⟨ref, i⟩ c)).manager.room ref).slot i).lastSeenAt =
      env.now := by
  have heff := apply_effect sha256 env m (.touch ⟨ref, i⟩ c)
  generalize m.apply sha256 env (.touch ⟨ref, i⟩ c) = res at heff
  cases heff with
  | declined _ _ _ hno => exact absurd (Reaches.touch ⟨ref, i⟩ c) (hno _ _)
  | created _ _ _ _ _ _ _ hmake => cases hmake
  | reached at' a o r' out reply hreach hdoes =>
    cases hreach
    have hlt := destroyed_absent m (hs i c hc).2
    simp only [room_setRoom, hlt, and_self, if_true]
    cases hdoes with
    | stale _ _ _ _ hsess hnot =>
      cases hsess
      exact absurd (hs.current hc) hnot
    | barred _ hnone => cases hnone
    | rejected _ hnone => cases hnone
    | touched _ _ hcur =>
      rw [slot_refreshed, if_pos ⟨rfl, lt_of_conn hcur.2.2⟩]
      rfl
    | occupied _ _ _ _ _ _ _ _ _ _ _ _ _ hwhy => rcases hwhy with ⟨_, ⟨⟩, -⟩ | ⟨⟨⟩, -⟩

variable {cfg : Config} {limits : Limits}

/-- The step put a transport on slot `i`, or read a text frame of the transport
attached to it. -/
def Refreshes (s : State) (l : Label) (ref i : Nat) : Prop :=
  l.reply = .session (.ok ⟨ref, i⟩) ∨ ∃ c data, l.event = .text c data ∧ Attached s ref i c

theorem refreshes_lastSeenAt {s t : State} {l : Label} (hs : Disciplined s)
    (hstep : (server cfg sha256 limits).step s l t) {ref i : Nat} (h : Refreshes s l ref i) :
    ((t.manager.room ref).slot i).lastSeenAt = l.env.now := by
  rcases h with hreply | ⟨c, data, hevent, hc⟩
  · cases step_acts hs hstep with
    | idle _ _ hnone => exact absurd (hreply.symm.trans hnone) (by simp)
    | calls op _ _ _ ht _ hr =>
      obtain ⟨r, a, swept, out, -, -, hdoes, -⟩ :=
        effect_seated (apply_effect sha256 l.env s.manager op) (hr.symm.trans hreply)
      obtain ⟨token, -, htaken, -⟩ := does_seated hdoes
      rw [ht]
      exact htaken.lastSeenAt
  · cases step_cases hstep with
    | accepted origin _ hconn => rw [hevent] at hconn; cases hconn
    | collected _ hconn => rw [hevent] at hconn; cases hconn
    | moved d h mv hh hconn hmv heq =>
      rw [hevent] at hconn hmv
      cases hconn
      obtain ⟨h', hh', -, hsess⟩ := hs.holds ref i c hc
      obtain rfl : h = h' := Option.some.inj (hh.symm.trans hh')
      simp only [Handler.move] at hmv
      split at hmv <;> cases hmv
      rw [heq, hsess]
      exact touch_lastSeenAt sha256 l.env (hs.sound ref) hc

theorem step_lastSeenAt {s t : State} {l : Label} (hs : Disciplined s)
    (hstep : (server cfg sha256 limits).step s l t) (ref i : Nat) :
    ((t.manager.room ref).slot i).lastSeenAt = ((s.manager.room ref).slot i).lastSeenAt ∨
      ((t.manager.room ref).slot i).lastSeenAt = l.env.now := by
  cases step_acts hs hstep with
  | idle ht => exact .inl (by rw [ht])
  | calls op _ _ _ ht =>
    rw [ht]
    exact roomStep_lastSeenAt (apply_room sha256 l.env s.manager op ref)

theorem seen_since {s u t : State} {l : Label} {after : List Label} (hs : Disciplined s)
    (hstep : (server cfg sha256 limits).step s l u)
    (steps : Steps (server cfg sha256 limits) u after t)
    (hclock : ∀ l' ∈ after, l.env.now ≤ l'.env.now) {ref i : Nat} (h : Refreshes s l ref i) :
    l.env.now ≤ ((t.manager.room ref).slot i).lastSeenAt := by
  have htimed : Steps ((server cfg sha256 limits).restrict fun _ l' => l.env.now ≤ l'.env.now)
      u after t := steps.restrict fun l' hl' _ => hclock l' hl'
  have hlater := htimed.invariant
    (fun v => Disciplined v ∧ l.env.now ≤ ((v.manager.room ref).slot i).lastSeenAt) ?_
    ⟨disciplined_step hs hstep, Int.le_of_eq (refreshes_lastSeenAt hs hstep h).symm⟩
  · exact hlater.2
  · rintro v l' w ⟨hv, hseen⟩ ⟨hle, hstep'⟩
    refine ⟨disciplined_step hv hstep', ?_⟩
    rcases step_lastSeenAt hv hstep' ref i with heq | heq
    · rwa [heq]
    · rwa [heq]

/-- Nothing has refreshed slot `i` for at least `d` when step `l` is taken. -/
def Silent (cfg : Config) (sha256 : String → TokenHash) (limits : Limits) (ls : List Label)
    (s : State) (l : Label) (d : Duration) (ref i : Nat) : Prop :=
  ∀ before after u v l', ls = before ++ l' :: after →
    Run (server cfg sha256 limits) before u → (server cfg sha256 limits).step u l' v →
    Steps (server cfg sha256 limits) v after s → Refreshes u l' ref i →
    l'.env.now + d ≤ l.env.now

def Timely (ls : List Label) : Prop := ls.Pairwise fun a b => a.env.now ≤ b.env.now

theorem sub_bound {now seen before d : Int} (h : d ≤ Time.sub now seen) (hseen : before ≤ seen)
    (hnow : before ≤ now) : before + d ≤ now := by
  have hsub : d ≤ max (-2 ^ 63) (min (2 ^ 63 - 1) (now - seen)) := h
  omega

theorem silent_of_lastSeenAt {ls : List Label} {s : State} {l : Label} {d : Duration}
    {ref i : Nat} (hclock : Timely (ls ++ [l]))
    (h : d ≤ Time.sub l.env.now ((s.manager.room ref).slot i).lastSeenAt) :
    Silent cfg sha256 limits ls s l d ref i := by
  rintro before after u v l' rfl hu hstep steps hrefresh
  unfold Timely at hclock
  rw [List.append_assoc, List.pairwise_append] at hclock
  have hlater := (List.pairwise_cons.1 hclock.2.1).1
  refine sub_bound h (seen_since (disciplined_run hu) hstep steps (fun l' hl' => ?_) hrefresh)
    (hlater l (by simp))
  exact hlater l' (List.mem_append_left _ hl')

def Occupied (s : State) (ref i : Nat) : Prop := ((s.manager.room ref).slot i).occupied = true

instance (s : State) (ref i : Nat) : Decidable (Occupied s ref i) :=
  inferInstanceAs (Decidable (_ = true))

theorem occupied_iff_not {s : State} {ref i : Nat} :
    ¬Occupied s ref i ↔ ((s.manager.room ref).slot i).occupied = false := by
  unfold Occupied
  rw [Bool.not_eq_true]

theorem step_handed {ls : List Label} {s t : State} {l : Label} (hs : Disciplined s)
    (hstep : (server cfg sha256 limits).step s l t) (hclock : Timely (ls ++ [l])) {ref i : Nat}
    (hreply : l.reply = .session (.ok ⟨ref, i⟩)) (hocc : Occupied s ref i) :
    ∃ op, l.op = some op ∧
      (MayResume sha256 (s.manager.room ref) i op ∨ MayReplace (s.manager.room ref) i op ∧
        Silent cfg sha256 limits ls s l (s.manager.room ref).opts.claimAfter ref i) ∧
      Displaced (s.manager.room ref) (t.manager.room ref) i l.out := by
  cases step_acts hs hstep with
  | idle _ _ hnone => exact absurd (hreply.symm.trans hnone) (by simp)
  | calls op hop hl _ ht hout hr =>
    obtain ⟨r, a, swept, out, hfound, hact, hdoes, -, hquiet, hres⟩ :=
      effect_seated (apply_effect sha256 l.env s.manager op) (hr.symm.trans hreply)
    have hlt : ref < s.manager.heap.length := by
      by_contra hge
      unfold Occupied at hocc
      rw [room_of_ge _ (Nat.le_of_not_lt hge), slot_absent] at hocc
      cases hocc
    obtain rfl : r = s.manager.room ref := by
      rcases hfound with ⟨-, h⟩ | ⟨h, -⟩
      · exact h
      · exact absurd hlt (h ▸ Nat.lt_irrefl _)
    obtain ⟨hwhy, hdisp⟩ := does_handed hdoes hact (hs.distinct ref)
      (fun d hd j => loose_act hl hact d hd ref j) hocc
    refine ⟨op, hop, ?_, ?_⟩
    · rcases hwhy with h | ⟨h, hsub⟩
      · exact .inl h
      · exact .inr ⟨h, silent_of_lastSeenAt hclock hsub⟩
    · rw [hout, hres, hquiet hlt, ht]
      exact hdisp

/-- Every change of a seat is justified. -/
theorem seats_justified (cfg : Config) (sha256 : String → TokenHash) (limits : Limits)
    (ls : List Label) (s t : State) (l : Label) (run : Run (server cfg sha256 limits) ls s)
    (hstep : (server cfg sha256 limits).step s l t) (hclock : Timely (ls ++ [l])) (ref i : Nat) :
    (¬Occupied s ref i → Occupied t ref i →
      l.reply = .session (.ok ⟨ref, i⟩) ∧ ∃ r op, Found s.manager ref l.env.now r ∧
        l.op = some op ∧ MayTake r i op) ∧
    (l.reply = .session (.ok ⟨ref, i⟩) → Occupied s ref i → ∃ op, l.op = some op ∧
      (MayResume sha256 (s.manager.room ref) i op ∨ MayReplace (s.manager.room ref) i op ∧
        Silent cfg sha256 limits ls s l (s.manager.room ref).opts.claimAfter ref i) ∧
      Displaced (s.manager.room ref) (t.manager.room ref) i l.out) ∧
    (∀ c, Attached t ref i c → ¬Attached s ref i c →
      l.event.conn = some c ∧ l.reply = .session (.ok ⟨ref, i⟩)) ∧
    (Occupied s ref i → ¬Occupied t ref i →
      ∃ conn, l.op = some (.leave ⟨ref, i⟩ conn) ∧ Attached s ref i conn) ∧
    ((s.manager.room ref).started = true → (s.manager.room ref).opts.allowLateJoin = false →
      ¬Occupied s ref i → Occupied t ref i →
      ∃ appID code conn, l.op = some (.claim appID code i conn)) := by
  have hs := disciplined_run run
  have htake : ¬Occupied s ref i → Occupied t ref i →
      l.reply = .session (.ok ⟨ref, i⟩) ∧ ∃ r op, Found s.manager ref l.env.now r ∧
        l.op = some op ∧ MayTake r i op := by
    intro hwas hnow
    cases step_acts hs hstep with
    | idle ht =>
      unfold Occupied at hnow
      rw [ht] at hnow
      exact absurd hnow hwas
    | calls op hop _ _ ht _ hr =>
      unfold Occupied at hnow
      rw [ht] at hnow
      obtain ⟨hreply, r, hfound, hmay⟩ := roomStep_taken
        (apply_room sha256 l.env s.manager op ref) (occupied_iff_not.1 hwas) hnow
      exact ⟨hr.trans hreply, r, op, hfound, hop, hmay⟩
  refine ⟨htake, step_handed hs hstep hclock, ?_, ?_, ?_⟩
  · intro c hc hnot
    unfold Attached at hc
    cases step_acts hs hstep with
    | idle ht =>
      rw [ht] at hc
      exact absurd hc hnot
    | calls op _ _ hconn ht _ hr =>
      rw [ht] at hc
      rcases roomStep_conn (apply_room sha256 l.env s.manager op ref) hc with h | ⟨hj, hreply⟩
      · exact absurd h hnot
      · exact ⟨hconn c hj, hr.trans hreply⟩
  · intro hwas hnow
    cases step_acts hs hstep with
    | idle ht =>
      unfold Occupied at hnow
      rw [ht] at hnow
      exact absurd hwas hnow
    | calls op hop _ _ ht =>
      rw [occupied_iff_not, ht] at hnow
      obtain ⟨conn, rfl, hcur⟩ :=
        effect_freed (apply_effect sha256 l.env s.manager op) hwas hnow
      exact ⟨conn, hop, hcur.2.2⟩
  · intro hstart hlate hwas hnow
    obtain ⟨-, r, op, hfound, hop, hmay⟩ := htake hwas hnow
    obtain rfl : r = s.manager.room ref := by
      rcases hfound with ⟨-, h⟩ | ⟨h, -⟩
      · exact h
      · rw [room_of_ge _ (Nat.le_of_eq h.symm)] at hstart
        cases hstart
    rcases hmay with ⟨_, _, _, _, _, -, hfree, -⟩ | ⟨appID, code, conn, rfl, -⟩
    · rcases hfree with h | h
      · exact absurd (hstart.symm.trans h) (by simp)
      · exact absurd (hlate.symm.trans h) (by simp)
    · exact ⟨appID, code, conn, hop⟩

instance (ls : List Label) : Decidable (Timely ls) :=
  inferInstanceAs (Decidable (List.Pairwise _ ls))

def claimMsg (playerID : Int) : ClientMessage where
  type := .claimSlot
  code := "ROOM"
  playerID := some playerID

/-- A player takes a slot and falls silent; a second socket asks for the slot. -/
def claimEvents : List (Event × Env) :=
  enterEvents 0 1 "a" (joinMsg "") ++
    [(.accept "", calm 2 ""), (.text 1 (.ok (claimMsg 0)), calm (50 * second) "")]

theorem seats_justified_claim : ∃ ls s l t, Run (server nativeOnly codePoints smallLimits) ls s ∧
    (server nativeOnly codePoints smallLimits).step s l t ∧ Attached s 0 0 0 ∧
    Attached t 0 0 1 ∧ Silent nativeOnly codePoints smallLimits ls s l (40 * second) 0 0 := by
  obtain ⟨s, ls, hexec, hocc, hold, hafter, l, t, hnext, hclock, hreply, hop, hnew⟩ : ∃ s ls,
      exec nativeOnly codePoints claimEvents ⟨newManager smallLimits, []⟩ = some (s, ls) ∧
        Occupied s 0 0 ∧ Attached s 0 0 0 ∧ (s.manager.room 0).opts.claimAfter = 40 * second ∧
        ∃ l t, s.next nativeOnly codePoints (.proceed 1) (calm (50 * second) "b") = some (t, l) ∧
          Timely (ls ++ [l]) ∧ l.reply = .session (.ok ⟨0, 0⟩) ∧
          l.op = some (.claim "" "ROOM" 0 1) ∧ Attached t 0 0 1 :=
    ⟨_, _, rfl, rfl, rfl, rfl, _, _, rfl, by decide, rfl, rfl, rfl⟩
  have run := exec_run hexec
  have hstep : (server nativeOnly codePoints smallLimits).step s l t := by
    obtain ⟨hevent, henv⟩ := next_label hnext
    change s.next _ _ l.event l.env = _
    rw [hevent, henv, hnext]
  refine ⟨ls, s, l, t, run, hstep, hold, hnew, ?_⟩
  obtain ⟨op, hop', hwhy, -⟩ :=
    (seats_justified _ _ _ ls s t l run hstep hclock 0 0).2.1 hreply hocc
  obtain rfl := Option.some.inj (hop.symm.trans hop')
  rcases hwhy with ⟨_, _, _, _, _, h, -⟩ | ⟨-, hsilent⟩
  · cases h
  · rwa [hafter] at hsilent

end Lobbylink.Server.Seats
