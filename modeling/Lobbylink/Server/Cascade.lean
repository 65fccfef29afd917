import Lobbylink.Server.Operations

/-! The slow-consumer cascade as a whole: it ends, and everyone who is left was told
the same. `Ends` is the loop of the source, without a bound on its passes. -/
namespace Lobbylink.Server.Cascade
open Protocol Lobby Fanout Operations

/-- `for len(dead) > 0`, entered with `dead` in `s`, ends in `u`. -/
inductive Ends (env : Env) : List Nat → Call → Call → Prop where
  | done (s : Call) : Ends env [] s s
  | pass {dead next : List Nat} {s t u : Call} : dead ≠ [] →
      announceLoop env dead s = (t, next) → Ends env next t u → Ends env dead s u

theorem ends_announceAll (env : Env) (fuel : Nat) (dead : List Nat) (s : Call)
    (hd : Distinct s.room)
    (hfuel : dead ≠ [] → ∀ l, Droppable s.room l → l.length < fuel) :
    Ends env dead s (announceAll env fuel dead s) := by
  induction fuel generalizing dead s with
  | zero =>
    have hdead : dead = [] := by
      by_contra hne
      exact absurd (hfuel hne [] ⟨List.nodup_nil, by simp⟩) (Nat.lt_irrefl 0)
    subst hdead
    exact .done s
  | succ fuel ih =>
    cases dead with
    | nil => exact .done s
    | cons id rest =>
      obtain ⟨out, next, heq, -, hdel⟩ := announceLoop_spec env (id :: rest) s
      have hnext := hdel hd
      have hends : Ends env next ⟨detachAll s.room next, s.out ++ out⟩
          (announceAll env fuel next ⟨detachAll s.room next, s.out ++ out⟩) := by
        apply ih next ⟨detachAll s.room next, s.out ++ out⟩ (hd.detachAll next)
        intro hne l hl
        have hlen := hfuel (by simp) _ (Droppable.append ⟨hnext.nodup, hnext.dropped⟩ hl)
        have hpos := List.length_pos_of_ne_nil hne
        rw [List.length_append] at hlen
        omega
      have hall : announceAll env (fuel + 1) (id :: rest) s =
          announceAll env fuel next ⟨detachAll s.room next, s.out ++ out⟩ := by
        simp only [announceAll, heq]
      rw [hall]
      exact .pass (by simp) heq hends

/-- The broadcast of `msg` to all but `except` ends in `t`. -/
def Terminates (env : Env) (msg : Msg) (except : Option Nat) (s t : Call) : Prop :=
  ∃ dead first last, sendAllLocked env msg except s = (first, dead) ∧
    Ends env dead first last ∧ t = last.updateEmpty (env.clock last.out.length)

theorem broadcastLocked_terminates (env : Env) (msg : Msg) (except : Option Nat) (s : Call)
    (hd : Distinct s.room) :
    Terminates env msg except s (broadcastLocked env msg except s) := by
  obtain ⟨out, dead, heq, -, -⟩ := sendAllLocked_spec env msg except s
  have hends : Ends env dead ⟨detachAll s.room dead, s.out ++ out⟩
      (announceAll env ((detachAll s.room dead).slots.length + 1) dead
        ⟨detachAll s.room dead, s.out ++ out⟩) := by
    apply ends_announceAll
    · exact hd.detachAll dead
    · intro _ l hl
      exact Nat.lt_succ_of_le hl.length_le
  refine ⟨dead, _, _, heq, hends, ?_⟩
  simp only [broadcastLocked, heq]

/-- What a broadcast of `msg` leaves behind: `drops` are the slots it detached, in the
order in which they were announced. -/
structure Told (env : Env) (msg : Msg) (except : Option Nat) (s t : Call) (out : List Out)
    (drops : List Nat) : Prop where
  terminates : Terminates env msg except s t
  calls : t.out = s.out ++ out
  nodup : drops.Nodup
  detached : ∀ i, i ∈ drops ↔ (s.room.slot i).conn.isSome ∧ (t.room.slot i).conn = none
  heard : ∀ i c, (t.room.slot i).conn = some c → (s.room.slot i).conn = some c ∧
    accepted c out = told msg except i ++ drops.map leftMsg ∧ kicks c out = [] ∧
    ∀ m, .enqueue c m false ∉ out
  kicked : ∀ i ∈ drops, ∀ c, (s.room.slot i).conn = some c → kicks c out = [.slowConsumer]
  empty : ∀ i, (s.room.slot i).conn = none → t.room.slot i = s.room.slot i
  kept : ∀ i, (t.room.slot i).occupied = (s.room.slot i).occupied ∧
    (t.room.slot i).hasToken = (s.room.slot i).hasToken ∧
    (t.room.slot i).tokenHash = (s.room.slot i).tokenHash
  emptySince : t.room.emptySince = 0 ↔ ∃ i, (t.room.slot i).conn.isSome

theorem emptySince_updateEmpty (r : Room) {t : Time} (ht : t ≠ 0) :
    (r.updateEmpty t).emptySince = 0 ↔ ∃ i, (r.slot i).conn.isSome := by
  have hany : r.slots.any (·.conn.isSome) = true ↔ ∃ i, (r.slot i).conn.isSome := by
    rw [List.any_eq_true]
    constructor
    · rintro ⟨s, hs, hconn⟩
      obtain ⟨i, hi, rfl⟩ := List.getElem_of_mem hs
      exact ⟨i, by rwa [slot_of_lt r hi]⟩
    · rintro ⟨i, hi⟩
      obtain ⟨c, hc⟩ := Option.isSome_iff_exists.1 hi
      have hlt := lt_of_conn hc
      exact ⟨r.slot i, by rw [slot_of_lt r hlt]; exact List.getElem_mem hlt, hi⟩
  rw [← hany]
  unfold Room.updateEmpty
  split_ifs with h hzero
  · simp [h]
  · simp [h, ht]
  · simpa [h, Time.isZero] using hzero

/-- A broadcast ends and tells every survivor the same. -/
theorem cascade_told (env : Env) (msg : Msg) (except : Option Nat) (s : Call)
    (hd : Distinct s.room) (hclock : ∀ k, env.clock k ≠ 0) :
    ∃ out drops, Told env msg except s (broadcastLocked env msg except s) out drops := by
  have hends := broadcastLocked_terminates env msg except s hd
  obtain ⟨_, _, last, -, -, hlast⟩ := broadcastLocked_terminates env msg except s hd
  have hempty : (broadcastLocked env msg except s).room.emptySince = 0 ↔
      ∃ i, ((broadcastLocked env msg except s).room.slot i).conn.isSome := by
    rw [hlast]
    simp only [Call.updateEmpty, slot_updateEmpty]
    exact emptySince_updateEmpty last.room (hclock last.out.length)
  obtain ⟨out, drops, t, heq, -, -, hdel⟩ := broadcastLocked_spec env msg except s
  have hto := hdel hd
  rw [heq] at hends hempty ⊢
  refine ⟨out, drops, hends, rfl, hto.nodup, ?_, ?_, ?_, ?_, ?_, hempty⟩
  · intro i
    simp only [slot_updateEmpty]
    constructor
    · intro hi
      refine ⟨hto.dropped i hi, ?_⟩
      rw [slot_detachAll, if_pos hi]
      rfl
    · rintro ⟨hsome, hnone⟩
      by_contra hi
      rw [slot_detachAll, if_neg hi] at hnone
      simp [hnone] at hsome
  · intro i c hc
    rw [slot_updateEmpty, conn_detachAll] at hc
    obtain ⟨hi, hc⟩ := hc
    obtain ⟨haccepted, hkicks⟩ := hto.stays i c hi hc
    exact ⟨hc, haccepted, hkicks, fun m hm => hto.answered c m hm hkicks⟩
  · intro i hi c hc
    exact (hto.goes i hi c hc).2
  · intro i hnone
    rw [slot_updateEmpty, slot_detachAll, clearConn_of_none hnone, ite_self]
  · intro i
    rw [slot_updateEmpty, slot_detachAll]
    split_ifs <;> exact ⟨rfl, rfl, rfl⟩

/-- Three players of which the first takes nothing and the second only the message. -/
def trio : Call := ⟨{
  destroyed := false
  code := "code"
  appID := ""
  opts := ⟨3, by decide, false, true, true, false, .tokenOnly, 0⟩
  started := true
  slots := [Slot.occupiedBy 0 [1] 1, Slot.occupiedBy 1 [2] 1, Slot.occupiedBy 2 [3] 1]
  slots_length := rfl
  createdAt := 1
  emptySince := 0
  lastActivity := 1 }, []⟩

def trioEnv : Env := ⟨2, none, fun k => k ∉ [0, 4], fun _ => 3⟩

theorem distinct_trio : Distinct trio.room := by
  intro i j c hi hj
  have hslots : ∀ i < 3, ∀ j < 3, (trio.room.slot i).conn = (trio.room.slot j).conn → i = j := by
    decide
  exact hslots i (lt_of_conn hi) j (lt_of_conn hj) (hi.trans hj.symm)

theorem cascade_told_trio : ∃ out drops, Told trioEnv .roomStarted none trio
    (broadcastLocked trioEnv .roomStarted none trio) out drops :=
  cascade_told trioEnv .roomStarted none trio distinct_trio fun _ => (by decide : (3 : Time) ≠ 0)

end Lobbylink.Server.Cascade
