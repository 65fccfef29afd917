import Lobbylink.Server.Streams

/-! The collector, exactly: which rooms a sweep removes and whom it kicks. -/
namespace Lobbylink.Server.Sweeps
open Protocol Lobby Registry Fanout Operations Effects Slots Audience Streams

open Classical in
/-- What a transport hears of a sweep that removes its room. -/
noncomputable def eviction (evicted : Prop) : List Item :=
  if evicted then [.kicked .roomExpired] else []

@[simp] theorem eviction_pos {p : Prop} (h : p) : eviction p = [.kicked .roomExpired] := if_pos h

@[simp] theorem eviction_neg {p : Prop} (h : ¬p) : eviction p = [] := if_neg h

theorem stream_displace (c : Conn) (s : Call) (i : Nat) :
    stream c (s.displace i .roomExpired "room expired").out =
      stream c s.out ++ eviction (seating s.room i = some c) := by
  unfold Call.displace seating
  cases (s.room.slot i).conn with
  | none => simp
  | some d =>
    by_cases hd : d = c
    · simp [Call.kick, Call.modifySlot, hd]
    · simp [Call.kick, Call.modifySlot, hd]

theorem expireLoop_stream (c : Conn) (l : List Nat) (s : Call) (hf : OneEach (seating s.room)) :
    stream c (expireLoop l s).out =
      stream c s.out ++ eviction (∃ i ∈ l, seating s.room i = some c) := by
  induction l generalizing s with
  | nil => simp [expireLoop]
  | cons i rest ih =>
    obtain ⟨-, -, -, hroom⟩ := displace_serves s i .roomExpired "room expired"
    rw [expireLoop, ih _ (hroom ▸ hf.vacate i), stream_displace, hroom, List.append_assoc]
    congr 1
    by_cases hi : seating s.room i = some c
    · have hnone : ¬∃ j ∈ rest, vacate (seating s.room) i j = some c := by
        rintro ⟨j, -, hj⟩
        unfold vacate at hj
        split_ifs at hj with hji
        exact hji (hf j i c hj hi)
      rw [eviction_pos hi, eviction_neg hnone, eviction_pos ⟨i, List.mem_cons_self, hi⟩,
        List.append_nil]
    · have hsame : (∃ j ∈ rest, vacate (seating s.room) i j = some c) ↔
          ∃ j ∈ i :: rest, seating s.room j = some c := by
        constructor
        · rintro ⟨j, hj, hc⟩
          unfold vacate at hc
          split_ifs at hc
          exact ⟨j, List.mem_cons_of_mem _ hj, hc⟩
        · rintro ⟨j, hj, hc⟩
          have hji : j ≠ i := fun h => hi (h ▸ hc)
          exact ⟨j, List.mem_of_ne_of_mem hji hj, by rwa [vacate_of_ne hji]⟩
      rw [eviction_neg hi, List.nil_append, hsame]

theorem expireRoom_stream (c : Conn) (s : Call) (hf : OneEach (seating s.room)) :
    stream c (expireRoom s).out = stream c s.out ++ eviction (∃ i, seating s.room i = some c) := by
  have hsame : (∃ i ∈ List.range s.room.slots.length, seating s.room i = some c) ↔
      ∃ i, seating s.room i = some c :=
    ⟨fun ⟨i, _, h⟩ => ⟨i, h⟩, fun ⟨i, h⟩ => ⟨i, List.mem_range.2 (lt_of_conn h), h⟩⟩
  rw [← hsame]
  exact expireLoop_stream c _ ⟨{ s.room with destroyed := true }, s.out⟩ hf

/-- The transport `c` lost its place between `m` and `m'`. -/
def Evicted (m m' : Manager) (c : Conn) : Prop :=
  ∃ ref i, ((m.room ref).slot i).conn = some c ∧ ((m'.room ref).slot i).conn ≠ some c

theorem evicted_irrefl (m : Manager) (c : Conn) : ¬Evicted m m c := by
  rintro ⟨ref, i, h, hnot⟩
  exact hnot h

theorem gcRoom_slot (now : Time) (sweep : Sweep) (entry : String × Nat) (ref i : Nat) :
    (((gcRoom now sweep entry).manager.room ref).slot i).conn =
      if ref = entry.2 ∧ sweep.manager.limits.expired now (sweep.manager.room entry.2) = true
      then none else ((sweep.manager.room ref).slot i).conn := by
  unfold gcRoom
  by_cases hexp : sweep.manager.limits.expired now (sweep.manager.room entry.2) = true
  · obtain ⟨out, heq, -⟩ := expireRoom_spec ⟨sweep.manager.room entry.2, sweep.out⟩
    simp only [hexp, if_true, heq, and_true]
    change (((sweep.manager.setRoom entry.2 (closed (sweep.manager.room entry.2))).room
      ref).slot i).conn = _
    rw [room_setRoom]
    by_cases href : ref = entry.2
    · subst href
      rw [if_pos rfl]
      split_ifs with hlt
      · rw [slot_closed]
        rfl
      · rw [room_of_ge _ (by simpa using hlt), slot_absent]
    · rw [if_neg fun h => href h.1, if_neg href]
  · simp [hexp]

theorem gcRoom_stream {m : Manager} (hp : Placed m) {now : Time} {sweep : Sweep}
    (entry : String × Nat) (c : Conn)
    (hsub : ∀ ref i, ((sweep.manager.room ref).slot i).conn = some c →
      ((m.room ref).slot i).conn = some c)
    (hdist : Distinct (sweep.manager.room entry.2))
    (hout : stream c sweep.out = eviction (Evicted m sweep.manager c)) :
    stream c (gcRoom now sweep entry).out =
      eviction (Evicted m (gcRoom now sweep entry).manager c) := by
  have hslot := gcRoom_slot now sweep entry
  by_cases hexp : sweep.manager.limits.expired now (sweep.manager.room entry.2) = true
  · have hcalls : stream c (gcRoom now sweep entry).out = stream c sweep.out ++
        eviction (∃ i, seating (sweep.manager.room entry.2) i = some c) := by
      unfold gcRoom
      rw [if_pos hexp]
      exact expireRoom_stream c ⟨sweep.manager.room entry.2, sweep.out⟩ hdist
    simp only [hexp, and_true] at hslot
    rw [hcalls, hout]
    by_cases hin : ∃ i, seating (sweep.manager.room entry.2) i = some c
    · obtain ⟨i, hi⟩ := hin
      have hwas := hsub entry.2 i hi
      have hstill : ¬Evicted m sweep.manager c := by
        rintro ⟨ref, j, hj, hgone⟩
        obtain rfl := hp.unique ref entry.2 j i c hj hwas
        obtain rfl := hp.distinct _ j i c hj hwas
        exact hgone hi
      have hnow : Evicted m (gcRoom now sweep entry).manager c :=
        ⟨entry.2, i, hwas, by rw [hslot, if_pos rfl]; simp⟩
      rw [eviction_neg hstill, eviction_pos hnow, eviction_pos ⟨i, hi⟩, List.nil_append]
    · have hsame : Evicted m (gcRoom now sweep entry).manager c ↔ Evicted m sweep.manager c := by
        unfold Evicted
        apply exists_congr
        intro ref
        apply exists_congr
        intro i
        rw [hslot]
        split_ifs with href
        · have hnot : ((sweep.manager.room ref).slot i).conn ≠ some c := fun h =>
            hin ⟨i, by rw [seating, ← href]; exact h⟩
          simp [hnot]
        · rfl
      rw [hsame, eviction_neg hin, List.append_nil]
  · have hsame : gcRoom now sweep entry = sweep := by
      unfold gcRoom
      rw [if_neg hexp]
    rw [hsame, hout]

/-- A sweep kicks exactly the transports attached to the rooms it removes, each once. -/
theorem gcLocked_stream {m : Manager} (hp : Placed m) (now : Time) (c : Conn) :
    stream c (gcLocked now m).out = eviction (Evicted m (gcLocked now m).manager c) := by
  have hfold : ∀ (l : List (String × Nat)) (sweep : Sweep),
      (∀ ref i d, ((sweep.manager.room ref).slot i).conn = some d →
        ((m.room ref).slot i).conn = some d) →
      stream c sweep.out = eviction (Evicted m sweep.manager c) →
      stream c (l.foldl (gcRoom now) sweep).out =
        eviction (Evicted m (l.foldl (gcRoom now) sweep).manager c) := by
    intro l
    induction l with
    | nil => exact fun _ _ h => h
    | cons entry rest ih =>
      intro sweep hsub hout
      have hdist : Distinct (sweep.manager.room entry.2) := fun i j d hi hj =>
        hp.distinct entry.2 i j d (hsub _ _ _ hi) (hsub _ _ _ hj)
      apply ih
      · intro ref i d hd
        rw [gcRoom_slot] at hd
        split_ifs at hd
        exact hsub ref i d hd
      · exact gcRoom_stream hp entry c (fun ref i => hsub ref i c) hdist hout
  apply hfold m.rooms ⟨m, [], 0⟩ (fun _ _ _ h => h)
  rw [eviction_neg (evicted_irrefl m c), stream_nil]

def expiryKick (c : Conn) : Out := .kick c .roomExpired "room expired"

theorem expireLoop_kicks (l : List Nat) (s : Call) :
    ∀ o ∈ (expireLoop l s).out, o ∈ s.out ∨
      ∃ i c, (s.room.slot i).conn = some c ∧ o = expiryKick c := by
  induction l generalizing s with
  | nil => exact fun o ho => .inl ho
  | cons i rest ih =>
    intro o ho
    obtain ⟨-, -, -, hroom⟩ := displace_serves s i .roomExpired "room expired"
    rcases ih _ o ho with hold | ⟨j, c, hc, heq⟩
    · unfold Call.displace at hold
      split at hold
      · exact .inl hold
      · rename_i c hc
        rcases List.mem_append.1 hold with hold | hnew
        · exact .inl hold
        · exact .inr ⟨i, c, hc, List.mem_singleton.1 hnew⟩
    · have hc : vacate (seating s.room) i j = some c := hroom ▸ hc
      unfold vacate at hc
      split_ifs at hc
      exact .inr ⟨j, c, hc, heq⟩

theorem gcLocked_kicks (now : Time) (m : Manager) :
    ∀ o ∈ (gcLocked now m).out, ∃ ref i c, o = expiryKick c ∧
      ((m.room ref).slot i).conn = some c ∧ m.limits.expired now (m.room ref) = true := by
  have hfold : ∀ (l : List (String × Nat)) (sweep : Sweep),
      Swept now m sweep.manager sweep.out →
      (∀ o ∈ sweep.out, ∃ ref i c, o = expiryKick c ∧
        ((m.room ref).slot i).conn = some c ∧ m.limits.expired now (m.room ref) = true) →
      ∀ o ∈ (l.foldl (gcRoom now) sweep).out, ∃ ref i c, o = expiryKick c ∧
        ((m.room ref).slot i).conn = some c ∧ m.limits.expired now (m.room ref) = true := by
    intro l
    induction l with
    | nil => exact fun _ _ h => h
    | cons e rest ih =>
      intro sweep hswept hout
      apply ih _ (gcRoom_swept hswept)
      intro o ho
      by_cases hexp :
          sweep.manager.limits.expired now (sweep.manager.room e.2) = true
      · simp only [gcRoom, hexp, if_true] at ho
        rcases expireLoop_kicks _ _ o ho with hold | ⟨i, c, hc, heq⟩
        · exact hout o hold
        · have hc : ((sweep.manager.room e.2).slot i).conn = some c := hc
          rcases hswept.rooms e.2 with hsame | ⟨-, hclosed⟩
          · rw [hsame] at hc hexp
            rw [hswept.limits] at hexp
            exact ⟨e.2, i, c, heq, hc, hexp⟩
          · rw [hclosed, slot_closed] at hc
            cases hc
      · rw [gcRoom, if_neg hexp] at ho
        exact hout o ho
  exact hfold m.rooms ⟨m, [], 0⟩ (Swept.refl now m) fun o ho => nomatch ho

end Lobbylink.Server.Sweeps
