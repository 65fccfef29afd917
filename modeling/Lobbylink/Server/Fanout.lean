import Lobbylink.Server.Registry
import Mathlib.Data.List.Perm.Subperm

/-! What a broadcast does. `Delivered` says it slot by slot: which transports
heard what, which were dropped, and that nobody else was reached. Broadcasts
compose, so an operation that makes several is described by one `Delivered`. -/
namespace Lobbylink.Server.Fanout
open Protocol Lobby

def acceptedBy (c : Conn) : Out → Option Msg
  | .enqueue d msg true => if d = c then some msg else none
  | _ => none

/-- The messages the queue of `c` took, in order. -/
def accepted (c : Conn) (out : List Out) : List Msg := out.filterMap (acceptedBy c)

def kickedBy (c : Conn) : Out → Option ErrCode
  | .kick d code _ => if d = c then some code else none
  | _ => none

def kicks (c : Conn) (out : List Out) : List ErrCode := out.filterMap (kickedBy c)

@[simp] theorem accepted_nil (c : Conn) : accepted c [] = [] := rfl
@[simp] theorem kicks_nil (c : Conn) : kicks c [] = [] := rfl

@[simp] theorem accepted_append (c : Conn) (a b : List Out) :
    accepted c (a ++ b) = accepted c a ++ accepted c b := List.filterMap_append

@[simp] theorem kicks_append (c : Conn) (a b : List Out) :
    kicks c (a ++ b) = kicks c a ++ kicks c b := List.filterMap_append

@[simp] theorem accepted_enqueue (c d : Conn) (msg : Msg) (ok : Bool) (rest : List Out) :
    accepted c (.enqueue d msg ok :: rest) =
      (if d = c ∧ ok = true then [msg] else []) ++ accepted c rest := by
  cases ok <;> by_cases h : d = c <;> simp [accepted, acceptedBy, List.filterMap_cons, h]

@[simp] theorem accepted_kick (c d : Conn) (code : ErrCode) (text : String) (rest : List Out) :
    accepted c (.kick d code text :: rest) = accepted c rest := by
  simp [accepted, acceptedBy, List.filterMap_cons]

@[simp] theorem kicks_enqueue (c d : Conn) (msg : Msg) (ok : Bool) (rest : List Out) :
    kicks c (.enqueue d msg ok :: rest) = kicks c rest := by
  simp [kicks, kickedBy, List.filterMap_cons]

@[simp] theorem kicks_kick (c d : Conn) (code : ErrCode) (text : String) (rest : List Out) :
    kicks c (.kick d code text :: rest) = (if d = c then [code] else []) ++ kicks c rest := by
  by_cases h : d = c <;> simp [kicks, kickedBy, h]

def refusesJoined : Out → Bool
  | .enqueue _ (.joined _) false => true
  | _ => false

def JoinsTaken (out : List Out) : Prop := ∀ o ∈ out, refusesJoined o = false

theorem joinsTaken_iff (out : List Out) :
    JoinsTaken out ↔ ∀ c msg, .enqueue c (.joined msg) false ∉ out := by
  constructor
  · intro h c msg hm
    exact Bool.noConfusion (h _ hm)
  · intro h o ho
    unfold refusesJoined
    split
    · exact absurd ho (h _ _)
    · rfl

theorem slot_of_lt (r : Room) {i : Nat} (h : i < r.slots.length) : r.slot i = r.slots[i] := by
  simp [Room.slot, List.getD_eq_getElem?_getD, h]

theorem slot_of_ge (r : Room) {i : Nat} (h : r.slots.length ≤ i) : r.slot i = {} := by
  simp [Room.slot, List.getD_eq_getElem?_getD, h]

theorem lt_of_conn {r : Room} {i : Nat} {c : Conn} (h : (r.slot i).conn = some c) :
    i < r.slots.length := by
  by_contra hlt
  rw [slot_of_ge r (Nat.le_of_not_lt hlt)] at h
  cases h

theorem lt_of_occupied {r : Room} {i : Nat} (h : (r.slot i).occupied = true) :
    i < r.slots.length := by
  by_contra hlt
  rw [slot_of_ge r (Nat.le_of_not_lt hlt)] at h
  cases h

theorem slot_modifySlot (r : Room) (i j : Nat) (f : Slot → Slot) :
    (r.modifySlot i f).slot j =
      if j = i ∧ i < r.slots.length then f (r.slot i) else r.slot j := by
  unfold Room.slot Room.modifySlot
  simp only [List.getD_eq_getElem?_getD, List.getElem?_modify]
  by_cases hj : j = i
  · subst hj
    by_cases hlt : j < r.slots.length <;> simp [hlt]
  · simp [hj, Ne.symm hj]

@[simp] theorem length_modifySlot (r : Room) (i : Nat) (f : Slot → Slot) :
    (r.modifySlot i f).slots.length = r.slots.length := List.length_modify ..

@[simp] theorem slot_updateEmpty (r : Room) (t : Time) (i : Nat) :
    (r.updateEmpty t).slot i = r.slot i := by
  unfold Room.updateEmpty
  split_ifs <;> rfl

@[simp] theorem slots_updateEmpty (r : Room) (t : Time) : (r.updateEmpty t).slots = r.slots := by
  unfold Room.updateEmpty
  split_ifs <;> rfl

/-- The room with the transports of the slots in `ids` detached. -/
def detachAll (r : Room) (ids : List Nat) : Room :=
  { r with
    slots := r.slots.mapIdx fun i s => if i ∈ ids then s.clearConn else s
    slots_length := by rw [List.length_mapIdx, r.slots_length] }

@[simp] theorem length_detachAll (r : Room) (ids : List Nat) :
    (detachAll r ids).slots.length = r.slots.length := List.length_mapIdx

theorem slot_detachAll (r : Room) (ids : List Nat) (i : Nat) :
    (detachAll r ids).slot i = if i ∈ ids then (r.slot i).clearConn else r.slot i := by
  by_cases hlt : i < r.slots.length
  · rw [slot_of_lt _ (by simpa using hlt), slot_of_lt _ hlt]
    simp [detachAll]
  · rw [slot_of_ge _ (by simpa using hlt), slot_of_ge _ (by simpa using hlt)]
    simp [Slot.clearConn]

theorem conn_detachAll {r : Room} {ids : List Nat} {i : Nat} {c : Conn} :
    ((detachAll r ids).slot i).conn = some c ↔ i ∉ ids ∧ (r.slot i).conn = some c := by
  rw [slot_detachAll]
  by_cases h : i ∈ ids <;> simp [h, Slot.clearConn]

theorem clearConn_of_none {s : Slot} (h : s.conn = none) : s.clearConn = s := by
  cases s
  simp_all [Slot.clearConn]

theorem detachAll_of_none {r : Room} {ids : List Nat} (h : ∀ i ∈ ids, (r.slot i).conn = none) :
    detachAll r ids = r := by
  have hslots : (detachAll r ids).slots = r.slots := by
    apply List.ext_getElem
    · simp
    intro j hj hj'
    rw [← slot_of_lt _ hj, ← slot_of_lt _ hj', slot_detachAll]
    split_ifs with hmem
    · exact clearConn_of_none (h j hmem)
    · rfl
  cases r
  simpa [detachAll] using hslots

theorem detachAll_nil (r : Room) : detachAll r [] = r := detachAll_of_none (by simp)

theorem detachAll_append (r : Room) (a b : List Nat) :
    detachAll (detachAll r a) b = detachAll r (a ++ b) := by
  cases r
  simp only [detachAll, List.mapIdx_mapIdx, Room.mk.injEq, true_and, and_true]
  congr 1
  funext i s
  by_cases ha : i ∈ a <;> by_cases hb : i ∈ b <;>
    simp [ha, hb, Slot.clearConn]

theorem modifySlot_clearConn (r : Room) (i : Nat) :
    r.modifySlot i Slot.clearConn = detachAll r [i] := by
  cases r
  simp only [Room.modifySlot, detachAll, Room.mk.injEq, true_and, and_true]
  apply List.ext_getElem
  · simp
  intro j hj _
  simp only [List.getElem_modify, List.getElem_mapIdx, List.mem_singleton, eq_comm]

def Distinct (r : Room) : Prop :=
  ∀ i j c, (r.slot i).conn = some c → (r.slot j).conn = some c → i = j

theorem Distinct.of_slots {r t : Room} (hd : Distinct r)
    (h : ∀ i c, (t.slot i).conn = some c → (r.slot i).conn = some c) : Distinct t :=
  fun i j c hi hj => hd i j c (h i c hi) (h j c hj)

theorem Distinct.detachAll {r : Room} (hd : Distinct r) (ids : List Nat) :
    Distinct (detachAll r ids) := by
  intro i j c hi hj
  exact hd i j c (conn_detachAll.1 hi).2 (conn_detachAll.1 hj).2

/-- The calls `out`, made while `r` lost the transports of `drops`: the transport
of a remaining slot `i` took exactly `heard i` and was not kicked; a dropped one
took an initial part of it and was kicked once; no other transport was called.
A transport that refused a message was kicked. -/
structure Delivered (r : Room) (out : List Out) (heard : Nat → List Msg)
    (drops : List Nat) : Prop where
  nodup : drops.Nodup
  dropped : ∀ i ∈ drops, (r.slot i).conn.isSome
  stays : ∀ i c, i ∉ drops → (r.slot i).conn = some c →
    accepted c out = heard i ∧ kicks c out = []
  goes : ∀ i ∈ drops, ∀ c, (r.slot i).conn = some c →
    accepted c out <+: heard i ∧ kicks c out = [.slowConsumer]
  others : ∀ c, (∀ i, (r.slot i).conn ≠ some c) → accepted c out = [] ∧ kicks c out = []
  answered : ∀ c msg, .enqueue c msg false ∈ out → kicks c out ≠ []

theorem Delivered.nothing (r : Room) : Delivered r [] (fun _ => []) [] where
  nodup := List.nodup_nil
  dropped := by simp
  stays := by simp
  goes := by simp
  others := by simp
  answered := by simp

theorem Delivered.congr {r : Room} {out : List Out} {h h' : Nat → List Msg} {drops : List Nat}
    (d : Delivered r out h drops) (heq : ∀ i c, (r.slot i).conn = some c → h i = h' i) :
    Delivered r out h' drops where
  nodup := d.nodup
  dropped := d.dropped
  stays := by
    intro i c hi hc
    rw [← heq i c hc]
    exact d.stays i c hi hc
  goes := by
    intro i hi c hc
    rw [← heq i c hc]
    exact d.goes i hi c hc
  others := d.others
  answered := d.answered

theorem Delivered.of_slots {r t : Room} {out : List Out} {h : Nat → List Msg}
    {drops : List Nat} (d : Delivered r out h drops)
    (heq : ∀ i, (t.slot i).conn = (r.slot i).conn) : Delivered t out h drops where
  nodup := d.nodup
  dropped := fun i hi => by rw [heq]; exact d.dropped i hi
  stays := fun i c hi hc => d.stays i c hi (by rw [← heq]; exact hc)
  goes := fun i hi c hc => d.goes i hi c (by rw [← heq]; exact hc)
  others := fun c hc => d.others c fun i hi => hc i (by rw [heq]; exact hi)
  answered := d.answered

theorem Delivered.trans {r : Room} (hd : Distinct r) {o₁ o₂ : List Out}
    {h₁ h₂ : Nat → List Msg} {d₁ d₂ : List Nat} (a : Delivered r o₁ h₁ d₁)
    (b : Delivered (Fanout.detachAll r d₁) o₂ h₂ d₂) :
    Delivered r (o₁ ++ o₂) (fun i => h₁ i ++ h₂ i) (d₁ ++ d₂) where
  nodup := by
    refine List.nodup_append.2 ⟨a.nodup, b.nodup, ?_⟩
    rintro i hi _ hj rfl
    have h := b.dropped i hj
    rw [slot_detachAll, if_pos hi] at h
    simp [Slot.clearConn] at h
  dropped := by
    intro i hi
    rcases List.mem_append.1 hi with hi | hi
    · exact a.dropped i hi
    · have h := b.dropped i hi
      rw [slot_detachAll] at h
      split at h
      · simp [Slot.clearConn] at h
      · exact h
  stays := by
    intro i c hi hc
    rw [List.mem_append, not_or] at hi
    have h₁ := a.stays i c hi.1 hc
    have h₂ := b.stays i c hi.2 (conn_detachAll.2 ⟨hi.1, hc⟩)
    simp [h₁, h₂]
  goes := by
    intro i hi c hc
    by_cases hi₁ : i ∈ d₁
    · have h₁ := a.goes i hi₁ c hc
      have h₂ := b.others c fun j hj => by
        obtain ⟨hj₁, hj⟩ := conn_detachAll.1 hj
        exact hj₁ (hd i j c hc hj ▸ hi₁)
      simp only [accepted_append, kicks_append, h₂.1, h₂.2, List.append_nil, h₁.2, and_true]
      exact h₁.1.trans (List.prefix_append ..)
    · have hi₂ : i ∈ d₂ := (List.mem_append.1 hi).resolve_left hi₁
      have h₁ := a.stays i c hi₁ hc
      have h₂ := b.goes i hi₂ c (conn_detachAll.2 ⟨hi₁, hc⟩)
      simp only [accepted_append, kicks_append, h₁.1, h₁.2, List.nil_append, h₂.2, and_true]
      exact (List.prefix_append_right_inj _).2 h₂.1
  others := by
    intro c hc
    have h₁ := a.others c hc
    have h₂ := b.others c fun i hi => hc i (conn_detachAll.1 hi).2
    simp [h₁, h₂]
  answered := by
    intro c msg hm
    rw [kicks_append]
    rcases List.mem_append.1 hm with hm | hm
    · exact List.append_ne_nil_of_left_ne_nil (a.answered c msg hm) _
    · exact List.append_ne_nil_of_right_ne_nil _ (b.answered c msg hm)

/-- What `sendAllLocked` tells slot `i`. -/
def told (msg : Msg) (except : Option Nat) (i : Nat) : List Msg :=
  if some i = except then [] else [msg]

theorem delivered_accept {r : Room} (hd : Distinct r) {i : Nat} {c : Conn} {msg : Msg}
    (hc : (r.slot i).conn = some c) :
    Delivered r [.enqueue c msg true] (fun j => if j = i then [msg] else []) [] where
  nodup := List.nodup_nil
  dropped := by simp
  stays := by
    intro j d _ hj
    by_cases hcd : c = d
    · subst hcd
      simp [hd j i c hj hc]
    · have hji : j ≠ i := by
        rintro rfl
        exact hcd (Option.some.inj (hc.symm.trans hj))
      simp [hcd, hji]
  goes := by simp
  others := by
    intro d hother
    have hcd : c ≠ d := fun h => hother i (h ▸ hc)
    simp [hcd]
  answered := by simp

theorem delivered_refuse {r : Room} (hd : Distinct r) {i : Nat} {c : Conn} (msg : Msg)
    (hc : (r.slot i).conn = some c) :
    Delivered r [.enqueue c msg false, .kick c .slowConsumer slowConsumerText]
      (fun j => if j = i then [msg] else []) [i] where
  nodup := by simp
  dropped := by simp [hc]
  stays := by
    intro j d hj hcj
    have hji : j ≠ i := by simpa using hj
    have hcd : c ≠ d := fun h => hji (hd j i c (h ▸ hcj) hc)
    simp [hcd, hji]
  goes := by
    intro j hj d hcj
    obtain rfl : j = i := by simpa using hj
    obtain rfl : c = d := Option.some.inj (hc.symm.trans hcj)
    simp
  others := by
    intro d hother
    have hcd : c ≠ d := fun h => hother i (h ▸ hc)
    simp [hcd]
  answered := by
    intro d m hm
    obtain ⟨rfl, -⟩ : d = c ∧ m = msg := by simpa using hm
    simp

/-- Every message among the calls satisfies `p`. -/
def Says (p : Msg → Prop) (out : List Out) : Prop :=
  ∀ c m ok, .enqueue c m ok ∈ out → p m

theorem Says.append {p : Msg → Prop} {a b : List Out} (ha : Says p a) (hb : Says p b) :
    Says p (a ++ b) := by
  intro c m ok h
  rcases List.mem_append.1 h with h | h
  · exact ha c m ok h
  · exact hb c m ok h

theorem Says.mono {p q : Msg → Prop} {a : List Out} (ha : Says p a) (h : ∀ m, p m → q m) :
    Says q a := fun c m ok hm => h m (ha c m ok hm)

theorem Says.nil (p : Msg → Prop) : Says p [] := by
  intro c m ok h
  cases h

theorem accepted_said {p : Msg → Prop} {out : List Out} (h : Says p out) {c : Conn} {m : Msg}
    (hm : m ∈ accepted c out) : p m := by
  obtain ⟨o, ho, heq⟩ := List.mem_filterMap.1 hm
  unfold acceptedBy at heq
  split at heq
  · split at heq
    · cases heq
      exact h _ _ _ ho
    · cases heq
  · cases heq

/-- The loop over the slots in `l`, from any point of the operation. -/
theorem sendAllLoop_spec (env : Env) (msg : Msg) (except : Option Nat) (l : List Nat)
    (hl : l.Nodup) (s : Call) :
    ∃ out dead, sendAllLoop env msg except l s = (⟨detachAll s.room dead, s.out ++ out⟩, dead) ∧
      Says (· = msg) out ∧ (Distinct s.room →
        Delivered s.room out (fun i => if i ∈ l then told msg except i else []) dead) := by
  induction l generalizing s with
  | nil =>
    refine ⟨[], [], ?_, Says.nil _, fun _ => by simpa using Delivered.nothing s.room⟩
    simp [sendAllLoop, detachAll_nil]
  | cons i rest ih =>
    obtain ⟨hi, hrest⟩ := List.nodup_cons.1 hl
    by_cases hex : some i = except
    · rw [sendAllLoop, if_pos hex]
      obtain ⟨out, dead, heq, hsaid, hdel⟩ := ih hrest s
      refine ⟨out, dead, heq, hsaid, fun hd => (hdel hd).congr ?_⟩
      intro j c _
      by_cases hj : j = i
      · subst hj
        simp [hi, told, hex]
      · simp [hj]
    rw [sendAllLoop, if_neg hex]
    cases hc : (s.room.slot i).conn with
    | none =>
      obtain ⟨out, dead, heq, hsaid, hdel⟩ := ih hrest s
      refine ⟨out, dead, heq, hsaid, fun hd => (hdel hd).congr ?_⟩
      intro j c hj
      have hji : j ≠ i := by
        rintro rfl
        simp [hc] at hj
      simp [hji]
    | some c =>
      -- what slot `j` hears now and in the rest of the loop
      have hsum : ∀ j, (if j = i then [msg] else []) ++
          (if j ∈ rest then told msg except j else []) =
          if j ∈ i :: rest then told msg except j else [] := by
        intro j
        by_cases hj : j = i
        · subst hj
          simp [hi, told, hex]
        · simp [hj]
      rw [← funext hsum]
      by_cases hok : s.accepts env = true
      · obtain ⟨out, dead, heq, hsaid, hdel⟩ := ih hrest (s.enqueue env c msg)
        refine ⟨[.enqueue c msg true] ++ out, dead, ?_, ?_, fun hd => ?_⟩
        · simp only [hok, if_true, heq]
          simp [Call.enqueue, hok]
        · exact Says.append (by simp [Says]) hsaid
        · have hfirst : Delivered s.room [.enqueue c msg true] _ [] := delivered_accept hd hc
          exact hfirst.trans hd (by rw [detachAll_nil]; exact hdel hd)
      · let s' : Call := ((s.enqueue env c msg).modifySlot i Slot.clearConn).kick c
          .slowConsumer slowConsumerText
        have hroom : s'.room = detachAll s.room [i] := modifySlot_clearConn ..
        obtain ⟨out, dead, heq, hsaid, hdel⟩ := ih hrest s'
        refine ⟨[.enqueue c msg false, .kick c .slowConsumer slowConsumerText] ++ out,
          i :: dead, ?_, ?_, fun hd => ?_⟩
        · simp only [hok, if_false, Bool.false_eq_true]
          change ((sendAllLoop env msg except rest s').1, i :: _) = _
          rw [heq, hroom, detachAll_append]
          simp [s', Call.enqueue, Call.kick, Call.modifySlot, hok]
        · exact Says.append (by simp [Says]) hsaid
        · have hfirst : Delivered s.room _ _ [i] := delivered_refuse hd msg hc
          exact hfirst.trans hd (hroom ▸ hdel (hroom ▸ hd.detachAll [i]))

theorem sendAllLocked_spec (env : Env) (msg : Msg) (except : Option Nat) (s : Call) :
    ∃ out dead, sendAllLocked env msg except s = (⟨detachAll s.room dead, s.out ++ out⟩, dead) ∧
      Says (· = msg) out ∧
      (Distinct s.room → Delivered s.room out (told msg except) dead) := by
  obtain ⟨out, dead, heq, hsaid, hdel⟩ := sendAllLoop_spec env msg except
    (List.range s.room.slots.length) List.nodup_range s
  refine ⟨out, dead, heq, hsaid, fun hd => (hdel hd).congr ?_⟩
  intro i c hi
  simp [lt_of_conn hi]

def IsLeft (m : Msg) : Prop := ∃ id, m = leftMsg id

theorem announceLoop_spec (env : Env) (dead : List Nat) (s : Call) :
    ∃ out next, announceLoop env dead s = (⟨detachAll s.room next, s.out ++ out⟩, next) ∧
      Says IsLeft out ∧
      (Distinct s.room → Delivered s.room out (fun _ => dead.map leftMsg) next) := by
  induction dead generalizing s with
  | nil =>
    exact ⟨[], [], by simp [announceLoop, detachAll_nil], Says.nil _, fun _ => Delivered.nothing _⟩
  | cons id rest ih =>
    obtain ⟨o₁, more, heq₁, hsaid₁, hdel₁⟩ := sendAllLocked_spec env (leftMsg id) none s
    obtain ⟨o₂, next, heq₂, hsaid₂, hdel₂⟩ := ih ⟨detachAll s.room more, s.out ++ o₁⟩
    refine ⟨o₁ ++ o₂, more ++ next, ?_, ?_, fun hd => ?_⟩
    · simp only [announceLoop, heq₁, heq₂, detachAll_append, List.append_assoc]
    · exact Says.append (hsaid₁.mono fun m hm => ⟨id, hm⟩) hsaid₂
    · refine ((hdel₁ hd).trans hd (hdel₂ (hd.detachAll more))).congr ?_
      intro i c _
      simp [told]

/-- The slots in `l` can be dropped one after another. -/
def Droppable (r : Room) (l : List Nat) : Prop := l.Nodup ∧ ∀ i ∈ l, (r.slot i).conn.isSome

theorem Droppable.length_le {r : Room} {l : List Nat} (h : Droppable r l) :
    l.length ≤ r.slots.length := by
  have hsub : l ⊆ List.range r.slots.length := by
    intro i hi
    obtain ⟨c, hc⟩ := Option.isSome_iff_exists.1 (h.2 i hi)
    exact List.mem_range.2 (lt_of_conn hc)
  simpa using (List.subperm_of_subset h.1 hsub).length_le

theorem Droppable.append {r : Room} {a b : List Nat} (ha : Droppable r a)
    (hb : Droppable (Fanout.detachAll r a) b) : Droppable r (a ++ b) := by
  have hconn : ∀ i ∈ b, i ∉ a ∧ (r.slot i).conn.isSome := by
    intro i hi
    obtain ⟨c, hc⟩ := Option.isSome_iff_exists.1 (hb.2 i hi)
    obtain ⟨hia, hc⟩ := conn_detachAll.1 hc
    exact ⟨hia, by simp [hc]⟩
  refine ⟨List.nodup_append.2 ⟨ha.1, hb.1, ?_⟩, ?_⟩
  · rintro i hi _ hj rfl
    exact (hconn i hj).1 hi
  · intro i hi
    rcases List.mem_append.1 hi with hi | hi
    · exact ha.2 i hi
    · exact (hconn i hi).2

/-- The loop ends with nothing left to announce: fuel above every number of
slots that can still be dropped is never used up. -/
theorem announceAll_spec (env : Env) (fuel : Nat) (dead : List Nat) (s : Call) :
    ∃ out drops, announceAll env fuel dead s = ⟨detachAll s.room drops, s.out ++ out⟩ ∧
      Says IsLeft out ∧ (Distinct s.room →
        (dead ≠ [] → ∀ l, Droppable s.room l → l.length < fuel) →
        Delivered s.room out (fun _ => (dead ++ drops).map leftMsg) drops) := by
  induction fuel generalizing dead s with
  | zero =>
    refine ⟨[], [], by simp [announceAll, detachAll_nil], Says.nil _, fun _ hfuel => ?_⟩
    have hdead : dead = [] := by
      by_contra hne
      exact absurd (hfuel hne [] ⟨List.nodup_nil, by simp⟩) (by simp)
    subst hdead
    simpa using Delivered.nothing _
  | succ fuel ih =>
    cases dead with
    | nil =>
      exact ⟨[], [], by simp [announceAll, detachAll_nil], Says.nil _,
        fun _ _ => by simpa using Delivered.nothing _⟩
    | cons id rest =>
      obtain ⟨o₁, next, heq₁, hsaid₁, hdel₁⟩ := announceLoop_spec env (id :: rest) s
      obtain ⟨o₂, drops, heq₂, hsaid₂, hdel₂⟩ := ih next ⟨detachAll s.room next, s.out ++ o₁⟩
      refine ⟨o₁ ++ o₂, next ++ drops, ?_, hsaid₁.append hsaid₂, fun hd hfuel => ?_⟩
      · simp only [announceAll, heq₁, heq₂, detachAll_append, List.append_assoc]
      · have hnext := hdel₁ hd
        refine (hnext.trans hd (hdel₂ (hd.detachAll next) ?_)).congr ?_
        · intro hne l hl
          have hlen := hfuel (by simp) _ (Droppable.append ⟨hnext.nodup, hnext.dropped⟩ hl)
          have hpos := List.length_pos_of_ne_nil hne
          rw [List.length_append] at hlen
          omega
        · intro i c _
          simp

def Reads (env : Env) (t : Time) : Prop := t = env.now ∨ ∃ k, t = env.clock k

/-- A whole broadcast: everyone left heard the message, unless excepted, and then
of every drop, in one order. -/
theorem broadcastLocked_spec (env : Env) (msg : Msg) (except : Option Nat) (s : Call) :
    ∃ out drops t, broadcastLocked env msg except s =
        ⟨(detachAll s.room drops).updateEmpty t, s.out ++ out⟩ ∧ Reads env t ∧
      Says (fun m => m = msg ∨ IsLeft m) out ∧ (Distinct s.room →
        Delivered s.room out (fun i => told msg except i ++ drops.map leftMsg) drops) := by
  obtain ⟨o₁, dead, heq₁, hsaid₁, hdel₁⟩ := sendAllLocked_spec env msg except s
  obtain ⟨o₂, drops, heq₂, hsaid₂, hdel₂⟩ := announceAll_spec env
    ((detachAll s.room dead).slots.length + 1) dead ⟨detachAll s.room dead, s.out ++ o₁⟩
  refine ⟨o₁ ++ o₂, dead ++ drops, env.clock (s.out ++ (o₁ ++ o₂)).length, ?_, .inr ⟨_, rfl⟩,
    ?_, fun hd => ?_⟩
  · simp only [broadcastLocked, heq₁, heq₂, Call.updateEmpty, detachAll_append,
      List.append_assoc]
  · exact Says.append (hsaid₁.mono fun _ h => .inl h) (hsaid₂.mono fun _ h => .inr h)
  · exact (hdel₁ hd).trans hd
      (hdel₂ (hd.detachAll dead) fun _ l hl => Nat.lt_succ_of_le hl.length_le)

end Lobbylink.Server.Fanout
