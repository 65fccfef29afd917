import Lobbylink.Server.Audience

/-! What one transport is offered, in order. Under the room lock the calls on transports
are a series of sends to slots that hold one; a send that is refused empties the slot.
`Serves` is such a series, apart from the joined messages. -/
namespace Lobbylink.Server.Streams
open Protocol Lobby Registry Fanout Operations Effects Slots Announcements

/-- A message that was offered, whether or not the queue took it, or a kick. -/
inductive Item where
  | offered (msg : Msg)
  | kicked (code : ErrCode)
  deriving DecidableEq

def itemOf (c : Conn) : Out → Option Item
  | .enqueue d msg _ => if d = c then some (.offered msg) else none
  | .kick d code _ => if d = c then some (.kicked code) else none

def stream (c : Conn) (out : List Out) : List Item := out.filterMap (itemOf c)

@[simp] theorem stream_nil (c : Conn) : stream c [] = [] := rfl

@[simp] theorem stream_append (c : Conn) (a b : List Out) :
    stream c (a ++ b) = stream c a ++ stream c b := List.filterMap_append

@[simp] theorem stream_enqueue (c d : Conn) (msg : Msg) (ok : Bool) (rest : List Out) :
    stream c (.enqueue d msg ok :: rest) =
      (if d = c then [.offered msg] else []) ++ stream c rest := by
  by_cases h : d = c <;> simp [stream, itemOf, h]

@[simp] theorem stream_kick (c d : Conn) (code : ErrCode) (text : String) (rest : List Out) :
    stream c (.kick d code text :: rest) =
      (if d = c then [.kicked code] else []) ++ stream c rest := by
  by_cases h : d = c <;> simp [stream, itemOf, h]

/-- What the player of slot `i` may be told of the others. -/
def Notice (i : Nat) : Msg → Prop
  | .playerJoined j _ | .playerLeft j _ | .playerRejoined j _ | .playerReplaced j
  | .signal j _ => j ≠ i
  | .roomStarted => True
  | .joined _ | .error .. => False

abbrev Seating := Nat → Option Conn

def seating (r : Room) : Seating := fun i => (r.slot i).conn

def vacate (f : Seating) (i : Nat) : Seating := fun j => if j = i then none else f j

theorem seating_detachAll (r : Room) (i : Nat) :
    seating (detachAll r [i]) = vacate (seating r) i := by
  funext j
  simp only [seating, vacate, slot_detachAll, List.mem_singleton]
  split_ifs <;> rfl

inductive Serves : Seating → List Out → Seating → Prop where
  | done (f : Seating) : Serves f [] f
  | sent {f g : Seating} {i : Nat} {c : Conn} {msg : Msg} {out : List Out} :
      f i = some c → Notice i msg → Serves f out g → Serves f (.enqueue c msg true :: out) g
  | dropped {f g : Seating} {i : Nat} {c : Conn} {msg : Msg} {out : List Out} :
      f i = some c → Notice i msg → Serves (vacate f i) out g →
      Serves f (.enqueue c msg false :: .kick c .slowConsumer slowConsumerText :: out) g
  | kicked {f g : Seating} {i : Nat} {c : Conn} {code : ErrCode} {text : String}
      {out : List Out} : f i = some c → Serves (vacate f i) out g →
      Serves f (.kick c code text :: out) g

theorem Serves.trans {f g k : Seating} {a b : List Out} (h : Serves f a g) (h' : Serves g b k) :
    Serves f (a ++ b) k := by
  induction h with
  | done => exact h'
  | sent hc hm _ ih => exact .sent hc hm (ih h')
  | dropped hc hm _ ih => exact .dropped hc hm (ih h')
  | kicked hc _ ih => exact .kicked hc (ih h')

theorem Serves.subset {f g : Seating} {out : List Out} (h : Serves f out g) {i : Nat} {c : Conn}
    (hc : g i = some c) : f i = some c := by
  have hvacate : ∀ {f : Seating} {k : Nat}, vacate f k i = some c → f i = some c := by
    intro f k hk
    unfold vacate at hk
    split_ifs at hk
    exact hk
  induction h with
  | done => exact hc
  | sent _ _ _ ih => exact ih hc
  | dropped _ _ _ ih => exact hvacate (ih hc)
  | kicked _ _ ih => exact hvacate (ih hc)

def OneEach (f : Seating) : Prop := ∀ i j c, f i = some c → f j = some c → i = j

theorem OneEach.vacate {f : Seating} (hf : OneEach f) (k : Nat) : OneEach (vacate f k) := by
  intro i j c hi hj
  unfold Streams.vacate at hi hj
  split_ifs at hi hj
  exact hf i j c hi hj

theorem Serves.absent {f g : Seating} {out : List Out} (h : Serves f out g) {c : Conn}
    (hc : ∀ i, f i ≠ some c) : stream c out = [] := by
  have hvacate : ∀ {f : Seating} {k : Nat}, (∀ i, f i ≠ some c) → ∀ i, vacate f k i ≠ some c := by
    intro f k hf i
    unfold vacate
    split_ifs
    · simp
    · exact hf i
  induction h with
  | done => rfl
  | @sent f g i d msg out hd _ _ ih =>
    have hne : d ≠ c := fun he => hc i (he ▸ hd)
    simp [hne, ih hc]
  | @dropped f g i d msg out hd _ _ ih =>
    have hne : d ≠ c := fun he => hc i (he ▸ hd)
    simp [hne, ih (hvacate hc)]
  | @kicked f g i d code text out hd _ ih =>
    have hne : d ≠ c := fun he => hc i (he ▸ hd)
    simp [hne, ih (hvacate hc)]

/-- What the transport of slot `i` gets while it stays and until it goes: notices, and
perhaps a kick if it goes. -/
def Spell (i : Nat) (stays : Prop) (items : List Item) : Prop :=
  ∃ notices : List Msg, ∃ kick : Option ErrCode, items =
    notices.map .offered ++ kick.toList.map .kicked ∧ (∀ m ∈ notices, Notice i m) ∧
    (stays → kick = none)

theorem Spell.nothing (i : Nat) (stays : Prop) : Spell i stays [] :=
  ⟨[], none, rfl, by simp, fun _ => rfl⟩

theorem Spell.kicked (i : Nat) {stays : Prop} (h : ¬stays) (code : ErrCode) :
    Spell i stays [.kicked code] :=
  ⟨[], some code, rfl, by simp, fun hstays => absurd hstays h⟩

theorem Spell.weaken {i : Nat} {stays stays' : Prop} {items : List Item} (h : Spell i stays items)
    (hstays : stays' → stays) : Spell i stays' items := by
  obtain ⟨notices, kick, heq, hnotices, hkick⟩ := h
  exact ⟨notices, kick, heq, hnotices, fun hs => hkick (hstays hs)⟩

theorem Spell.append {i : Nat} {stays stays' : Prop} {a b : List Item} (ha : Spell i stays a)
    (h : stays) (hb : Spell i stays' b) : Spell i stays' (a ++ b) := by
  obtain ⟨notices, kick, rfl, hnotices, hkick⟩ := ha
  obtain ⟨more, kick', rfl, hmore, hkick'⟩ := hb
  refine ⟨notices ++ more, kick', by simp [hkick h], ?_, hkick'⟩
  intro m hm
  rcases List.mem_append.1 hm with hm | hm
  · exact hnotices m hm
  · exact hmore m hm

theorem Spell.cons {i : Nat} {stays : Prop} {items : List Item} (h : Spell i stays items)
    {msg : Msg} (hm : Notice i msg) : Spell i stays (.offered msg :: items) := by
  obtain ⟨notices, kick, rfl, hnotices, hkick⟩ := h
  refine ⟨msg :: notices, kick, rfl, ?_, hkick⟩
  intro m hmem
  rcases List.mem_cons.1 hmem with rfl | hmem
  · exact hm
  · exact hnotices m hmem

theorem Serves.spell {f g : Seating} {out : List Out} (h : Serves f out g) (hf : OneEach f)
    {i : Nat} {c : Conn} (hc : f i = some c) : Spell i (g i = some c) (stream c out) := by
  have hother : ∀ {f : Seating} {k : Nat} {d : Conn}, OneEach f → f i = some c →
      f k = some d → k ≠ i → d ≠ c ∧ vacate f k i = some c := by
    intro f k d hf hc hd hki
    refine ⟨fun he => hki (hf k i c (he ▸ hd) hc), ?_⟩
    rw [vacate, if_neg (Ne.symm hki), hc]
  have hgone : ∀ {f g : Seating} {out : List Out}, OneEach f → f i = some c →
      Serves (vacate f i) out g → stream c out = [] ∧ g i ≠ some c := by
    intro f g out hf hc h
    have hnone : ∀ j, vacate f i j ≠ some c := by
      intro j hj
      unfold vacate at hj
      split_ifs at hj with hji
      exact hji (hf j i c hj hc)
    exact ⟨h.absent hnone, fun hg => hnone i (h.subset hg)⟩
  induction h with
  | done => exact .nothing i _
  | @sent f g k d msg out hd hm _ ih =>
    by_cases hki : k = i
    · subst hki
      obtain rfl : d = c := Option.some.inj (hd.symm.trans hc)
      simpa using (ih hf hc).cons hm
    · simpa [(hother hf hc hd hki).1] using ih hf hc
  | @dropped f g k d msg out hd hm h ih =>
    by_cases hki : k = i
    · subst hki
      obtain rfl : d = c := Option.some.inj (hd.symm.trans hc)
      obtain ⟨hempty, hnot⟩ := hgone hf hc h
      exact ⟨[msg], some .slowConsumer, by simp [hempty], by simpa using hm,
        fun hg => absurd hg hnot⟩
    · obtain ⟨hdc, hstill⟩ := hother hf hc hd hki
      simpa [hdc] using ih (hf.vacate k) hstill
  | @kicked f g k d code text out hd h ih =>
    by_cases hki : k = i
    · subst hki
      obtain rfl : d = c := Option.some.inj (hd.symm.trans hc)
      obtain ⟨hempty, hnot⟩ := hgone hf hc h
      simpa [hempty] using Spell.kicked k hnot code
    · obtain ⟨hdc, hstill⟩ := hother hf hc hd hki
      simpa [hdc] using ih (hf.vacate k) hstill

def Sends (s t : Call) : Prop :=
  ∃ out, t.out = s.out ++ out ∧ Serves (seating s.room) out (seating t.room)

theorem Sends.refl (s : Call) : Sends s s := ⟨[], by simp, .done _⟩

theorem Sends.trans {s t u : Call} (h : Sends s t) (h' : Sends t u) : Sends s u := by
  obtain ⟨a, ha, hserves⟩ := h
  obtain ⟨b, hb, hserves'⟩ := h'
  exact ⟨a ++ b, by rw [hb, ha, List.append_assoc], hserves.trans hserves'⟩

theorem Sends.of_seating {s t u : Call} (h : Sends s t) (hout : u.out = t.out)
    (hroom : seating u.room = seating t.room) : Sends s u := by
  obtain ⟨out, heq, hserves⟩ := h
  exact ⟨out, hout.trans heq, hroom ▸ hserves⟩

@[simp] theorem seating_updateEmpty (r : Room) (now : Time) :
    seating (r.updateEmpty now) = seating r := by
  funext i
  simp [seating]

theorem Sends.updateEmpty {s t : Call} (h : Sends s t) (now : Time) :
    Sends s (t.updateEmpty now) :=
  h.of_seating rfl (seating_updateEmpty t.room now)

theorem sends_refuse {env : Env} {s : Call} {i : Nat} {c : Conn} {msg : Msg}
    (hc : (s.room.slot i).conn = some c) (hm : Notice i msg) (hok : s.accepts env = false) :
    Sends s (((s.enqueue env c msg).modifySlot i Slot.clearConn).kick c .slowConsumer
      slowConsumerText) := by
  refine ⟨[.enqueue c msg false, .kick c .slowConsumer slowConsumerText], ?_, ?_⟩
  · simp [Call.enqueue, Call.modifySlot, Call.kick, hok]
  · have hroom : seating (s.room.modifySlot i Slot.clearConn) = vacate (seating s.room) i := by
      rw [modifySlot_clearConn, seating_detachAll]
    change Serves _ _ (seating (s.room.modifySlot i Slot.clearConn))
    rw [hroom]
    exact .dropped hc hm (.done _)

theorem sends_accept {env : Env} {s : Call} {i : Nat} {c : Conn} {msg : Msg}
    (hc : (s.room.slot i).conn = some c) (hm : Notice i msg) (hok : s.accepts env = true) :
    Sends s (s.enqueue env c msg) :=
  ⟨[.enqueue c msg true], by simp [Call.enqueue, hok], .sent hc hm (.done _)⟩

/-- Everyone in `r` who is not excepted may be told `msg`. -/
def Fit (r : Room) (msg : Msg) (except : Option Nat) : Prop :=
  ∀ i c, (r.slot i).conn = some c → some i ≠ except → Notice i msg

theorem Fit.of_sends {s t : Call} {msg : Msg} {except : Option Nat} (h : Fit s.room msg except)
    (hs : Sends s t) : Fit t.room msg except := by
  obtain ⟨out, -, hserves⟩ := hs
  exact fun i c hc => h i c (hserves.subset hc)

theorem sendAllLoop_sends (env : Env) (msg : Msg) (except : Option Nat) (l : List Nat) (s : Call)
    (hfit : Fit s.room msg except) : Sends s (sendAllLoop env msg except l s).1 := by
  induction l generalizing s with
  | nil => exact .refl s
  | cons i rest ih =>
    rw [sendAllLoop]
    by_cases hex : some i = except
    · rw [if_pos hex]
      exact ih s hfit
    rw [if_neg hex]
    cases hc : (s.room.slot i).conn with
    | none => exact ih s hfit
    | some c =>
      have hm := hfit i c hc hex
      simp only
      by_cases hok : s.accepts env = true
      · rw [if_pos hok]
        have hsent := sends_accept hc hm hok
        exact hsent.trans (ih _ (hfit.of_sends hsent))
      · rw [if_neg hok]
        have hsent := sends_refuse hc hm (Bool.eq_false_iff.2 hok)
        exact hsent.trans (ih _ (hfit.of_sends hsent))

theorem sendAllLocked_sends (env : Env) (msg : Msg) (except : Option Nat) (s : Call)
    (hfit : Fit s.room msg except) : Sends s (sendAllLocked env msg except s).1 :=
  sendAllLoop_sends env msg except _ s hfit

/-- The slots in `dead` are empty, so that everyone may be told that they are. -/
def Empty (r : Room) (dead : List Nat) : Prop := ∀ i ∈ dead, (r.slot i).conn = none

theorem Empty.fit {r : Room} {dead : List Nat} (h : Empty r dead) {id : Nat} (hid : id ∈ dead) :
    Fit r (leftMsg id) none := by
  intro i c hc _
  change id ≠ i
  rintro rfl
  rw [h id hid] at hc
  cases hc

theorem Empty.of_sends {s t : Call} {dead : List Nat} (h : Empty s.room dead)
    (hs : Sends s t) : Empty t.room dead := by
  obtain ⟨out, -, hserves⟩ := hs
  intro i hi
  by_contra hne
  obtain ⟨c, hc⟩ := Option.ne_none_iff_exists'.1 hne
  have hold := hserves.subset hc
  rw [seating, h i hi] at hold
  cases hold

theorem empty_dead (env : Env) (msg : Msg) (except : Option Nat) (s : Call) :
    Empty (sendAllLocked env msg except s).1.room (sendAllLocked env msg except s).2 := by
  obtain ⟨out, dead, heq, -⟩ := sendAllLocked_spec env msg except s
  rw [heq]
  intro i hi
  rw [slot_detachAll, if_pos hi]
  rfl

theorem announceLoop_sends (env : Env) (dead : List Nat) (s : Call) (hdead : Empty s.room dead) :
    Sends s (announceLoop env dead s).1 ∧
      Empty (announceLoop env dead s).1.room (announceLoop env dead s).2 := by
  induction dead generalizing s with
  | nil => exact ⟨.refl s, fun i hi => by cases hi⟩
  | cons id rest ih =>
    have hsent := sendAllLocked_sends env (leftMsg id) none s (hdead.fit List.mem_cons_self)
    have hmore := empty_dead env (leftMsg id) none s
    have hrest : Empty (sendAllLocked env (leftMsg id) none s).1.room rest := fun i hi =>
      hdead.of_sends hsent i (List.mem_cons_of_mem _ hi)
    obtain ⟨hloop, hnext⟩ := ih _ hrest
    simp only [announceLoop]
    refine ⟨hsent.trans hloop, fun i hi => ?_⟩
    rcases List.mem_append.1 hi with hi | hi
    · exact hmore.of_sends hloop i hi
    · exact hnext i hi

theorem announceAll_sends (env : Env) (fuel : Nat) (dead : List Nat) (s : Call)
    (hdead : Empty s.room dead) : Sends s (announceAll env fuel dead s) := by
  induction fuel generalizing dead s with
  | zero => exact .refl s
  | succ fuel ih =>
    cases dead with
    | nil => exact .refl s
    | cons id rest =>
      obtain ⟨hloop, hnext⟩ := announceLoop_sends env (id :: rest) s hdead
      simp only [announceAll]
      exact hloop.trans (ih _ _ hnext)

theorem broadcastLocked_sends (env : Env) (msg : Msg) (except : Option Nat) (s : Call)
    (hfit : Fit s.room msg except) : Sends s (broadcastLocked env msg except s) := by
  have hsent := sendAllLocked_sends env msg except s hfit
  have hall := announceAll_sends env ((sendAllLocked env msg except s).1.room.slots.length + 1)
    _ _ (empty_dead env msg except s)
  exact (hsent.trans hall).updateEmpty _

/-- What an operation that changes the transports from `f` to `g` has them hear. A joiner
is given its slot: the joined message comes first. -/
structure Plays (f : Seating) (joiner : Option (Conn × Nat)) (out : List Out) (g : Seating) :
    Prop where
  held : ∀ i c, f i = some c → Spell i (g i = some c) (stream c out)
  entered : ∀ c i, joiner = some (c, i) → ∃ msg items, stream c out =
    .offered (.joined msg) :: items ∧ msg.selfID = i ∧ Spell i (g i = some c) items
  absent : ∀ c, (∀ i, f i ≠ some c) → (∀ i, joiner ≠ some (c, i)) → stream c out = []

theorem Plays.nothing (f : Seating) : Plays f none [] f where
  held := fun i _ _ => .nothing i _
  entered := fun _ _ h => nomatch h
  absent := fun _ _ _ => rfl

theorem Serves.plays {f g : Seating} {out : List Out} (hf : OneEach f) (h : Serves f out g) :
    Plays f none out g where
  held := fun _ _ hc => h.spell hf hc
  entered := fun _ _ hj => nomatch hj
  absent := fun _ hc _ => h.absent hc

theorem vacate_of_ne {f : Seating} {i k : Nat} (h : i ≠ k) : vacate f k i = f i := if_neg h

theorem Serves.plays_vacated {f g : Seating} {out : List Out} (hf : OneEach f) {k : Nat}
    (h : Serves (vacate f k) out g) : Plays f none out g where
  held := by
    intro i c hc
    by_cases hik : i = k
    · subst hik
      have hnone : ∀ j, vacate f i j ≠ some c := by
        intro j hj
        unfold vacate at hj
        split_ifs at hj with hji
        exact hji (hf j i c hj hc)
      rw [h.absent hnone]
      exact .nothing i _
    · exact h.spell (hf.vacate k) (by rw [vacate_of_ne hik, hc])
  entered := fun _ _ hj => nomatch hj
  absent := by
    intro c hc _
    apply h.absent
    intro i hi
    unfold vacate at hi
    split_ifs at hi
    exact hc i hi

/-- The transports once `conn` has slot `id`. -/
def take (f : Seating) (id : Nat) (conn : Conn) : Seating :=
  fun i => if i = id then some conn else f i

theorem OneEach.take {f : Seating} (hf : OneEach f) {conn : Conn} (hfree : ∀ j, f j ≠ some conn)
    (id : Nat) : OneEach (take f id conn) := by
  intro i j c hi hj
  unfold Streams.take at hi hj
  split_ifs at hi hj with hi' hj' hj'
  · rw [hi', hj']
  · exact absurd (hj.trans hi.symm) (hfree j)
  · exact absurd (hi.trans hj.symm) (hfree i)
  · exact hf i j c hi hj

/-- A slot is given to `conn`: whoever had it is kicked, then `conn` is offered its joined
message, then the others are told. -/
theorem plays_entering {f g : Seating} {id : Nat} {conn : Conn} {first rest : List Out}
    {msg : Joined} {ok : Bool} (hf : OneEach f) (hfree : ∀ j, f j ≠ some conn)
    (hfirst : Serves f first (vacate f id)) (hmsg : msg.selfID = id)
    (hrest : Serves (if ok then take f id conn else vacate (take f id conn) id) rest g) :
    Plays f (some (conn, id))
      (first ++ .enqueue conn (.joined msg) ok :: (refusedKick ok conn ++ rest)) g := by
  have hone := hf.take hfree id
  have hself : take f id conn id = some conn := if_pos rfl
  have hothers : ∀ c, c ≠ conn → stream c (first ++
      .enqueue conn (.joined msg) ok :: (refusedKick ok conn ++ rest)) =
        stream c first ++ stream c rest := by
    intro c hc
    have hne : conn ≠ c := Ne.symm hc
    cases ok <;> simp [refusedKick, hne]
  have hsub : ∀ i c, g i = some c → take f id conn i = some c := by
    intro i c hg
    have h := hrest.subset hg
    cases ok
    · simp only [Bool.false_eq_true, if_false, vacate] at h
      split_ifs at h
      exact h
    · exact h
  have hgone : ∀ c, (∀ i, take f id conn i ≠ some c) → stream c rest = [] := by
    intro c hc
    apply hrest.absent
    intro i hi
    cases ok
    · simp only [Bool.false_eq_true, if_false, vacate] at hi
      split_ifs at hi
      exact hc i hi
    · exact hc i hi
  refine ⟨?_, ?_, ?_⟩
  · intro i c hc
    have hne : c ≠ conn := fun he => hfree i (he ▸ hc)
    rw [hothers c hne]
    by_cases hi : i = id
    · subst hi
      have hnone : ∀ j, take f i conn j ≠ some c := by
        intro j hj
        unfold take at hj
        split_ifs at hj with hji
        · exact hne (Option.some.inj hj).symm
        · exact hji (hf j i c hj hc)
      rw [hgone c hnone, List.append_nil]
      obtain ⟨notices, kick, heq, hnotices, -⟩ := hfirst.spell hf hc
      exact ⟨notices, kick, heq, hnotices, fun hg => absurd (hsub i c hg) (hnone i)⟩
    · have htake : take f id conn i = some c := by rw [take, if_neg hi, hc]
      have hspell : Spell i (g i = some c) (stream c rest) := by
        cases ok
        · exact hrest.spell (hone.vacate id) (by simpa [vacate, hi] using htake)
        · exact hrest.spell hone htake
      exact (hfirst.spell hf hc).append (by rw [vacate_of_ne hi, hc]) hspell
  · intro c i hj
    cases hj
    rw [stream_append, hfirst.absent hfree, List.nil_append, stream_enqueue, if_pos rfl]
    refine ⟨msg, _, rfl, hmsg, ?_⟩
    cases ok
    · have hnone : ∀ i, vacate (take f id conn) id i ≠ some conn := by
        intro i hi
        unfold vacate at hi
        split_ifs at hi with hid
        exact hid (hone i id conn hi hself)
      have hnot : g id ≠ some conn := fun hg => hnone id (hrest.subset hg)
      simpa [refusedKick, hrest.absent hnone] using Spell.kicked id hnot .slowConsumer
    · simpa [refusedKick] using hrest.spell hone hself
  · intro c hc hj
    have hne : c ≠ conn := fun he => hj id (he ▸ rfl)
    rw [hothers c hne, hfirst.absent hc, List.nil_append]
    apply hgone
    intro i hi
    unfold take at hi
    split_ifs at hi
    · exact hne (Option.some.inj hi).symm
    · exact hc i hi

/-- The slot that an answered join or claim gives its transport. -/
def joinerOf (conn : Conn) : Except ProtoError Nat → Option (Conn × Nat)
  | .ok id => some (conn, id)
  | .error _ => none

def Played (s : Call) (conn : Conn) (res : Call × Except ProtoError Nat) : Prop :=
  ∃ out, res.1.out = s.out ++ out ∧
    Plays (seating s.room) (joinerOf conn res.2) out (seating res.1.room)

theorem played_error (s : Call) (conn : Conn) (err : ProtoError) :
    Played s conn (s, .error err) := ⟨[], by simp, .nothing _⟩

theorem vacate_of_none {f : Seating} {i : Nat} (h : f i = none) : vacate f i = f := by
  funext j
  unfold vacate
  split_ifs with hj
  · rw [hj, h]
  · rfl

theorem displace_serves (s : Call) (id : Nat) (code : ErrCode) (text : String) :
    ∃ first, (s.displace id code text).out = s.out ++ first ∧
      Serves (seating s.room) first (vacate (seating s.room) id) ∧
      seating (s.displace id code text).room = vacate (seating s.room) id := by
  unfold Call.displace
  cases hc : (s.room.slot id).conn with
  | none =>
    rw [vacate_of_none (show seating s.room id = none from hc)]
    exact ⟨[], by simp, .done _, rfl⟩
  | some old =>
    refine ⟨[.kick old code text], rfl, .kicked hc (.done _), ?_⟩
    simp only [Call.kick, Call.modifySlot, modifySlot_clearConn, seating_detachAll]

theorem seating_modifySlot {r : Room} {id : Nat} (hid : id < r.slots.length) {f : Slot → Slot}
    {conn : Conn} (hf : (f (r.slot id)).conn = some conn) :
    seating (r.modifySlot id f) = take (seating r) id conn := by
  funext j
  simp only [seating, take, slot_modifySlot]
  by_cases hj : j = id
  · rw [if_pos ⟨hj, hid⟩, if_pos hj, hf]
  · rw [if_neg (fun h => hj h.1), if_neg hj]

theorem take_vacate (f : Seating) (id : Nat) (conn : Conn) :
    take (vacate f id) id conn = take f id conn := by
  funext j
  unfold take vacate
  split_ifs <;> rfl

theorem deliverJoinedLocked_calls (env : Env) (id : Nat) (token : String) (conn : Conn)
    (s : Call) :
    (deliverJoinedLocked env id token conn s).out = s.out ++ .enqueue conn
        (buildJoined s.room id token env.now) (s.accepts env) :: refusedKick (s.accepts env) conn ∧
      seating (deliverJoinedLocked env id token conn s).room =
        if s.accepts env then seating s.room else vacate (seating s.room) id := by
  unfold deliverJoinedLocked
  by_cases hok : s.accepts env = true
  · simp only [hok, if_true]
    exact ⟨by simp [Call.enqueue, refusedKick, hok], rfl⟩
  · simp only [hok, if_false, Bool.false_eq_true]
    constructor
    · simp [Call.enqueue, Call.modifySlot, Call.kick, Call.updateEmpty, refusedKick, hok]
    · change seating ((s.room.modifySlot id Slot.clearConn).updateEmpty env.now) = _
      rw [seating_updateEmpty, modifySlot_clearConn, seating_detachAll]

theorem acquire_played (env : Env) (token : String) {id : Nat} {conn : Conn} {s t u : Call}
    {first : List Out} (hf : OneEach (seating s.room)) (hfree : ∀ j, seating s.room j ≠ some conn)
    (hout : t.out = s.out ++ first)
    (hfirst : Serves (seating s.room) first (vacate (seating s.room) id))
    (ht : seating t.room = take (seating s.room) id conn)
    (hrest : Sends (deliverJoinedLocked env id token conn t) u) : Played s conn (u, .ok id) := by
  obtain ⟨hcalls, hseating⟩ := deliverJoinedLocked_calls env id token conn t
  obtain ⟨rest, hu, hserves⟩ := hrest
  rw [hseating, ht] at hserves
  refine ⟨first ++ .enqueue conn (buildJoined t.room id token env.now) (t.accepts env) ::
    (refusedKick (t.accepts env) conn ++ rest), ?_, ?_⟩
  · simp only [hu, hcalls, hout, List.append_assoc, List.cons_append]
  · exact plays_entering hf hfree hfirst rfl hserves

theorem fit_but (r : Room) {id : Nat} {msg : Msg} (h : ∀ i, id ≠ i → Notice i msg) :
    Fit r msg (some id) := fun i _ _ hne => h i fun he => hne (he ▸ rfl)

variable (sha256 : String → TokenHash) (env : Env)

theorem length_displace (s : Call) (id : Nat) (code : ErrCode) (text : String) :
    (s.displace id code text).room.slots.length = s.room.slots.length := by
  unfold Call.displace
  split
  · rfl
  · exact length_modifySlot ..

theorem seating_displaced (s : Call) {id : Nat} (hid : id < s.room.slots.length) (code : ErrCode)
    (text : String) {f : Slot → Slot} {conn : Conn} (hf : ∀ t, (f t).conn = some conn) :
    seating ((s.displace id code text).room.modifySlot id f) = take (seating s.room) id conn := by
  obtain ⟨first, -, -, hseating⟩ := displace_serves s id code text
  rw [seating_modifySlot (by rwa [length_displace]) (hf _), hseating, take_vacate]

theorem resumeLocked_played (id : Nat) (conn : Conn) (s : Call)
    (hf : OneEach (seating s.room)) (hfree : ∀ j, seating s.room j ≠ some conn)
    (hid : id < s.room.slots.length) : Played s conn (resumeLocked sha256 env id conn s) := by
  unfold resumeLocked
  cases newToken sha256 env with
  | none => exact played_error ..
  | some fresh =>
    obtain ⟨token, hash⟩ := fresh
    obtain ⟨first, hout, hfirst, -⟩ := displace_serves s id .superseded supersededText
    let t : Call := ((s.displace id .superseded supersededText).modifySlot id
      (Slot.resumed conn hash env.now)).updateEmpty env.now
    have ht : seating t.room = take (seating s.room) id conn :=
      (seating_updateEmpty ..).trans
        (seating_displaced s hid .superseded supersededText fun _ => rfl)
    exact acquire_played env token hf hfree (t := t) hout hfirst ht
      (broadcastLocked_sends env _ _ _ (fit_but _ fun _ h => h))

theorem replaceLocked_played (id : Nat) (conn : Conn) (s : Call)
    (hf : OneEach (seating s.room)) (hfree : ∀ j, seating s.room j ≠ some conn)
    (hid : id < s.room.slots.length) : Played s conn (replaceLocked sha256 env id conn s) := by
  unfold replaceLocked
  cases newToken sha256 env with
  | none => exact played_error ..
  | some fresh =>
    obtain ⟨token, hash⟩ := fresh
    obtain ⟨first, hout, hfirst, -⟩ := displace_serves s id .replaced replacedText
    let t : Call := ((s.displace id .replaced replacedText).modifySlot id
      (Slot.replaced conn hash env.now)).updateEmpty env.now
    have ht : seating t.room = take (seating s.room) id conn :=
      (seating_updateEmpty ..).trans
        (seating_displaced s hid .replaced replacedText fun _ => rfl)
    exact acquire_played env token hf hfree (t := t) hout hfirst ht
      (broadcastLocked_sends env _ _ _ (fit_but _ fun _ h => h))

theorem occupyLocked_played (id : Nat) (conn : Conn) (s : Call)
    (hf : OneEach (seating s.room)) (hfree : ∀ j, seating s.room j ≠ some conn)
    (hid : id < s.room.slots.length) (hnone : (s.room.slot id).conn = none) :
    Played s conn (occupyLocked sha256 env id conn s) := by
  unfold occupyLocked
  cases newToken sha256 env with
  | none => exact played_error ..
  | some fresh =>
    obtain ⟨token, hash⟩ := fresh
    let taken := s.room.modifySlot id fun _ => Slot.occupiedBy conn hash env.now
    let t : Call := ⟨taken.start.updateEmpty env.now, s.out⟩
    have ht : seating t.room = take (seating s.room) id conn := by
      have hstart : seating taken.start = seating taken := by
        unfold Room.start
        split_ifs <;> rfl
      rw [← seating_modifySlot (f := fun _ => Slot.occupiedBy conn hash env.now) hid rfl]
      exact (seating_updateEmpty ..).trans hstart
    have hfirst : Serves (seating s.room) [] (vacate (seating s.room) id) := by
      rw [vacate_of_none (show seating s.room id = none from hnone)]
      exact .done _
    have hjoined := broadcastLocked_sends env
      (.playerJoined id ((deliverJoinedLocked env id token conn t).room.snapshot env.now)) (some id)
      (deliverJoinedLocked env id token conn t) (fit_but _ fun _ h => h)
    refine acquire_played env token hf hfree (t := t) (by simp [t]) hfirst ht ?_
    by_cases hstart : taken.startsNow = true
    · have hnow : (s.modifySlot id fun _ => Slot.occupiedBy conn hash env.now).room.startsNow =
        true := hstart
      simp only [hnow, if_true]
      exact hjoined.trans (broadcastLocked_sends env _ _ _ (fit_but _ fun _ _ => trivial))
    · have hnow : ¬(s.modifySlot id fun _ => Slot.occupiedBy conn hash env.now).room.startsNow =
        true := hstart
      simp only [hnow]
      exact hjoined

theorem played_activity {conn : Conn} {s : Call} {res : Call × Except ProtoError Nat}
    (h : Played (s.activity env.now) conn res) : Played s conn res := h

theorem freshJoin_played (code : String) (conn : Conn) (s : Call) (hs : Sound s.room)
    (hf : OneEach (seating s.room)) (hfree : ∀ j, seating s.room j ≠ some conn) :
    Played s conn (freshJoin sha256 env code conn s) := by
  unfold freshJoin
  by_cases hlate : (s.room.started && !s.room.opts.allowLateJoin) = true
  · rw [if_pos hlate]
    exact played_error ..
  rw [if_neg hlate]
  cases hfind : freeSlot s.room with
  | none => exact played_error ..
  | some id =>
    obtain ⟨hid, hocc, -⟩ := freeSlot_lt hfind
    exact occupyLocked_played sha256 env id conn s hf hfree hid (hs.unoccupied hocc)

theorem joinRoom_played (appID code resumeToken : String) (conn : Conn) (s : Call)
    (hs : Sound s.room) (hf : OneEach (seating s.room))
    (hfree : ∀ j, seating s.room j ≠ some conn) :
    Played s conn (joinRoom sha256 env appID code resumeToken conn s) := by
  unfold joinRoom
  by_cases hdes : s.room.destroyed = true
  · rw [if_pos hdes]
    exact played_error ..
  rw [if_neg hdes]
  by_cases happ : s.room.appID ≠ appID
  · rw [if_pos happ]
    exact played_error ..
  rw [if_neg happ]
  apply played_activity env
  have hfresh := freshJoin_played sha256 env code conn (s.activity env.now) hs hf hfree
  by_cases htoken : resumeToken ≠ "" ∧ (s.activity env.now).room.opts.allowReconnect = true
  · rw [if_pos htoken]
    cases hfind : (s.activity env.now).room.findToken sha256 resumeToken with
    | none => exact hfresh
    | some id =>
      exact resumeLocked_played sha256 env id conn _ hf hfree (findToken_lt sha256 hfind).1
  · rw [if_neg htoken]
    exact hfresh

theorem claimRoom_played (appID code : String) (playerID : Int) (conn : Conn) (s : Call)
    (hs : Sound s.room) (hf : OneEach (seating s.room))
    (hfree : ∀ j, seating s.room j ≠ some conn) :
    Played s conn (claimRoom sha256 env appID code playerID conn s) := by
  unfold claimRoom
  by_cases hdes : s.room.destroyed = true
  · rw [if_pos hdes]
    exact played_error ..
  rw [if_neg hdes]
  by_cases happ : s.room.appID ≠ appID
  · rw [if_pos happ]
    exact played_error ..
  rw [if_neg happ]
  apply played_activity env
  by_cases hrange : playerID < 0 ∨ playerID ≥ (s.activity env.now).room.slots.length
  · simp only [hrange, if_true]
    exact played_error ..
  have hid : playerID.toNat < (s.activity env.now).room.slots.length := by omega
  simp only [hrange, if_false]
  split_ifs with hpolicy hocc hsilent
  · exact played_error ..
  · have hnone : ((s.activity env.now).room.slot playerID.toNat).conn = none :=
      hs.unoccupied (by simpa using hocc)
    exact occupyLocked_played sha256 env _ conn _ hf hfree hid hnone
  · exact played_error ..
  · exact replaceLocked_played sha256 env _ conn _ hf hfree hid

def Settles (s t : Call) : Prop :=
  ∃ out, t.out = s.out ++ out ∧ Plays (seating s.room) none out (seating t.room)

theorem settles_refl (s : Call) : Settles s s := ⟨[], by simp, .nothing _⟩

theorem settles_still {s t : Call} (hout : t.out = s.out) (hroom : seating t.room = seating s.room) :
    Settles s t := ⟨[], by simp [hout], hroom ▸ .nothing _⟩

theorem Sends.settles {s t : Call} (h : Sends s t) (hf : OneEach (seating s.room)) :
    Settles s t := by
  obtain ⟨out, hout, hserves⟩ := h
  exact ⟨out, hout, hserves.plays hf⟩

theorem Settles.of_seating {s s' t : Call} (h : Settles s' t) (hout : s'.out = s.out)
    (hroom : seating s'.room = seating s.room) : Settles s t := by
  obtain ⟨out, heq, hplays⟩ := h
  exact ⟨out, heq.trans (by rw [hout]), hroom ▸ hplays⟩

theorem seating_seen (s : Call) (i : Nat) (now : Time) :
    seating ((s.modifySlot i fun t => { t with lastSeenAt := now }).activity now).room =
      seating s.room := by
  funext j
  exact conn_refreshed s.room i j now

theorem touch_settles (i : Nat) (conn : Conn) (s : Call) : Settles s (touch env i conn s) := by
  unfold touch
  split_ifs
  · exact settles_refl s
  · exact settles_still rfl (seating_seen s i env.now)

theorem relay_settles (i : Nat) (target : Int) (payload : String) (s : Call)
    (hf : OneEach (seating s.room)) : Settles s (relay env i target payload s).1 := by
  unfold relay
  by_cases hself : target = i
  · rw [if_pos hself]
    exact settles_refl s
  rw [if_neg hself]
  by_cases hrange : target < 0 ∨ target ≥ s.room.slots.length
  · rw [if_pos hrange]
    exact settles_refl s
  rw [if_neg hrange]
  by_cases hocc : (s.room.slot target.toNat).occupied = false
  · simp only [hocc, if_true]
    exact settles_refl s
  simp only [hocc]
  cases hc : (s.room.slot target.toNat).conn with
  | none => exact settles_refl s
  | some c =>
    have hm : Notice target.toNat (.signal i payload) := by
      change i ≠ target.toNat
      omega
    simp only
    by_cases hok : s.accepts env = true
    · rw [if_pos hok]
      exact (sends_accept hc hm hok).settles hf
    · rw [if_neg hok]
      have hsent := sends_refuse hc hm (Bool.eq_false_iff.2 hok)
      have hempty : Empty (((s.enqueue env c (.signal i payload)).modifySlot target.toNat
          Slot.clearConn).kick c .slowConsumer slowConsumerText).room [target.toNat] := by
        intro j hj
        obtain rfl := List.mem_singleton.1 hj
        change ((s.room.modifySlot target.toNat Slot.clearConn).slot target.toNat).conn = none
        rw [modifySlot_clearConn, slot_detachAll, if_pos List.mem_cons_self]
        rfl
      have htold := broadcastLocked_sends env (leftMsg target.toNat) none _
        (hempty.fit List.mem_cons_self)
      exact ((hsent.trans htold).updateEmpty env.now).settles hf

theorem signal_settles (i : Nat) (conn : Conn) (target : Int) (payload : String) (s : Call)
    (hf : OneEach (seating s.room)) : Settles s (signal env i conn target payload s).1 := by
  unfold signal
  by_cases hdes : s.room.destroyed = true
  · rw [if_pos hdes]
    exact settles_refl s
  rw [if_neg hdes]
  by_cases hcur : s.room.isCurrent i conn = true
  · rw [if_neg (by simpa using hcur)]
    have hseen := seating_seen s i env.now
    exact (relay_settles env i target payload _ (hseen ▸ hf)).of_seating rfl hseen
  · rw [if_pos (by simpa using hcur)]
    exact settles_refl s

theorem vacated_settles {s t : Call} {i : Nat} {reason : LeftReason}
    (hf : OneEach (seating s.room)) (hout : t.out = s.out)
    (hroom : seating t.room = vacate (seating s.room) i) :
    Settles s ((broadcastLocked env (.playerLeft i reason) none t).updateEmpty env.now) := by
  have hfit : Fit t.room (.playerLeft i reason) none := by
    intro j c hc _
    change i ≠ j
    rintro rfl
    have hnone : seating t.room i = none := by rw [hroom, vacate, if_pos rfl]
    rw [seating, hc] at hnone
    cases hnone
  obtain ⟨out, heq, hserves⟩ :=
    (broadcastLocked_sends env _ none t hfit).updateEmpty env.now
  exact ⟨out, heq.trans (by rw [hout]), Serves.plays_vacated hf (hroom ▸ hserves)⟩

theorem leave_settles (i : Nat) (conn : Conn) (s : Call) (hf : OneEach (seating s.room)) :
    Settles s (leave env i conn s) := by
  unfold leave
  split_ifs
  · exact settles_refl s
  · simp only [Int.toNat_natCast]
    refine vacated_settles env hf (by rfl) ?_
    funext j
    change ((freed s.room i env.now).slot j).conn = vacate (seating s.room) i j
    rw [slot_freed, vacate]
    by_cases hj : j = i
    · rw [if_pos hj]
      split_ifs with hlt
      · rfl
      · rw [slot_of_ge s.room (by omega)]
    · rw [if_neg hj, if_neg fun h => hj h.1]
      rfl

theorem disconnect_settles (i : Nat) (conn : Conn) (s : Call) (hf : OneEach (seating s.room)) :
    Settles s (disconnect env i conn s) := by
  unfold disconnect
  split_ifs
  · exact settles_refl s
  · simp only [Int.toNat_natCast]
    refine vacated_settles env (i := i) hf (by rfl) ?_
    change seating (s.room.modifySlot i Slot.clearConn) = _
    rw [modifySlot_clearConn, seating_detachAll]

end Lobbylink.Server.Streams
