import Lobbylink.Ts.Game

/-! Who hears of the events of the browser client. Events without a listener wait for the first
one, and a microtask replays them. -/
namespace Lobbylink.Ts.Listeners
open Lib.Runs
open Client.Native (Event)

def maxPendingEvents : Nat := 256

/-- `microtasks` are the backlogs still to be replayed. `heard`, `delivered` and `told` are the
history: what each listener heard, what any heard, and all the events while the game was open, each
with whether it came when there was neither a listener nor room. -/
structure Hub where
  listeners : List Nat
  pendingEvents : List Event
  microtasks : List (List Event)
  closedFlag : Bool
  heard : Nat → List Event
  delivered : List Event
  told : List (Event × Bool)

def Hub.new : Hub := ⟨[], [], [], false, fun _ => [], [], []⟩

inductive Action where
  | onEvent (cb : Nat)
  | unsubscribe (cb : Nat)
  | close

/-- `listeners.add`. -/
def Hub.add (h : Hub) (cb : Nat) : Hub :=
  { h with listeners := if h.listeners.contains cb then h.listeners else h.listeners ++ [cb] }

def Hub.onEvent (h : Hub) (cb : Nat) : Hub :=
  if h.pendingEvents.length > 0 then
    { h.add cb with pendingEvents := [], microtasks := h.microtasks ++ [h.pendingEvents] }
  else h.add cb

def Hub.close (h : Hub) : Hub :=
  if h.closedFlag then h else { h with closedFlag := true, listeners := [], pendingEvents := [] }

def Hub.act (h : Hub) : Action → Hub
  | .onEvent cb => h.onEvent cb
  | .unsubscribe cb => { h with listeners := h.listeners.filter (· ≠ cb) }
  | .close => h.close

/-- The loop is over a copy of the set, so it calls all of them. -/
def Hub.deliver (h : Hub) (ev : Event) : Hub :=
  { h with
    heard := fun cb => if h.listeners.contains cb then h.heard cb ++ [ev] else h.heard cb
    delivered := h.delivered ++ [ev] }

/-- `react` is what the listeners call when they hear of the event. -/
def Hub.emit (react : List Action) (h : Hub) (ev : Event) : Hub :=
  if h.closedFlag then h
  else if h.listeners = [] then
    if h.pendingEvents.length < maxPendingEvents then
      { h with pendingEvents := h.pendingEvents ++ [ev] }
    else h
  else react.foldl Hub.act (h.deliver ev)

/-- There is neither a listener nor room. -/
def Hub.full (h : Hub) : Bool := h.listeners.isEmpty && decide (maxPendingEvents ≤ h.pendingEvents.length)

def Hub.tell (react : List Action) (h : Hub) (ev : Event) : Hub :=
  if h.closedFlag then h else Hub.emit react { h with told := h.told ++ [(ev, h.full)] } ev

def Hub.replay : List (List Action) → Hub → List Event → Hub
  | _, h, [] => h
  | reacts, h, ev :: rest => Hub.replay reacts.tail (h.emit (reacts.headD []) ev) rest

inductive Label where
  | act (action : Action)
  | event (ev : Event) (react : List Action)
  | microtask (reacts : List (List Action))

def Hub.take (h : Hub) : Label → Hub
  | .act action => h.act action
  | .event ev react => h.tell react ev
  | .microtask reacts =>
    match h.microtasks with
    | [] => h
    | backlog :: rest => Hub.replay reacts { h with microtasks := rest } backlog

/-- An event comes in a task of its own, and the microtasks that are due run before. -/
def Hub.Enabled (h : Hub) : Label → Prop
  | .event .. => h.microtasks = []
  | _ => True

def system : System Hub Label where
  init := fun h => h = .new
  step := fun h l h' => h.Enabled l ∧ h' = h.take l

/-- The events that came when there was a listener or room. -/
def kept (told : List (Event × Bool)) : List Event := (told.filter fun e => !e.2).map (·.1)

theorem kept_append (told : List (Event × Bool)) (ev : Event) (full : Bool) :
    kept (told ++ [(ev, full)]) = if full then kept told else kept told ++ [ev] := by
  unfold kept
  cases full <;> simp

structure Good (h : Hub) : Prop where
  idle : h.pendingEvents ≠ [] → h.listeners = [] ∧ h.microtasks = []
  bound : h.pendingEvents.length ≤ maxPendingEvents
  due : ∃ backlog, backlog.length ≤ maxPendingEvents ∧ (h.microtasks = [] ∨ h.microtasks = [backlog])
  keeps : h.closedFlag = false →
    h.delivered ++ (h.microtasks.flatten ++ h.pendingEvents) = kept h.told

/-- While the events `rest` are to be replayed. -/
structure Replaying (h : Hub) (rest : List Event) : Prop where
  idle : h.pendingEvents ≠ [] → h.listeners = []
  none : h.microtasks = []
  bound : h.pendingEvents.length + rest.length ≤ maxPendingEvents
  keeps : h.closedFlag = false → h.delivered ++ (h.pendingEvents ++ rest) = kept h.told

theorem good_act {h : Hub} (hgood : Good h) (action : Action) : Good (h.act action) := by
  cases action with
  | onEvent cb =>
    rw [Hub.act, Hub.onEvent]
    by_cases hwaits : h.pendingEvents.length > 0
    · rw [if_pos hwaits]
      obtain ⟨-, hnone⟩ := hgood.idle (List.ne_nil_of_length_pos hwaits)
      refine ⟨fun hne => absurd rfl hne, Nat.zero_le _, ⟨h.pendingEvents, hgood.bound, .inr ?_⟩,
        fun hopen => ?_⟩
      · simp [hnone]
      · have hkeeps := hgood.keeps hopen
        rw [hnone, List.flatten_nil, List.nil_append] at hkeeps
        simpa [hnone, Hub.add] using hkeeps
    · rw [if_neg hwaits]
      have hnil : h.pendingEvents = [] := List.eq_nil_of_length_eq_zero (Nat.eq_zero_of_not_pos hwaits)
      exact ⟨fun hne => absurd hnil hne, hgood.bound, hgood.due, hgood.keeps⟩
  | unsubscribe cb =>
    refine ⟨fun hne => ?_, hgood.bound, hgood.due, hgood.keeps⟩
    obtain ⟨hlisteners, hnone⟩ := hgood.idle hne
    exact ⟨by simp [Hub.act, hlisteners], hnone⟩
  | close =>
    simp only [Hub.act, Hub.close]
    split_ifs
    · exact hgood
    · exact ⟨fun hne => absurd rfl hne, Nat.zero_le _, hgood.due, fun hopen => by cases hopen⟩

theorem replaying_act {h : Hub} {rest : List Event} (hreplay : Replaying h rest)
    (hnil : h.pendingEvents = []) (action : Action) :
    Replaying (h.act action) rest ∧ (h.act action).pendingEvents = [] := by
  cases action with
  | onEvent cb =>
    have hwaits : ¬h.pendingEvents.length > 0 := by simp [hnil]
    rw [Hub.act, Hub.onEvent, if_neg hwaits]
    exact ⟨⟨fun hne => absurd hnil hne, hreplay.none, hreplay.bound, hreplay.keeps⟩, hnil⟩
  | unsubscribe cb =>
    exact ⟨⟨fun hne => absurd hnil hne, hreplay.none, hreplay.bound, hreplay.keeps⟩, hnil⟩
  | close =>
    simp only [Hub.act, Hub.close]
    split_ifs
    · exact ⟨hreplay, hnil⟩
    · have hbound := hreplay.bound
      rw [hnil] at hbound
      exact ⟨⟨fun hne => absurd rfl hne, hreplay.none, hbound, fun hopen => by cases hopen⟩, rfl⟩

theorem replaying_acts {h : Hub} {rest : List Event} (hreplay : Replaying h rest)
    (hnil : h.pendingEvents = []) (react : List Action) : Replaying (react.foldl Hub.act h) rest := by
  induction react generalizing h with
  | nil => exact hreplay
  | cons action react ih =>
    obtain ⟨hnext, hnil'⟩ := replaying_act hreplay hnil action
    exact ih hnext hnil'

theorem replaying_emit {h : Hub} {ev : Event} {rest : List Event} (hreplay : Replaying h (ev :: rest))
    (react : List Action) : Replaying (h.emit react ev) rest := by
  have hbound := hreplay.bound
  rw [List.length_cons] at hbound
  unfold Hub.emit
  split_ifs with hclosed hlisteners hroom
  · exact ⟨hreplay.idle, hreplay.none, by omega, fun hopen => absurd (hopen.symm.trans hclosed) (by decide)⟩
  · have hlen : (h.pendingEvents ++ [ev]).length = h.pendingEvents.length + 1 := List.length_append
    refine ⟨fun _ => hlisteners, hreplay.none, by simp only [hlen]; omega, fun hopen => ?_⟩
    simpa using hreplay.keeps hopen
  · exact absurd (by omega) hroom
  · have hnil : h.pendingEvents = [] := by
      by_contra hne
      exact hlisteners (hreplay.idle hne)
    have hroom : h.pendingEvents.length + rest.length ≤ maxPendingEvents := by omega
    have hnext : Replaying (h.deliver ev) rest := by
      refine ⟨fun hne => absurd hnil hne, hreplay.none, hroom, fun hopen => ?_⟩
      have hkeeps := hreplay.keeps hopen
      simp only [Hub.deliver, hnil, List.nil_append] at hkeeps ⊢
      rw [← hkeeps, List.append_assoc]
      rfl
    exact replaying_acts hnext hnil react

theorem good_replay {h : Hub} {backlog : List Event} (hreplay : Replaying h backlog)
    (reacts : List (List Action)) : Good (Hub.replay reacts h backlog) := by
  induction backlog generalizing h reacts with
  | nil =>
    refine ⟨fun hne => ⟨hreplay.idle hne, hreplay.none⟩, hreplay.bound, ⟨[], Nat.zero_le _, .inl hreplay.none⟩,
      fun hopen => ?_⟩
    have hkeeps := hreplay.keeps hopen
    rw [List.append_nil] at hkeeps
    have hnone := hreplay.none
    simpa only [Hub.replay, hnone, List.flatten_nil, List.nil_append] using hkeeps
  | cons ev rest ih => exact ih (replaying_emit hreplay _) _

theorem good_acts {h : Hub} (hgood : Good h) (react : List Action) : Good (react.foldl Hub.act h) := by
  induction react generalizing h with
  | nil => exact hgood
  | cons action react ih => exact ih (good_act hgood action)

theorem good_tell {h : Hub} (hgood : Good h) (hnone : h.microtasks = []) (react : List Action)
    (ev : Event) : Good (h.tell react ev) := by
  unfold Hub.tell Hub.emit
  split_ifs with hclosed hlisteners hroom
  · exact hgood
  all_goals
    have hkeeps := hgood.keeps ((Bool.not_eq_true _).mp hclosed)
    simp only [hnone, List.flatten_nil, List.nil_append] at hkeeps
  · -- it waits
    have hfull : h.full = false := by simp [Hub.full, Nat.not_le.2 hroom]
    refine ⟨fun _ => ⟨hlisteners, hnone⟩, ?_, hgood.due, fun _ => ?_⟩
    · rw [List.length_append]
      exact hroom
    · simp only [hnone, List.flatten_nil, List.nil_append, hfull, kept_append, ← List.append_assoc, hkeeps]
      rfl
  · -- it is dropped
    have hnobody : h.listeners = [] := hlisteners
    have hfull : h.full = true := by simp [Hub.full, hnobody, Nat.not_lt.1 hroom]
    refine ⟨hgood.idle, hgood.bound, hgood.due, fun _ => ?_⟩
    simpa only [hnone, List.flatten_nil, List.nil_append, hfull, kept_append, if_true] using hkeeps
  · have hnil : h.pendingEvents = [] := by
      by_contra hne
      exact hlisteners (hgood.idle hne).1
    have hfull : h.full = false := by simp [Hub.full, hlisteners]
    have hnext : Good (Hub.deliver { h with told := h.told ++ [(ev, h.full)] } ev) := by
      refine ⟨fun hne => absurd hnil hne, hgood.bound, hgood.due, fun _ => ?_⟩
      simp only [Hub.deliver, hnone, hnil, List.flatten_nil, List.append_nil, hfull, kept_append] at hkeeps ⊢
      rw [hkeeps]
      rfl
    exact good_acts hnext react

theorem good_step {h : Hub} (hgood : Good h) {l : Label} (henabled : h.Enabled l) : Good (h.take l) := by
  cases l with
  | act action => exact good_act hgood action
  | event ev react => exact good_tell hgood henabled react ev
  | microtask reacts =>
    obtain ⟨backlog, hlen, hnone | hdue⟩ := hgood.due
    · simp only [Hub.take, hnone]
      exact hgood
    · simp only [Hub.take, hdue]
      have hnil : h.pendingEvents = [] := by
        by_contra hne
        cases hdue.symm.trans (hgood.idle hne).2
      have hreplay : Replaying { h with microtasks := [] } backlog := by
        refine ⟨fun hne => absurd hnil hne, rfl, by simpa [hnil] using hlen, fun hopen => ?_⟩
        have hkeeps := hgood.keeps hopen
        simp only [hdue, hnil, List.flatten_cons, List.flatten_nil, List.append_nil] at hkeeps
        simpa only [hnil, List.nil_append] using hkeeps
      exact good_replay hreplay reacts

theorem good_run {ls : List Label} {h : Hub} (run : Run system ls h) : Good h := by
  refine run.invariant Good ?_ ?_
  · rintro h rfl
    exact ⟨fun hne => absurd rfl hne, Nat.zero_le _, ⟨[], Nat.zero_le _, .inl rfl⟩, fun _ => rfl⟩
  · rintro h l h' hgood ⟨henabled, rfl⟩
    exact good_step hgood henabled

def Action.Spares (cb : Nat) : Action → Prop
  | .onEvent _ => True
  | .unsubscribe other => other ≠ cb
  | .close => False

def Label.Spares (cb : Nat) : Label → Prop
  | .act action => action.Spares cb
  | .event _ react => ∀ action ∈ react, action.Spares cb
  | .microtask reacts => ∀ react ∈ reacts, ∀ action ∈ react, action.Spares cb

/-- From one state to another it hears all that is delivered. -/
def Hears (cb : Nat) (h h' : Hub) : Prop :=
  cb ∈ h.listeners → cb ∈ h'.listeners ∧ ∃ rest, h'.delivered = h.delivered ++ rest ∧
    h'.heard cb = h.heard cb ++ rest

theorem Hears.refl (cb : Nat) (h : Hub) : Hears cb h h := fun hcb => ⟨hcb, [], by simp⟩

theorem Hears.trans {cb : Nat} {a b c : Hub} (hfirst : Hears cb a b) (hsecond : Hears cb b c) :
    Hears cb a c := by
  intro hcb
  obtain ⟨hcb', rest, hdelivered, hheard⟩ := hfirst hcb
  obtain ⟨hcb'', rest', hdelivered', hheard'⟩ := hsecond hcb'
  exact ⟨hcb'', rest ++ rest', by rw [hdelivered', hdelivered, List.append_assoc],
    by rw [hheard', hheard, List.append_assoc]⟩

theorem hears_act {cb : Nat} (h : Hub) {action : Action} (hspares : action.Spares cb) :
    Hears cb h (h.act action) := by
  intro hcb
  cases action with
  | onEvent other =>
    have hstays : cb ∈ (h.add other).listeners := by
      rw [Hub.add]
      split_ifs
      · exact hcb
      · exact List.mem_append_left _ hcb
    rw [Hub.act, Hub.onEvent]
    split_ifs <;> exact ⟨hstays, [], by simp [Hub.add]⟩
  | unsubscribe other => exact ⟨List.mem_filter.2 ⟨hcb, by simpa using hspares.symm⟩, [], by simp [Hub.act]⟩
  | close => exact hspares.elim

theorem hears_acts {cb : Nat} (h : Hub) {react : List Action} (hspares : ∀ action ∈ react, action.Spares cb) :
    Hears cb h (react.foldl Hub.act h) := by
  induction react generalizing h with
  | nil => exact .refl cb h
  | cons action react ih =>
    obtain ⟨hfirst, hrest⟩ := List.forall_mem_cons.1 hspares
    exact (hears_act h hfirst).trans (ih _ hrest)

theorem hears_emit {cb : Nat} (h : Hub) {react : List Action} (hspares : ∀ action ∈ react, action.Spares cb)
    (ev : Event) : Hears cb h (h.emit react ev) := by
  unfold Hub.emit
  split_ifs with hclosed hlisteners
  · exact .refl cb h
  · intro hcb
    rw [hlisteners] at hcb
    cases hcb
  · intro hcb
    rw [hlisteners] at hcb
    cases hcb
  · have hfirst : Hears cb h (h.deliver ev) := fun hcb => ⟨hcb, [ev], rfl, by simp [Hub.deliver, hcb]⟩
    exact hfirst.trans (hears_acts _ hspares)

theorem hears_replay {cb : Nat} (h : Hub) {reacts : List (List Action)}
    (hspares : ∀ react ∈ reacts, ∀ action ∈ react, action.Spares cb) (backlog : List Event) :
    Hears cb h (Hub.replay reacts h backlog) := by
  induction backlog generalizing h reacts with
  | nil => exact .refl cb h
  | cons ev rest ih =>
    have hhead : ∀ action ∈ reacts.headD [], action.Spares cb := by
      cases reacts with
      | nil => simp
      | cons react reacts => exact hspares react List.mem_cons_self
    exact (hears_emit h hhead ev).trans (ih _ fun react hreact => hspares react (List.mem_of_mem_tail hreact))

theorem hears_step {cb : Nat} (h : Hub) {l : Label} (hspares : l.Spares cb) : Hears cb h (h.take l) := by
  cases l with
  | act action => exact hears_act h hspares
  | event ev react =>
    simp only [Hub.take, Hub.tell]
    split_ifs
    · exact .refl cb h
    · exact hears_emit { h with told := h.told ++ [(ev, h.full)] } hspares ev
  | microtask reacts =>
    simp only [Hub.take]
    split
    · exact .refl cb h
    · rename_i backlog rest _
      exact hears_replay { h with microtasks := rest } hspares backlog

/-- What has become of the events, and what a listener hears of them from here on. -/
structure Heard (h : Hub) : Prop where
  kept : h.closedFlag = false →
    h.delivered ++ (h.microtasks.flatten ++ h.pendingEvents) = kept h.told
  few : h.pendingEvents.length ≤ maxPendingEvents
  listener : ∀ (cb : Nat) (ms : List Label) (h' : Hub), Steps system h ms h' → (∀ l ∈ ms, l.Spares cb) →
    Hears cb h h'

theorem events_heard {ls : List Label} {h : Hub} (run : Run system ls h) : Heard h := by
  have hgood := good_run run
  refine ⟨hgood.keeps, hgood.bound, fun cb ms h' steps hspares => ?_⟩
  induction steps with
  | refl => exact .refl cb h
  | snoc _ hstep ih =>
    obtain ⟨-, rfl⟩ := hstep
    have hlast := hspares _ (List.mem_append_right _ (List.mem_singleton_self _))
    exact (ih fun l hl => hspares l (List.mem_append_left _ hl)).trans (hears_step _ hlast)

theorem run_next {ls : List Label} {h : Hub} (run : Run system ls h) (l : Label) (henabled : h.Enabled l) :
    Run system (ls ++ [l]) (h.take l) := run.step ⟨henabled, rfl⟩

/-- More events than there is room for, and a listener that comes after them. -/
def lateEvents : List Event := (List.range 257).map .playerJoined

def crowdedHub : Hub := (lateEvents.map (Label.event · [])).foldl Hub.take .new

def lateHub : Hub := (crowdedHub.take (.act (.onEvent 7))).take (.microtask [])

theorem run_events {ls : List Label} {h : Hub} (run : Run system ls h) (hnone : h.microtasks = [])
    (evs : List Event) : ∃ ms, Run system ms ((evs.map (Label.event · [])).foldl Hub.take h) := by
  induction evs generalizing ls h with
  | nil => exact ⟨ls, run⟩
  | cons ev rest ih =>
    refine ih (run_next run (.event ev []) hnone) ?_
    simp only [Hub.take, Hub.tell, Hub.emit, List.foldl_nil]
    split_ifs <;> exact hnone

def joinedOf : Event → Option Nat
  | .playerJoined p => some p
  | _ => none

theorem events_heard_late :
    (lateHub.heard 7).map joinedOf = (List.range 256).map some ∧ Heard lateHub := by
  have hstart : Run system [] Hub.new := .init rfl
  have hcrowded : ∃ ms, Run system ms crowdedHub := run_events hstart rfl lateEvents
  obtain ⟨ms, hcrowded⟩ := hcrowded
  have hcame := run_next hcrowded (.act (.onEvent 7)) trivial
  have hreplayed := run_next hcame (.microtask []) trivial
  exact ⟨by decide +kernel, events_heard hreplayed⟩

end Lobbylink.Ts.Listeners
