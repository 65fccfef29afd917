import Mathlib.Logic.Function.Basic
import Mathlib.Data.List.Nodup
import Lobbylink.Lib.Runs

/-! The outbound queue of one socket: callers, shutdown and the write loop, interleaved at
every operation on a channel. -/
namespace Lobbylink.Server.Outbound
open Lib.Runs

def outboundQueueSize : Nat := 128

variable {α : Type}

/-- A message in the send channel: the call it comes from, and whether `done` was open
when it entered. -/
structure Entry (α : Type) where
  call : Nat
  msg : α
  early : Bool
  deriving DecidableEq

/-- Where a call stands. After its `select` the call has the answer of `Enqueue`. -/
inductive Phase where
  | begun
  | checked
  | answered (ok : Bool)
  | closing
  | returned
  deriving DecidableEq

/-- A call of `Enqueue`, or of `Kick` with its error. It remembers whether it began after
`done` was closed, what `Enqueue` returned, and whether that was before. -/
structure Call (α : Type) where
  msg : α
  kick : Bool
  late : Bool
  phase : Phase := .begun
  result : Option Bool := none
  early : Bool := false

/-- Where `writeLoop` stands. -/
inductive Loop (α : Type) where
  | selecting
  | flushing
  | writing (e : Entry α) (flush : Bool)
  | failing
  | returned
  deriving DecidableEq

/-- One connection, with everything that entered the channel and that was written.
`closer` is the `Kick` that closed `done`. -/
structure State (α : Type) where
  chan : List (Entry α)
  done : Bool
  calls : Nat → Option (Call α)
  loop : Loop α
  closer : Option Nat
  entered : List (Entry α)
  written : List (Entry α)
  failed : Bool

def newWSClient : State α := ⟨[], false, fun _ => none, .selecting, none, [], [], false⟩

/-- What may happen next. `shutdown` is anyone's but a `Kick`'s. -/
inductive Event (α : Type) where
  | begin (c : Nat) (kick : Bool) (msg : α)
  | check (c : Nat)
  | trySend (c : Nat)
  | answer (c : Nat)
  | kickShutdown (c : Nat)
  | shutdown
  | take
  | sawDone
  | finish
  | wrote (ok : Bool)
  | abandon

def State.setCall (s : State α) (c : Nat) (call : Call α) : State α :=
  { s with calls := Function.update s.calls c (some call) }

/-- `Enqueue` up to the end of its second `select`. -/
def State.enqueue (s : State α) (c : Nat) (call : Call α) : State α :=
  if s.chan.length < outboundQueueSize then
    let e : Entry α := ⟨c, call.msg, !s.done⟩
    { s.setCall c { call with phase := .answered true } with
      chan := s.chan ++ [e]
      entered := s.entered ++ [e] }
  else s.setCall c { call with phase := .answered false }

/-- A step of a call that has begun. -/
def State.advance (s : State α) (c : Nat) (call : Call α) : Event α → Option (State α)
  | .check _ =>
    if call.phase = .begun then
      some (s.setCall c { call with phase := if s.done then .answered false else .checked })
    else none
  | .trySend _ => if call.phase = .checked then some (s.enqueue c call) else none
  | .answer _ =>
    match call.phase with
    | .answered ok => some (s.setCall c { call with
        phase := if call.kick then .closing else .returned
        result := some ok
        early := !s.done })
    | _ => none
  | .kickShutdown _ =>
    if call.phase = .closing then
      some { s.setCall c { call with phase := .returned } with
        done := true
        closer := if s.done then s.closer else some c }
    else none
  | _ => none

def State.work (s : State α) : Event α → Option (State α)
  | .take =>
    match s.loop, s.chan with
    | .selecting, e :: rest => some { s with chan := rest, loop := .writing e false }
    | .flushing, e :: rest => some { s with chan := rest, loop := .writing e true }
    | _, _ => none
  | .sawDone =>
    match s.loop with
    | .selecting => if s.done then some { s with loop := .flushing } else none
    | _ => none
  | .finish =>
    match s.loop, s.chan with
    | .flushing, [] => some { s with loop := .returned }
    | _, _ => none
  | .wrote ok =>
    match s.loop with
    | .writing e flush =>
      if ok then some { s with
        written := s.written ++ [e]
        loop := if flush then .flushing else .selecting }
      else some { s with failed := true, loop := if flush then .returned else .failing }
    | _ => none
  | .abandon =>
    match s.loop with
    | .failing => some { s with done := true, loop := .returned }
    | _ => none
  | _ => none

def step (s : State α) (event : Event α) : Option (State α) :=
  match event with
  | .begin c kick msg =>
    match s.calls c with
    | none => some (s.setCall c { msg := msg, kick := kick, late := s.done })
    | some _ => none
  | .check c | .trySend c | .answer c | .kickShutdown c =>
    (s.calls c).bind fun call => s.advance c call event
  | .shutdown => some { s with done := true }
  | .take | .sawDone | .finish | .wrote _ | .abandon => s.work event

def outbound (α : Type) : System (State α) (Event α) where
  init := fun s => s = newWSClient
  step := fun s event t => step s event = some t

/-- The message the loop has taken and not yet written. -/
def Loop.inHand : Loop α → List (Entry α)
  | .writing e _ => [e]
  | _ => []

/-- The loop has seen `done`. -/
def Loop.leaving : Loop α → Bool
  | .selecting | .failing => false
  | .writing _ flush => flush
  | .flushing | .returned => true

structure Queue (s : State α) : Prop where
  taken : ∃ taken, s.entered = taken ++ s.chan ∧ (s.written ++ s.loop.inHand).Sublist taken ∧
    (s.failed = false → taken = s.written ++ s.loop.inHand)
  room : s.chan.length ≤ outboundQueueSize
  leaving : s.loop.leaving = true → s.done = true
  failing : s.loop = .failing → s.failed = true
  drained : s.loop = .returned → s.failed = false → ∀ e ∈ s.chan, e.early = false

theorem queue_newWSClient : Queue (newWSClient : State α) where
  taken := ⟨[], rfl, List.Sublist.refl _, fun _ => rfl⟩
  room := Nat.zero_le _
  leaving := fun h => by cases h
  failing := fun h => by cases h
  drained := fun h => by cases h

variable {s t : State α}

theorem Queue.same (h : Queue s) (hchan : t.chan = s.chan) (hloop : t.loop = s.loop)
    (hentered : t.entered = s.entered) (hwritten : t.written = s.written)
    (hfailed : t.failed = s.failed) (hdone : s.done = true → t.done = true) : Queue t where
  taken := by
    rw [hchan, hloop, hentered, hwritten, hfailed]
    exact h.taken
  room := hchan ▸ h.room
  leaving := fun hleaving => hdone (h.leaving (hloop ▸ hleaving))
  failing := by
    rw [hloop, hfailed]
    exact h.failing
  drained := by
    rw [hchan, hloop, hfailed]
    exact h.drained

theorem Queue.enqueue (h : Queue s) (c : Nat) (call : Call α) : Queue (s.enqueue c call) := by
  unfold State.enqueue
  split_ifs with hroom
  · obtain ⟨taken, hentered, hwritten, hall⟩ := h.taken
    refine ⟨⟨taken, ?_, hwritten, hall⟩, ?_, h.leaving, h.failing, fun hloop hfailed e he => ?_⟩
    · simp [hentered]
    · simp only [List.length_append, List.length_singleton]
      exact hroom
    · have hdone : s.done = true := by
        apply h.leaving
        have hloop' : s.loop = .returned := hloop
        rw [hloop']
        rfl
      rcases List.mem_append.1 he with he | he
      · exact h.drained hloop hfailed e he
      · rw [List.mem_singleton.1 he]
        simp [hdone]
  · exact h.same rfl rfl rfl rfl rfl id

inductive Works (s : State α) : State α → Prop where
  | take {e : Entry α} {rest : List (Entry α)} (flush : Bool) :
      s.chan = e :: rest → s.loop.leaving = flush → s.loop.inHand = [] →
      Works s { s with chan := rest, loop := .writing e flush }
  | sawDone : s.loop = .selecting → s.done = true → Works s { s with loop := .flushing }
  | finish : s.loop = .flushing → s.chan = [] → Works s { s with loop := .returned }
  | wrote {e : Entry α} {flush : Bool} : s.loop = .writing e flush → Works s { s with
      written := s.written ++ [e], loop := if flush then .flushing else .selecting }
  | failed {e : Entry α} {flush : Bool} : s.loop = .writing e flush → Works s { s with
      failed := true, loop := if flush then .returned else .failing }
  | abandon : s.loop = .failing → Works s { s with done := true, loop := .returned }

theorem works {event : Event α} (ht : s.work event = some t) : Works s t := by
  cases event with
  | take =>
    unfold State.work at ht
    simp only at ht
    split at ht
    · rename_i e rest hloop hchan
      cases ht
      exact .take false hchan (by rw [hloop]; rfl) (by rw [hloop]; rfl)
    · rename_i e rest hloop hchan
      cases ht
      exact .take true hchan (by rw [hloop]; rfl) (by rw [hloop]; rfl)
    · cases ht
  | sawDone =>
    unfold State.work at ht
    simp only at ht
    split at ht
    · rename_i hloop
      split_ifs at ht with hdone
      cases ht
      exact .sawDone hloop hdone
    · cases ht
  | finish =>
    unfold State.work at ht
    simp only at ht
    split at ht
    · rename_i hloop hchan
      cases ht
      exact .finish hloop hchan
    · cases ht
  | wrote ok =>
    unfold State.work at ht
    simp only at ht
    split at ht
    · rename_i e flush hloop
      cases ok with
      | true =>
        cases ht
        exact .wrote hloop
      | false =>
        cases ht
        exact .failed hloop
    · cases ht
  | abandon =>
    unfold State.work at ht
    simp only at ht
    split at ht
    · rename_i hloop
      cases ht
      exact .abandon hloop
    · cases ht
  | _ => cases ht

theorem Queue.works (h : Queue s) (hworks : Works s t) : Queue t := by
  obtain ⟨taken, hentered, hwritten, hall⟩ := h.taken
  cases hworks with
  | @take e rest flush hchan hleaving hhand =>
    rw [hhand, List.append_nil] at hwritten hall
    refine ⟨⟨taken ++ [e], ?_, hwritten.append (List.Sublist.refl _), fun hf => by rw [hall hf]; rfl⟩,
      ?_, fun hflush => h.leaving (hleaving.trans hflush), fun hloop => (by cases hloop),
      fun hloop => (by cases hloop)⟩
    · rw [hentered, hchan]
      simp
    · have hroom := h.room
      rw [hchan] at hroom
      exact Nat.le_of_succ_le hroom
  | sawDone hloop hdone =>
    rw [hloop] at hwritten hall
    exact ⟨⟨taken, hentered, hwritten, hall⟩, h.room, fun _ => hdone, fun hloop => (by cases hloop),
      fun hloop => (by cases hloop)⟩
  | finish hloop hchan =>
    have hdone := h.leaving (by rw [hloop]; rfl)
    rw [hloop] at hwritten hall
    refine ⟨⟨taken, hentered, hwritten, hall⟩, h.room, fun _ => hdone, fun hloop => (by cases hloop),
      fun _ _ e he => ?_⟩
    have he' : e ∈ s.chan := he
    rw [hchan] at he'
    cases he'
  | @wrote e flush hloop =>
    have hleaving := h.leaving
    rw [hloop] at hwritten hall hleaving
    have hhand : (if flush then Loop.flushing else Loop.selecting : Loop α).inHand = [] := by
      cases flush <;> rfl
    refine ⟨⟨taken, hentered, ?_, fun hf => ?_⟩, h.room, fun hflush => hleaving ?_, ?_, ?_⟩
    · simp only [hhand, List.append_nil]
      exact hwritten
    · simp only [hhand, List.append_nil]
      exact hall hf
    · cases flush
      · cases hflush
      · rfl
    · cases flush <;> exact fun hloop => by cases hloop
    · cases flush <;> exact fun hloop => by cases hloop
  | @failed e flush hloop =>
    have hleaving := h.leaving
    rw [hloop] at hwritten hleaving
    have hhand : (if flush then Loop.returned else Loop.failing : Loop α).inHand = [] := by
      cases flush <;> rfl
    refine ⟨⟨taken, hentered, ?_, fun hf => (by cases hf)⟩, h.room, fun hflush => hleaving ?_,
      fun _ => rfl, fun _ hf => (by cases hf)⟩
    · simp only [hhand, List.append_nil]
      exact (List.sublist_append_left _ _).trans hwritten
    · cases flush
      · cases hflush
      · rfl
  | abandon hloop =>
    have hfailed := h.failing hloop
    rw [hloop] at hwritten hall
    exact ⟨⟨taken, hentered, hwritten, hall⟩, h.room, fun _ => rfl, fun hloop => (by cases hloop),
      fun _ hf => absurd hfailed (by rw [show s.failed = false from hf]; decide)⟩

inductive Advances (s : State α) (c : Nat) (call : Call α) : State α → Prop where
  | check : call.phase = .begun → Advances s c call
      (s.setCall c { call with phase := if s.done then .answered false else .checked })
  | trySend : call.phase = .checked → Advances s c call (s.enqueue c call)
  | answer {ok : Bool} : call.phase = .answered ok → Advances s c call
      (s.setCall c { call with
        phase := if call.kick then .closing else .returned
        result := some ok
        early := !s.done })
  | kickShutdown : call.phase = .closing → Advances s c call
      { s.setCall c { call with phase := .returned } with
        done := true
        closer := if s.done then s.closer else some c }

theorem advances {c : Nat} {call : Call α} {event : Event α} (ht : s.advance c call event = some t) :
    Advances s c call t := by
  cases event with
  | check =>
    simp only [State.advance] at ht
    by_cases hphase : call.phase = .begun
    · rw [if_pos hphase] at ht
      cases ht
      exact .check hphase
    · rw [if_neg hphase] at ht
      cases ht
  | trySend =>
    simp only [State.advance] at ht
    split_ifs at ht with hphase
    cases ht
    exact .trySend hphase
  | answer =>
    simp only [State.advance] at ht
    split at ht
    · rename_i ok hphase
      cases ht
      exact .answer hphase
    · cases ht
  | kickShutdown =>
    simp only [State.advance] at ht
    by_cases hphase : call.phase = .closing
    · rw [if_pos hphase] at ht
      cases ht
      exact .kickShutdown hphase
    · rw [if_neg hphase] at ht
      cases ht
  | _ => cases ht

structure Good (s : State α) (c : Nat) (call : Call α) : Prop where
  has : call.phase = .answered true ∨ call.result = some true → ∃ e ∈ s.entered,
    e.call = c ∧ e.msg = call.msg ∧ (call.early = true ∨ s.done = false → e.early = true)
  late : call.late = true → s.done = true ∧ call.phase ≠ .checked ∧
    call.phase ≠ .answered true ∧ call.result ≠ some true
  prompt : call.result.isSome = true → s.done = false → call.early = true
  closing : call.phase = .closing → call.result.isSome = true
  unsent : call.phase = .begun ∨ call.phase = .checked → call.early = false

structure Calls (s : State α) : Prop where
  good : ∀ c call, s.calls c = some call → Good s c call
  tags : (s.entered.map Entry.call).Nodup
  sent : ∀ e ∈ s.entered, ∃ call, s.calls e.call = some call ∧ call.phase ≠ .begun ∧
    call.phase ≠ .checked
  closer : ∀ c, s.closer = some c → s.done = true ∧
    ∃ call, s.calls c = some call ∧ call.phase = .returned ∧ call.early = true

theorem Good.mono {c : Nat} {call : Call α} (h : Good s c call) (hentered : s.entered ⊆ t.entered)
    (hdone : s.done = true → t.done = true) : Good t c call where
  has := by
    intro hcall
    obtain ⟨e, he, hc, hmsg, hearly⟩ := h.has hcall
    refine ⟨e, hentered he, hc, hmsg, fun hor => hearly (hor.imp_right fun hopen => ?_)⟩
    cases hs : s.done with
    | false => rfl
    | true => exact absurd (hdone hs) (by rw [hopen]; decide)
  late := fun hlate => ⟨hdone (h.late hlate).1, (h.late hlate).2⟩
  prompt := by
    intro hresult hopen
    apply h.prompt hresult
    cases hs : s.done with
    | false => rfl
    | true => exact absurd (hdone hs) (by rw [hopen]; decide)
  closing := h.closing
  unsent := h.unsent

theorem Calls.same (h : Calls s) (hcalls : t.calls = s.calls) (hentered : t.entered = s.entered)
    (hcloser : t.closer = s.closer) (hdone : s.done = true → t.done = true) : Calls t where
  good := by
    intro c call hc
    rw [hcalls] at hc
    exact (h.good c call hc).mono (hentered ▸ List.Subset.refl _) hdone
  tags := hentered ▸ h.tags
  sent := by
    rw [hcalls, hentered]
    exact h.sent
  closer := by
    intro c hc
    rw [hcloser] at hc
    obtain ⟨hd, hcall⟩ := h.closer c hc
    rw [hcalls]
    exact ⟨hdone hd, hcall⟩

theorem Calls.works (h : Calls s) (hworks : Works s t) : Calls t := by
  cases hworks with
  | take _ _ _ _ => exact h.same rfl rfl rfl id
  | sawDone _ _ => exact h.same rfl rfl rfl id
  | finish _ _ => exact h.same rfl rfl rfl id
  | wrote _ => exact h.same rfl rfl rfl id
  | failed _ => exact h.same rfl rfl rfl id
  | abandon _ => exact h.same rfl rfl rfl fun _ => rfl

theorem calls_setCall (s : State α) (c : Nat) (call : Call α) (c' : Nat) :
    (s.setCall c call).calls c' = if c' = c then some call else s.calls c' :=
  Function.update_apply s.calls c (some call) c'

theorem Calls.update (h : Calls s) {c : Nat} {call : Call α}
    (hcalls : ∀ c', t.calls c' = if c' = c then some call else s.calls c')
    (hentered : s.entered ⊆ t.entered) (hdone : s.done = true → t.done = true)
    (hgood : Good t c call) (htags : (t.entered.map Entry.call).Nodup)
    (hsent : ∀ e ∈ t.entered, (e.call = c → call.phase ≠ .begun ∧ call.phase ≠ .checked) ∧
      (e.call ≠ c → e ∈ s.entered))
    (hcloser : ∀ c', t.closer = some c' →
      (c' = c → t.done = true ∧ call.phase = .returned ∧ call.early = true) ∧
      (c' ≠ c → s.closer = some c')) : Calls t where
  good := by
    intro c' call' hc
    rw [hcalls] at hc
    split_ifs at hc with hcc
    · cases Option.some.inj hc
      rw [hcc]
      exact hgood
    · exact (h.good c' call' hc).mono hentered hdone
  tags := htags
  sent := by
    intro e he
    obtain ⟨hown, hother⟩ := hsent e he
    rw [hcalls]
    split_ifs with hec
    · exact ⟨call, rfl, hown hec⟩
    · exact h.sent e (hother hec)
  closer := by
    intro c' hc
    obtain ⟨hown, hother⟩ := hcloser c' hc
    rw [hcalls]
    split_ifs with hcc
    · obtain ⟨hd, hphase, hearly⟩ := hown hcc
      exact ⟨hd, call, rfl, hphase, hearly⟩
    · obtain ⟨hd, hcall⟩ := h.closer c' (hother hcc)
      exact ⟨hdone hd, hcall⟩

theorem Calls.setCall (h : Calls s) {c : Nat} {call : Call α} (hgood : Good s c call)
    (hsent : (∃ e ∈ s.entered, e.call = c) → call.phase ≠ .begun ∧ call.phase ≠ .checked)
    (hcloser : s.closer ≠ some c) : Calls (s.setCall c call) :=
  h.update (calls_setCall s c call) (List.Subset.refl _) id (hgood.mono (List.Subset.refl _) id)
    h.tags (fun e he => ⟨fun hec => hsent ⟨e, he, hec⟩, fun _ => he⟩)
    fun _ hc => ⟨fun hcc => absurd (hcc ▸ hc) hcloser, fun _ => hc⟩

theorem Calls.not_closer (h : Calls s) {c : Nat} {call : Call α} (hcall : s.calls c = some call)
    (hphase : call.phase ≠ .returned) : s.closer ≠ some c := by
  intro hc
  obtain ⟨-, call', hcall', hreturned, -⟩ := h.closer c hc
  cases hcall.symm.trans hcall'
  exact hphase hreturned

theorem Calls.not_sent (h : Calls s) {c : Nat} {call : Call α} (hcall : s.calls c = some call)
    (hphase : call.phase = .begun ∨ call.phase = .checked) : ¬∃ e ∈ s.entered, e.call = c := by
  rintro ⟨e, he, rfl⟩
  obtain ⟨call', hcall', hbegun, hchecked⟩ := h.sent e he
  cases hcall.symm.trans hcall'
  exact hphase.elim hbegun hchecked

theorem Calls.enqueue (h : Calls s) {c : Nat} {call : Call α} (hcall : s.calls c = some call)
    (hphase : call.phase = .checked) : Calls (s.enqueue c call) := by
  have hgood := h.good c call hcall
  have hlate : call.late ≠ true := fun hlate => (hgood.late hlate).2.1 hphase
  have hunsent := hgood.unsent (.inr hphase)
  have hnew := h.not_sent hcall (.inr hphase)
  have hcloser := h.not_closer hcall (by rw [hphase]; decide)
  unfold State.enqueue
  split_ifs with hroom
  · refine h.update (calls_setCall s c _) (List.subset_append_left _ _) id ?_ ?_ ?_
      fun c' hc => ⟨fun hcc => absurd (hcc ▸ hc) hcloser, fun _ => hc⟩
    · refine ⟨fun _ => ⟨⟨c, call.msg, !s.done⟩, List.mem_concat_self, rfl, rfl, fun hor => ?_⟩,
        fun hl => absurd hl hlate, hgood.prompt, fun hcl => (by cases hcl),
        fun hun => (by simp at hun)⟩
      rcases hor with hearly | hopen
      · rw [show call.early = true from hearly] at hunsent
        cases hunsent
      · have hopen' : s.done = false := hopen
        simp [hopen']
    · rw [List.map_append, List.nodup_append]
      refine ⟨h.tags, List.nodup_singleton _, fun c₁ h₁ c₂ h₂ heq => hnew ?_⟩
      obtain ⟨e, he, hec⟩ := List.mem_map.1 h₁
      rw [List.map_singleton, List.mem_singleton] at h₂
      exact ⟨e, he, by rw [hec, heq, h₂]⟩
    · intro e he
      refine ⟨fun _ => ⟨by simp, by simp⟩, fun hec => ?_⟩
      rcases List.mem_append.1 he with he | he
      · exact he
      · rw [List.mem_singleton.1 he] at hec
        exact absurd rfl hec
  · refine h.setCall ⟨fun hans => ?_, fun hl => absurd hl hlate, hgood.prompt, fun hcl => (by cases hcl),
        fun hun => (by simp at hun)⟩ (fun hsent => absurd hsent hnew) hcloser
    rcases hans with hans | hans
    · cases hans
    · exact hgood.has (.inr hans)

theorem Calls.advances (h : Calls s) {c : Nat} {call : Call α} (hcall : s.calls c = some call)
    (hadv : Advances s c call t) : Calls t := by
  have hgood := h.good c call hcall
  cases hadv with
  | check hphase =>
    have hnew := h.not_sent hcall (.inl hphase)
    refine h.setCall ⟨fun hans => ?_, fun hlate => ?_, hgood.prompt, fun hcl => ?_,
        fun _ => hgood.unsent (.inl hphase)⟩
      (fun hsent => absurd hsent hnew) (h.not_closer hcall (by rw [hphase]; decide))
    · rcases hans with hans | hans
      · cases hdone : s.done <;> simp [hdone] at hans
      · exact hgood.has (.inr hans)
    · obtain ⟨hdone, -, -, hresult⟩ := hgood.late hlate
      refine ⟨hdone, ?_, ?_, hresult⟩
      · simp [hdone]
      · simp [hdone]
    · cases hdone : s.done <;> simp [hdone] at hcl
  | trySend hphase => exact h.enqueue hcall hphase
  | @answer ok hphase =>
    refine h.setCall ⟨fun hans => ?_, fun hlate => ?_, fun _ hopen => ?_, fun _ => rfl,
        fun hun => ?_⟩ (fun _ => ?_) (h.not_closer hcall (by rw [hphase]; simp))
    · have hok : ok = true := by
        rcases hans with hans | hans
        · cases hkick : call.kick <;> simp [hkick] at hans
        · exact Option.some.inj hans
      obtain ⟨e, he, hc, hmsg, hearly⟩ := hgood.has (.inl (by rw [hphase, hok]))
      refine ⟨e, he, hc, hmsg, fun hor => hearly (.inr ?_)⟩
      rcases hor with hor | hor
      · simpa using hor
      · exact hor
    · obtain ⟨hdone, -, hanswered, -⟩ := hgood.late hlate
      refine ⟨hdone, ?_, ?_, ?_⟩
      · cases hkick : call.kick <;> simp
      · cases hkick : call.kick <;> simp
      · intro hok
        cases Option.some.inj hok
        exact hanswered hphase
    · simp [hopen]
    · cases hkick : call.kick <;> simp [hkick] at hun
    · cases hkick : call.kick <;> simp
  | kickShutdown hphase =>
    have hresult := hgood.closing hphase
    have hcloser := h.not_closer hcall (by rw [hphase]; decide)
    refine h.update (calls_setCall s c _) (List.Subset.refl _) (fun _ => rfl) ?_ h.tags
      (fun e he => ⟨fun _ => ⟨by simp, by simp⟩, fun _ => he⟩) fun c' hc => ?_
    · refine ⟨fun hans => ?_, fun hlate => ?_, fun _ hopen => (by cases hopen), fun hcl => (by cases hcl),
        fun hun => (by simp at hun)⟩
      · have hsent := hans.resolve_left (by simp)
        obtain ⟨e, he, hec, hmsg, hearly⟩ := hgood.has (.inr hsent)
        exact ⟨e, he, hec, hmsg, fun hor => hearly (.inl (hor.resolve_right (by simp)))⟩
      · exact ⟨rfl, by simp, by simp, (hgood.late hlate).2.2.2⟩
    · by_cases hdone : s.done = true
      · simp only [hdone, if_true] at hc
        exact ⟨fun hcc => absurd (hcc ▸ hc) hcloser, fun _ => hc⟩
      · simp only [hdone] at hc
        have hcc : c' = c := (Option.some.inj hc).symm
        exact ⟨fun _ => ⟨rfl, rfl, hgood.prompt hresult (by simpa using hdone)⟩,
          fun hne => absurd hcc hne⟩

theorem Calls.begin (h : Calls s) {c : Nat} (hc : s.calls c = none) (kick : Bool) (msg : α) :
    Calls (s.setCall c { msg := msg, kick := kick, late := s.done }) := by
  have hnone : ¬∃ e ∈ s.entered, e.call = c := by
    rintro ⟨e, he, rfl⟩
    obtain ⟨call, hcall, -⟩ := h.sent e he
    cases hc.symm.trans hcall
  refine h.setCall ⟨fun hans => ?_, fun hlate => ⟨hlate, by simp, by simp, by simp⟩,
    fun hresult => (by cases hresult), fun hcl => (by cases hcl), fun _ => rfl⟩
    (fun hsent => absurd hsent hnone) fun hcloser => ?_
  · rcases hans with hans | hans <;> cases hans
  · obtain ⟨-, call, hcall, -⟩ := h.closer c hcloser
    cases hc.symm.trans hcall

theorem calls_newWSClient : Calls (newWSClient : State α) where
  good := fun c call h => by cases h
  tags := List.nodup_nil
  sent := fun e he => by cases he
  closer := fun c hc => by cases hc

theorem Queue.advances (h : Queue s) {c : Nat} {call : Call α} (hadv : Advances s c call t) :
    Queue t := by
  cases hadv with
  | check _ => exact h.same rfl rfl rfl rfl rfl id
  | trySend _ => exact h.enqueue c call
  | answer _ => exact h.same rfl rfl rfl rfl rfl id
  | kickShutdown _ => exact h.same rfl rfl rfl rfl rfl fun _ => rfl

theorem step_keeps {event : Event α} (h : Queue s ∧ Calls s) (ht : step s event = some t) :
    Queue t ∧ Calls t := by
  obtain ⟨hqueue, hcalls⟩ := h
  have hcall : ∀ {c : Nat} {event : Event α},
      ((s.calls c).bind fun call => s.advance c call event) = some t → Queue t ∧ Calls t := by
    intro c event hbind
    obtain ⟨call, hc, hadv⟩ := Option.bind_eq_some_iff.1 hbind
    exact ⟨hqueue.advances (advances hadv), hcalls.advances hc (advances hadv)⟩
  have hwork : ∀ event : Event α, s.work event = some t → Queue t ∧ Calls t :=
    fun _ ht => ⟨hqueue.works (works ht), hcalls.works (works ht)⟩
  cases event with
  | begin c kick msg =>
    simp only [step] at ht
    cases hc : s.calls c with
    | some call =>
      rw [hc] at ht
      cases ht
    | none =>
      rw [hc] at ht
      cases ht
      exact ⟨hqueue.same rfl rfl rfl rfl rfl id, hcalls.begin hc kick msg⟩
  | check c => exact hcall ht
  | trySend c => exact hcall ht
  | answer c => exact hcall ht
  | kickShutdown c => exact hcall ht
  | shutdown =>
    cases ht
    exact ⟨hqueue.same rfl rfl rfl rfl rfl fun _ => rfl, hcalls.same rfl rfl rfl fun _ => rfl⟩
  | take => exact hwork .take ht
  | sawDone => exact hwork .sawDone ht
  | finish => exact hwork .finish ht
  | wrote ok => exact hwork (.wrote ok) ht
  | abandon => exact hwork .abandon ht

theorem run_keeps {events : List (Event α)} (run : Run (outbound α) events s) :
    Queue s ∧ Calls s := by
  apply run.invariant fun s => Queue s ∧ Calls s
  · rintro _ rfl
    exact ⟨queue_newWSClient, calls_newWSClient⟩
  · exact fun s event t h ht => step_keeps h ht

/-- When the loop has closed the socket without a failed write, everything that
entered early has been written. -/
theorem Queue.flushed (h : Queue s) (hloop : s.loop = .returned) (hfailed : s.failed = false)
    {e : Entry α} (he : e ∈ s.entered) (hearly : e.early = true) : e ∈ s.written := by
  obtain ⟨taken, hentered, -, hall⟩ := h.taken
  have htaken := hall hfailed
  rw [hloop] at htaken
  rw [hentered] at he
  rcases List.mem_append.1 he with he | he
  · rw [htaken] at he
    simpa [Loop.inHand] using he
  · have hlate := h.drained hloop hfailed e he
    rw [hearly] at hlate
    cases hlate

/-- Messages are written in the order in which they entered the channel, and once each;
unless a write fails, those that were accepted before the shutdown are all written
before the socket is closed, a `Kick`'s error among them. -/
theorem outbound_queue {events : List (Event α)} (run : Run (outbound α) events s) :
    s.written.Sublist s.entered ∧ (s.written.map Entry.call).Nodup ∧
    (∀ e ∈ s.entered, ∃ call, s.calls e.call = some call) ∧
    (s.loop = .returned → s.failed = false → ∀ c call, s.calls c = some call →
      call.result = some true → call.early = true ∨ s.closer = some c →
        ∃ e ∈ s.written, e.call = c ∧ e.msg = call.msg) ∧
    s.chan.length ≤ outboundQueueSize ∧
    ∀ c call, s.calls c = some call → call.late = true → call.result ≠ some true := by
  obtain ⟨hqueue, hcalls⟩ := run_keeps run
  have hsub : s.written.Sublist s.entered := by
    obtain ⟨taken, hentered, hwritten, -⟩ := hqueue.taken
    rw [hentered]
    exact ((List.sublist_append_left _ _).trans hwritten).trans (List.sublist_append_left _ _)
  refine ⟨hsub, hcalls.tags.sublist (hsub.map _), fun e he => ?_,
    fun hloop hfailed c call hc hresult hearly => ?_, hqueue.room,
    fun c call hc hlate => ((hcalls.good c call hc).late hlate).2.2.2⟩
  · obtain ⟨call, hcall, -⟩ := hcalls.sent e he
    exact ⟨call, hcall⟩
  · obtain ⟨e, he, hec, hmsg, hentry⟩ := (hcalls.good c call hc).has (.inr hresult)
    refine ⟨e, hqueue.flushed hloop hfailed he (hentry (.inl ?_)), hec, hmsg⟩
    refine hearly.elim id fun hcloser => ?_
    obtain ⟨-, call', hcall', -, hearly'⟩ := hcalls.closer c hcloser
    cases hc.symm.trans hcall'
    exact hearly'

/-- A message and a kick; the loop sees the shutdown first and flushes both. -/
def kicked : List (Event Nat) :=
  [.begin 0 false 10, .check 0, .begin 1 true 99, .trySend 0, .check 1, .answer 0, .trySend 1,
    .answer 1, .kickShutdown 1, .sawDone, .take, .wrote true, .take, .wrote true, .finish]

theorem outbound_queue_kicked : ∃ s : State Nat, Run (outbound Nat) kicked s ∧
    ∃ e ∈ s.written, e.call = 1 ∧ e.msg = 99 := by
  obtain ⟨s, hs⟩ : ∃ s, follow step kicked (newWSClient : State Nat) = some s :=
    Option.isSome_iff_exists.1 (by decide)
  have run : Run (outbound Nat) kicked s := (Run.init rfl).follow (fun _ _ _ h => h) hs
  obtain ⟨-, -, -, hflushed, -, -⟩ := outbound_queue run
  have hend : (follow step kicked (newWSClient : State Nat)).map (fun s => (s.loop, s.failed)) =
      some (.returned, false) := by decide
  have hkick : (follow step kicked (newWSClient : State Nat)).map (fun s => (s.closer,
      (s.calls 1).map fun call => (call.result, call.msg))) =
      some (some 1, some (some true, 99)) := by decide
  rw [hs, Option.map_some, Option.some.injEq, Prod.mk.injEq] at hend hkick
  obtain ⟨hloop, hfailed⟩ := hend
  obtain ⟨hcloser, hcall⟩ := hkick
  obtain ⟨call, hcall, hcall'⟩ := Option.map_eq_some_iff.1 hcall
  obtain ⟨hresult, hmsg⟩ := Prod.mk.inj hcall'
  obtain ⟨e, he, hec, hemsg⟩ := hflushed hloop hfailed 1 call hcall hresult (.inr hcloser)
  exact ⟨s, run, e, he, hec, hemsg.trans hmsg⟩

end Lobbylink.Server.Outbound
