import Lobbylink.Java.Actor

/-! Which reliable sends of the Java client are answered. A future is lost when its
task is rejected or dropped by the executor, or its sender dies of an exception. -/
namespace Lobbylink.Java.Sends
open Actor Lib.Runs

def pastLoop : Phase → Bool
  | .drain | .failing _ | .ended => true
  | _ => false

def pastDrain : Phase → Bool
  | .failing _ | .ended => true
  | _ => false

/-- A sender past its loop was stopped, and its queue stays empty once it is drained. -/
structure Sane (c : Sender) : Prop where
  stopped : pastLoop c.phase = true → c.shutdown = true
  emptied : pastDrain c.phase = true → c.queue = []

/-- The sender has the job in its queue or in hand. -/
def Has (c : Sender) (done : Done) : Prop := done ∈ c.queue ∨ done ∈ c.phase.hand

def Held (s : State) (done : Done) : Prop :=
  (∃ player, .submit player done ∈ s.exec) ∨
    (∃ player, s.running = .task (.submit player done)) ∨ ∃ c ∈ s.senders, Has c done

/-- The senders in use take jobs, but for those that `teardownPeers` is stopping. -/
def Open (s : State) : Prop :=
  (∃ left closing, s.running = .stopping left closing) ∨
    ∀ c ∈ s.sendChannels, ∃ sender, s.senders[c.2]? = some sender ∧ sender.shutdown = false

structure Kept (s : State) : Prop where
  held : ∀ done < s.created, s.answers done ≠ none ∨ Held s done
  sane : ∀ c ∈ s.senders, Sane c
  isOpen : Open s

/-- The steps that lose no future: a send is posted while the executor runs, the
executor is stopped with no send in its queue, and no exception leaves `sendOne`
undeclared. -/
def Careful (s : State) : Act → Prop
  | .submit _ => s.stopped = false
  | .stop => ∀ task ∈ s.exec, task.isSend = false
  | .sender _ luck => luck ≠ .unchecked
  | _ => True

instance (s : State) (a : Act) : Decidable (Careful s a) :=
  match a with
  | .submit _ => inferInstanceAs (Decidable (s.stopped = false))
  | .stop => inferInstanceAs (Decidable (∀ task ∈ s.exec, task.isSend = false))
  | .sender _ luck => inferInstanceAs (Decidable (luck ≠ .unchecked))
  | .test _ _ _ | .answered _ | .close | .receive _ | .take | .run => instDecidableTrue

theorem sane_move {c c' : Sender} {luck : Luck} {out : Option (Done × Answer)}
    (h : c.move luck = some (c', out)) (hluck : luck ≠ .unchecked) (hsane : Sane c) :
    Sane c' ∧ c'.shutdown = c.shutdown ∧
      ∀ done, Has c done → Has c' done ∨ ∃ answer, out = some (done, answer) := by
  obtain ⟨shutdown, queue, phase⟩ := c
  obtain ⟨hstopped, hemptied⟩ := hsane
  unfold Has
  cases phase with
  | test =>
    cases luck <;> cases h
    cases shutdown <;> exact ⟨⟨by simp [pastLoop], by simp [pastDrain]⟩, rfl, by simp [Phase.hand]⟩
  | take =>
    cases luck with
    | normal =>
      cases queue <;> cases h
      exact ⟨⟨by simp [pastLoop], by simp [pastDrain]⟩, rfl, by simp [Phase.hand]; tauto⟩
    | interrupt =>
      cases shutdown <;> cases h
      exact ⟨⟨by simp, by simp [pastDrain]⟩, rfl, by simp [Phase.hand]⟩
    | _ => cases h
  | taken job =>
    cases shutdown <;> cases luck <;> cases h
    · exact ⟨⟨by simp [pastLoop], by simp [pastDrain]⟩, rfl, by simp [Phase.hand]⟩
    · exact ⟨⟨by simp, by simp [pastDrain]⟩, rfl, by simp [Phase.hand]; tauto⟩
  | sending job =>
    cases luck <;> cases h
    · exact ⟨⟨by simp [pastLoop], by simp [pastDrain]⟩, rfl, by simp [Phase.hand]; tauto⟩
    · exact ⟨⟨by simp [pastLoop], by simp [pastDrain]⟩, rfl, by simp [Phase.hand]; tauto⟩
    · exact absurd rfl hluck
  | drain =>
    cases luck <;> cases h
    exact ⟨⟨fun _ => hstopped rfl, fun _ => rfl⟩, rfl, by simp [Phase.hand]⟩
  | failing remaining =>
    cases luck <;> cases remaining <;> cases h
    · exact ⟨⟨fun _ => hstopped rfl, fun _ => hemptied rfl⟩, rfl, by simp [Phase.hand]⟩
    · exact ⟨⟨fun _ => hstopped rfl, fun _ => hemptied rfl⟩, rfl, by simp [Phase.hand]; tauto⟩
  | ended => cases luck <;> cases h

variable {s t : State} {done : Done}

theorem answers_complete {answer : Answer} {d : Done}
    (h : s.answers d ≠ none ∨ d = done) : (s.complete done answer).answers d ≠ none := by
  simp only [State.complete]
  split_ifs with hd
  · cases s.answers d <;> simp
  · exact h.resolve_right hd

@[simp] theorem sender_modifySender (s : State) (i j : Nat) (f : Sender → Sender) :
    (s.modifySender i f).senders[j]? = if i = j then s.senders[j]?.map f else s.senders[j]? := by
  simp only [State.modifySender]
  split_ifs with hij <;> simp [hij]

theorem mem_modifySender {i : Nat} {f : Sender → Sender} {c : Sender}
    (h : c ∈ (s.modifySender i f).senders) :
    c ∈ s.senders ∨ ∃ b, s.senders[i]? = some b ∧ c = f b := by
  obtain ⟨j, hj⟩ := List.getElem?_of_mem h
  rw [sender_modifySender] at hj
  split_ifs at hj with hij
  · obtain ⟨b, hb, rfl⟩ := Option.map_eq_some_iff.1 hj
    exact .inr ⟨b, hij ▸ hb, rfl⟩
  · exact .inl (List.mem_of_getElem? hj)

theorem has_modifySender {i : Nat} {f : Sender → Sender} {c : Sender} (hc : c ∈ s.senders)
    (hhas : Has c done) (hf : ∀ b, s.senders[i]? = some b → Has b done → Has (f b) done) :
    ∃ c ∈ (s.modifySender i f).senders, Has c done := by
  obtain ⟨j, hj⟩ := List.getElem?_of_mem hc
  by_cases hij : i = j
  · subst hij
    refine ⟨f c, List.mem_of_getElem? (i := i) ?_, hf c hj hhas⟩
    simp [hj]
  · refine ⟨c, List.mem_of_getElem? (i := j) ?_, hhas⟩
    simp [hj, hij]

theorem open_modifySender {i : Nat} {f : Sender → Sender} (h : Open s)
    (hf : ∀ b, s.senders[i]? = some b → b.shutdown = false → (f b).shutdown = false) :
    Open (s.modifySender i f) := by
  rcases h with h | h
  · exact .inl h
  · refine .inr fun c hc => ?_
    obtain ⟨sender, hsender, hshut⟩ := h c hc
    by_cases hi : i = c.2
    · exact ⟨f sender, by simp [hsender, hi], hf sender (hi ▸ hsender) hshut⟩
    · exact ⟨sender, by simp [hsender, hi], hshut⟩

theorem kept_post (hk : Kept s) (task : Task) : Kept (s.post task) := by
  unfold State.post
  split_ifs
  · exact hk
  · refine ⟨fun done hd => (hk.held done hd).imp_right fun h => ?_, hk.sane, hk.isOpen⟩
    rcases h with ⟨player, h⟩ | h
    · exact .inl ⟨player, List.mem_append_left _ h⟩
    · exact .inr h

theorem kept_submit (hk : Kept s) (hstopped : s.stopped = false) (thread player : Nat) :
    Kept (s.submitReliable thread player) := by
  have hpost : s.submitReliable thread player =
      { ({ s with created := s.created + 1 }.caller thread (.waiting s.created)) with
        exec := s.exec ++ [.submit player s.created] } := by
    unfold State.submitReliable State.post
    rw [if_neg (by simp [State.caller, hstopped])]
    rfl
  rw [hpost]
  refine ⟨fun done hd => ?_, hk.sane, hk.isOpen⟩
  rcases Nat.lt_succ_iff_lt_or_eq.1 hd with hd | rfl
  · refine (hk.held done hd).imp_right fun h => ?_
    rcases h with ⟨p, h⟩ | h
    · exact .inl ⟨p, List.mem_append_left _ h⟩
    · exact .inr h
  · exact .inr (.inl ⟨player, by simp⟩)

theorem kept_stop (hk : Kept s) (hnone : ∀ task ∈ s.exec, task.isSend = false) :
    Kept s.stopExecutors := by
  refine ⟨fun done hd => (hk.held done hd).imp_right fun h => ?_, hk.sane, hk.isOpen⟩
  rcases h with ⟨player, h⟩ | h
  · cases hnone _ h
  · exact .inr h

theorem kept_take (hk : Kept s) (hidle : s.running = .idle) {task : Task} {rest : List Task}
    (hexec : s.exec = task :: rest) : Kept { s with running := .task task, exec := rest } := by
  refine ⟨fun done hd => (hk.held done hd).imp_right fun h => ?_, hk.sane, ?_⟩
  · rcases h with ⟨player, h⟩ | ⟨player, h⟩ | h
    · rw [hexec] at h
      rcases List.mem_cons.1 h with rfl | h
      · exact .inr (.inl ⟨player, rfl⟩)
      · exact .inl ⟨player, h⟩
    · rw [hidle] at h
      cases h
    · exact .inr (.inr h)
  · rcases hk.isOpen with ⟨left, closing, h⟩ | h
    · rw [hidle] at h
      cases h
    · exact .inr h

theorem enqueue_used {player i : Nat} {c : Nat × Nat}
    (h : (s.sendChannels.find? fun c => c.1 == player) = some c) (hi : c.2 = i) :
    s.enqueue player done = s.modifySender i (·.add done) := by
  unfold State.enqueue
  rw [h, ← hi]

theorem enqueue_new {player : Nat} (h : (s.sendChannels.find? fun c => c.1 == player) = none) :
    s.enqueue player done = { s with
      senders := s.senders ++ [⟨false, [done], .test⟩]
      sendChannels := s.sendChannels ++ [(player, s.senders.length)] } := by
  unfold State.enqueue
  rw [h]

theorem held_enqueue {player : Nat} (hrun : s.running = .task (.submit player done))
    (hexec : t.exec = s.exec) (hjob : ∃ c ∈ t.senders, Has c done)
    (hsame : ∀ d, (∃ c ∈ s.senders, Has c d) → ∃ c ∈ t.senders, Has c d) {d : Done}
    (h : Held s d) : Held t d := by
  rcases h with ⟨p, h⟩ | ⟨p, h⟩ | h
  · exact .inl ⟨p, hexec ▸ h⟩
  · rw [hrun] at h
    cases h
    exact .inr (.inr hjob)
  · exact .inr (.inr (hsame d h))

theorem Sane.add {c : Sender} (h : Sane c) (hopen : c.shutdown = false) : Sane (c.add done) := by
  refine ⟨h.stopped, fun hpast => ?_⟩
  have hloop : pastLoop c.phase = true := by
    cases hphase : c.phase <;> simp_all [Sender.add, pastDrain, pastLoop]
  rw [h.stopped hloop] at hopen
  cases hopen

theorem kept_enqueue (hk : Kept s) {player : Nat}
    (hrun : s.running = .task (.submit player done)) :
    Kept ({ s with running := .idle }.enqueue player done) := by
  have hopen : ∀ c ∈ s.sendChannels, ∃ sender, s.senders[c.2]? = some sender ∧
      sender.shutdown = false := by
    rcases hk.isOpen with ⟨left, closing, h⟩ | h
    · rw [hrun] at h
      cases h
    · exact h
  cases hfind : s.sendChannels.find? fun c => c.1 == player with
  | some c =>
    obtain ⟨sender, hsender, hshut⟩ := hopen c (List.mem_of_find?_eq_some hfind)
    rw [enqueue_used (s := { s with running := .idle }) hfind rfl]
    refine ⟨fun d hd => (hk.held d hd).imp_right (held_enqueue hrun (by rfl) ?_ ?_),
      fun b hb => ?_, ?_⟩
    · refine ⟨sender.add done, List.mem_of_getElem? (i := c.2) ?_, .inl (by simp [Sender.add])⟩
      simp [hsender]
    · rintro d ⟨b, hb, hhas⟩
      exact has_modifySender (s := { s with running := .idle }) hb hhas fun b _ h =>
        h.imp_left (List.mem_append_left _)
    · rcases mem_modifySender hb with hb | ⟨b', hb', rfl⟩
      · exact hk.sane b hb
      · rw [hsender] at hb'
        cases hb'
        exact (hk.sane sender (List.mem_of_getElem? hsender)).add hshut
    · exact open_modifySender (s := { s with running := .idle }) (.inr hopen) fun _ _ h => h
  | none =>
    rw [enqueue_new (s := { s with running := .idle }) hfind]
    refine ⟨fun d hd => (hk.held d hd).imp_right (held_enqueue hrun (by rfl) ?_ ?_), fun b hb => ?_,
      .inr fun c hc => ?_⟩
    · exact ⟨_, List.mem_append_right _ (List.mem_singleton_self _), .inl (List.mem_singleton_self _)⟩
    · rintro d ⟨b, hb, hhas⟩
      exact ⟨b, List.mem_append_left _ hb, hhas⟩
    · rcases List.mem_append.1 hb with hb | hb
      · exact hk.sane b hb
      · rw [List.mem_singleton.1 hb]
        exact ⟨by simp [pastLoop], by simp [pastDrain]⟩
    · rcases List.mem_append.1 hc with hc | hc
      · obtain ⟨sender, hsender, hshut⟩ := hopen c hc
        obtain ⟨hlt, -⟩ := List.getElem?_eq_some_iff.1 hsender
        exact ⟨sender, by simp only [List.getElem?_append_left hlt, hsender], hshut⟩
      · rw [List.mem_singleton.1 hc]
        exact ⟨⟨false, [done], .test⟩, by simp, rfl⟩

theorem kept_goes_on (hk : Kept s) (hrun : ∀ player done, s.running ≠ .task (.submit player done))
    (hexec : t.exec = s.exec) (hsenders : t.senders = s.senders) (hcreated : t.created = s.created)
    (hanswers : t.answers = s.answers) (hopen : Open t) : Kept t := by
  refine ⟨fun done hd => ?_, hsenders ▸ hk.sane, hopen⟩
  rw [hcreated] at hd
  rw [hanswers]
  refine (hk.held done hd).imp_right fun h => ?_
  rcases h with ⟨player, h⟩ | ⟨player, h⟩ | h
  · exact .inl ⟨player, hexec ▸ h⟩
  · exact absurd h (hrun player done)
  · exact .inr (.inr (hsenders ▸ h))

theorem kept_stopping (hk : Kept s) {i : Nat} {left : List Nat} {closing : Bool}
    (hrun : s.running = .stopping (i :: left) closing) :
    Kept ({ s with running := .stopping left closing }.modifySender i Sender.stop) := by
  refine ⟨fun done hd => (hk.held done hd).imp_right fun h => ?_, fun b hb => ?_,
    .inl ⟨left, closing, rfl⟩⟩
  · rcases h with ⟨player, h⟩ | ⟨player, h⟩ | ⟨b, hb, hhas⟩
    · exact .inl ⟨player, h⟩
    · rw [hrun] at h
      cases h
    · exact .inr (.inr (has_modifySender hb hhas fun _ _ h => h))
  · rcases mem_modifySender hb with hb | ⟨b', hb', rfl⟩
    · exact hk.sane b hb
    · have hsane := hk.sane b' (List.mem_of_getElem? hb')
      exact ⟨fun _ => rfl, hsane.emptied⟩

theorem kept_run (hk : Kept s) (h : s.run = some t) : Kept t := by
  unfold State.run at h
  cases hrun : s.running with
  | idle =>
    rw [hrun] at h
    cases h
  | stopping left closing =>
    rw [hrun] at h
    cases left with
    | cons i left =>
      cases h
      exact kept_stopping hk hrun
    | nil =>
      cases h
      refine kept_goes_on hk ?_ (by rfl) (by rfl) (by rfl) (by rfl)
        (.inr fun c hc => absurd hc List.not_mem_nil)
      intro player done hsubmit
      rw [hrun] at hsubmit
      cases hsubmit
  | task task =>
    rw [hrun] at h
    have hopen : Open { s with running := .idle } := by
      rcases hk.isOpen with ⟨left, closing, hstop⟩ | hopen
      · rw [hrun] at hstop
        cases hstop
      · exact .inr hopen
    cases task with
    | submit player done =>
      simp only [Option.some.injEq] at h
      subst h
      split_ifs
      · refine ⟨fun d hd => ?_, hk.sane, hopen⟩
        rcases hk.held d hd with hanswered | ⟨p, hp⟩ | ⟨p, hp⟩ | hsender
        · exact .inl (answers_complete (s := { s with running := .idle }) (.inl hanswered))
        · exact .inr (.inl ⟨p, hp⟩)
        · rw [hrun] at hp
          cases hp
          exact .inl (answers_complete (.inr rfl))
        · exact .inr (.inr (.inr hsender))
      · exact kept_enqueue hk hrun
    | shutdown =>
      have hnot : ∀ player done, s.running ≠ .task (.submit player done) := by
        intro player done hsubmit
        rw [hrun] at hsubmit
        cases hsubmit
      simp only [Option.some.injEq] at h
      subst h
      split_ifs
      · exact kept_goes_on hk hnot rfl rfl rfl rfl hopen
      · exact kept_goes_on hk hnot rfl rfl rfl rfl (.inl ⟨_, _, rfl⟩)
    | message gameOver =>
      have hnot : ∀ player done, s.running ≠ .task (.submit player done) := by
        intro player done hsubmit
        rw [hrun] at hsubmit
        cases hsubmit
      simp only [Option.some.injEq] at h
      subst h
      split_ifs
      · exact kept_goes_on hk hnot rfl rfl rfl rfl (.inl ⟨_, _, rfl⟩)
      · exact kept_goes_on hk hnot rfl rfl rfl rfl hopen

theorem kept_sender (hk : Kept s) {i : Nat} {luck : Luck} (hluck : luck ≠ .unchecked)
    (h : next s (.sender i luck) = some t) : Kept t := by
  obtain ⟨⟨c', out⟩, hmove, rfl⟩ := Option.map_eq_some_iff.1 h
  obtain ⟨c, hc, hmove⟩ := Option.bind_eq_some_iff.1 hmove
  obtain ⟨hsane, hshut, hhas⟩ := sane_move hmove hluck (hk.sane c (List.mem_of_getElem? hc))
  have hsenders : ∀ b ∈ (s.modifySender i fun _ => c').senders, Sane b := fun b hb => by
    rcases mem_modifySender hb with hb | ⟨-, -, rfl⟩
    · exact hk.sane b hb
    · exact hsane
  have hopen : Open (s.modifySender i fun _ => c') :=
    open_modifySender hk.isOpen fun b hb hbshut => by
      rw [hc] at hb
      cases hb
      exact hshut.trans hbshut
  have hheld : ∀ done, Held s done → Held (s.modifySender i fun _ => c') done ∨
      ∃ answer, out = some (done, answer) := by
    intro done hheld
    rcases hheld with hexec | hrun | ⟨b, hb, hbhas⟩
    · exact .inl (.inl hexec)
    · exact .inl (.inr (.inl hrun))
    · by_cases hout : ∃ answer, out = some (done, answer)
      · exact .inr hout
      · refine .inl (.inr (.inr (has_modifySender hb hbhas fun b' hb' hhas' => ?_)))
        rw [hc] at hb'
        cases hb'
        exact (hhas done hhas').resolve_right hout
  cases out with
  | none =>
    refine ⟨fun done hd => (hk.held done hd).imp_right fun h => ?_, hsenders, hopen⟩
    rcases hheld done h with h | ⟨answer, hout⟩
    · exact h
    · cases hout
  | some out =>
    obtain ⟨job, answer⟩ := out
    refine ⟨fun done hd => ?_, hsenders, hopen⟩
    rcases hk.held done hd with hanswered | h
    · exact .inl (answers_complete (.inl hanswered))
    · rcases hheld done h with h | ⟨answer, hout⟩
      · exact .inr h
      · cases hout
        exact .inl (answers_complete (.inr rfl))

theorem kept_step {a : Act} (hk : Kept s) (hcareful : Careful s a) (h : next s a = some t) :
    Kept t := by
  cases a with
  | test thread player passes =>
    simp only [next] at h
    split at h
    · cases h
      split_ifs
      · exact ⟨hk.held, hk.sane, hk.isOpen⟩
      · exact hk
    · cases h
  | submit thread =>
    simp only [next] at h
    split at h <;> cases h
    exact kept_submit hk hcareful thread _
  | answered thread =>
    simp only [next] at h
    split at h
    · obtain ⟨answer, -, rfl⟩ := Option.map_eq_some_iff.1 h
      exact ⟨hk.held, hk.sane, hk.isOpen⟩
    · cases h
  | close =>
    simp only [next] at h
    split_ifs at h
    cases h
    exact kept_post (s := { s with closer := .waiting }) ⟨hk.held, hk.sane, hk.isOpen⟩ .shutdown
  | stop =>
    simp only [next] at h
    split_ifs at h
    cases h
    exact kept_stop hk hcareful
  | receive gameOver =>
    cases h
    exact kept_post hk _
  | take =>
    simp only [next] at h
    split at h <;> cases h
    exact kept_take hk ‹_› ‹_›
  | run => exact kept_run hk h
  | sender i luck => exact kept_sender hk hcareful h

/-- In a run of careful steps no future is lost. -/
theorem kept_all {ls : List Act} (run : Run (system.restrict Careful) ls s) : Kept s := by
  apply run.invariant Kept _ fun s a t hk (h : Careful s a ∧ next s a = some t) =>
    kept_step hk h.1 h.2
  rintro _ rfl
  exact ⟨fun done hd => absurd hd (Nat.not_lt_zero done), fun c hc => absurd hc List.not_mem_nil,
    .inr fun c hc => absurd hc List.not_mem_nil⟩

/-- A future that a thread still has to complete leaves that thread something to do. -/
theorem not_held_of_quiet (hquiet : s.Quiet) (hsane : ∀ c ∈ s.senders, Sane c) (done : Done) :
    ¬Held s done := by
  rintro (⟨player, h⟩ | ⟨player, h⟩ | ⟨c, hc, hhas⟩)
  · rw [hquiet.exec_eq] at h
    exact absurd h List.not_mem_nil
  · rw [hquiet.running_eq] at h
    cases h
  · rcases hquiet.senders_eq c hc with hended | ⟨hhand, hqueue⟩
    · have hqueue := (hsane c hc).emptied (by rw [hended]; rfl)
      rcases hhas with h | h
      · rw [hqueue] at h
        exact absurd h List.not_mem_nil
      · rw [hended] at h
        exact absurd h List.not_mem_nil
    · rcases hhas with h | h
      · rw [hqueue] at h
        exact absurd h List.not_mem_nil
      · rw [hhand] at h
        exact absurd h List.not_mem_nil

/-- Where the executor rejects no send and drops none, and `sendOne` throws what it
declares, every send is answered once the game is closed. -/
theorem sends_answered {ls : List Act} {s : State} (run : Run (system.restrict Careful) ls s)
    (hquiet : s.Quiet) : s.Answered := fun done hd =>
  ((kept_all run).held done hd).resolve_right
    (not_held_of_quiet hquiet (kept_all run).sane done)

/-- A send that is let through before the game is closed and posted while the
executor still runs. -/
def promptly : List Act :=
  [.test 0 1 true, .close, .take, .run, .run, .submit 0, .take, .run, .stop]

def afterPromptly : State := (follow next promptly start).getD start

theorem run_promptly : Run (system.restrict Careful) promptly afterPromptly := by
  have hfollow : follow (fun s a => if Careful s a then next s a else none) promptly start =
      some afterPromptly := rfl
  apply Run.follow _ (.init rfl) hfollow
  intro s a t h
  split_ifs at h with hcareful
  exact ⟨hcareful, h⟩

theorem sends_answered_promptly : afterPromptly.Answered :=
  sends_answered run_promptly ⟨rfl, rfl, rfl, fun _ hc => absurd hc List.not_mem_nil⟩

/-- A send that is posted after the executor has been stopped. -/
def late : List Act := [.test 0 1 true, .close, .take, .run, .run, .stop, .submit 0]

def afterLate : State := (follow next late start).getD start

/-- The caller waits for a future that no thread is left to complete. -/
theorem send_unanswered : ∃ ls s, Run system ls s ∧ s.Quiet ∧ s.callers 0 = .waiting 0 ∧
    ¬s.Answered := by
  have hfollow : follow next late start = some afterLate := rfl
  exact ⟨late, afterLate, Run.follow (fun _ _ _ h => h) (.init rfl) hfollow,
    ⟨rfl, rfl, rfl, fun _ hc => absurd hc List.not_mem_nil⟩, rfl, fun h => h 0 (by decide) rfl⟩

end Lobbylink.Java.Sends
