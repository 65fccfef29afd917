import Lobbylink.Wasm.Inner
import Mathlib.Data.List.Basic

/-! When the reliable sends to one player are serialized. The flag that keeps a second
task away lives in the queue, so a call that makes a new queue starts a task of its own. -/
namespace Lobbylink.Wasm.Sends
open Lib.Bytes Lib.Runs Client.Framing Client.Protocol Wasm.Inner

/-- At most one task of a player has a job in hand, its jobs start in the order of the
calls and each of them once, and the chunks of one message come together. -/
structure Serialized (s : State) : Prop where
  one : ∀ (i j : Nat) (c d : Worker), s.workers[i]? = some c → s.workers[j]? = some d →
    c.player = d.player → c.phase.job ≠ none → d.phase.job ≠ none → i = j
  order : ∀ p, (s.started p).Sublist (s.queued p)
  once : ∀ p, ((s.queued p).map (·.id)).Pairwise (· < ·)
  chunks : ∀ p, ((s.frames p).map (·.1)).Pairwise (· ≤ ·)

/-- A call that makes the queue of its player finds no task of that player alive. -/
def Fresh {Sdp : Type} (s : State) : Event Sdp → Prop
  | .sendReliable p data => s.refuses p data = none → s.sendQueues p = none →
      ∀ c ∈ s.workers, c.player = p → c.phase.live = false
  | _ => True

instance {Sdp : Type} (s : State) (event : Event Sdp) : Decidable (Fresh s event) :=
  match event with
  | .sendReliable p data =>
    match hqueue : s.sendQueues p with
    | some _ => isTrue fun _ h => by rw [hqueue] at h; cases h
    | none =>
      decidable_of_iff (s.refuses p data = none → ∀ c ∈ s.workers, c.player = p →
        c.phase.live = false) ⟨fun h hrefuses _ => h hrefuses, fun h hrefuses => h hrefuses hqueue⟩
  | .message .. | .offer .. | .rebuild .. | .channel .. | .close | .poll _ | .run _ =>
    instDecidableTrue

/-- The queue is not running only if no task of its player is alive, and the frames of a
player are of jobs that started no later than the one in hand. -/
structure Inv (s : State) : Prop where
  single : ∀ (i j : Nat) (c d : Worker), s.workers[i]? = some c → s.workers[j]? = some d →
    c.player = d.player → c.phase.live = true → d.phase.live = true → i = j
  idle : ∀ p queue, s.sendQueues p = some queue → queue.running = false →
    ∀ c ∈ s.workers, c.player = p → c.phase.live = false
  order : ∀ p, (s.started p ++ queueItems (s.sendQueues p)).Sublist (s.queued p)
  once : ∀ p, ((s.queued p).map (·.id)).Pairwise (· < ·)
  fewer : ∀ p, ∀ job ∈ s.queued p, job.id < s.calls
  framed : ∀ p, ∀ frame ∈ s.frames p, ∃ job ∈ s.started p, job.id = frame.1
  inHand : ∀ c ∈ s.workers, ∀ job, c.phase.job = some job →
    job ∈ s.started c.player ∧ ∀ frame ∈ s.frames c.player, frame.1 ≤ job.id
  chunks : ∀ p, ((s.frames p).map (·.1)).Pairwise (· ≤ ·)

/-- No task comes to life or takes a job, and queues only go. -/
structure Eases (s t : State) : Prop where
  workers : ∀ (i : Nat) (d : Worker), t.workers[i]? = some d → ∃ c : Worker,
    s.workers[i]? = some c ∧ d.player = c.player ∧ (d.phase.live = true → c.phase.live = true) ∧
    ∀ job, d.phase.job = some job → c.phase.job = some job
  queues : ∀ p, t.sendQueues p = s.sendQueues p ∨ t.sendQueues p = none
  calls_le : s.calls ≤ t.calls
  queued_eq : t.queued = s.queued
  started_eq : t.started = s.started
  frames_eq : t.frames = s.frames

variable {s t u : State} {w : Nat} {c : Worker} {job : SendJob} {p : PlayerId}

theorem live_of_job {phase : Phase} (h : phase.job = some job) : phase.live = true := by
  cases phase <;> first | rfl | cases h

theorem Eases.refl (s : State) : Eases s s :=
  ⟨fun _ d hd => ⟨d, hd, rfl, id, fun _ h => h⟩, fun _ => .inl rfl, Nat.le_refl _, rfl, rfl, rfl⟩

theorem Eases.trans (h : Eases s t) (h' : Eases t u) : Eases s u where
  workers := by
    intro i e he
    obtain ⟨d, hd, hplayer', hlive', hjob'⟩ := h'.workers i e he
    obtain ⟨c, hc, hplayer, hlive, hjob⟩ := h.workers i d hd
    exact ⟨c, hc, hplayer'.trans hplayer, fun h => hlive (hlive' h),
      fun job h => hjob job (hjob' job h)⟩
  queues := by
    intro p
    rcases h'.queues p with h' | h'
    · exact h' ▸ h.queues p
    · exact .inr h'
  calls_le := Nat.le_trans h.calls_le h'.calls_le
  queued_eq := h'.queued_eq.trans h.queued_eq
  started_eq := h'.started_eq.trans h.started_eq
  frames_eq := h'.frames_eq.trans h.frames_eq

theorem Eases.mem (h : Eases s t) {d : Worker} (hd : d ∈ t.workers) :
    ∃ c ∈ s.workers, d.player = c.player ∧ (d.phase.live = true → c.phase.live = true) ∧
      ∀ job, d.phase.job = some job → c.phase.job = some job := by
  obtain ⟨i, hi⟩ := List.getElem?_of_mem hd
  obtain ⟨c, hc, hrest⟩ := h.workers i d hi
  exact ⟨c, List.mem_of_getElem? hc, hrest⟩

theorem Eases.items (h : Eases s t) (p : PlayerId) :
    (queueItems (t.sendQueues p)).Sublist (queueItems (s.sendQueues p)) := by
  rcases h.queues p with h | h
  · rw [h]
  · rw [h]
    exact List.nil_sublist _

theorem Inv.eases (hi : Inv s) (h : Eases s t) : Inv t where
  single := by
    intro i j c d hc hd hplayer hlive hlive'
    obtain ⟨c', hc', hcp, hcl, -⟩ := h.workers i c hc
    obtain ⟨d', hd', hdp, hdl, -⟩ := h.workers j d hd
    exact hi.single i j c' d' hc' hd' (hcp ▸ hdp ▸ hplayer) (hcl hlive) (hdl hlive')
  idle := by
    intro p queue hqueue hrunning d hd hplayer
    obtain ⟨c, hc, hcp, hlive, -⟩ := h.mem hd
    have hsame : s.sendQueues p = some queue := by
      rcases h.queues p with h | h
      · exact h ▸ hqueue
      · rw [h] at hqueue
        cases hqueue
    have hdead := hi.idle p queue hsame hrunning c hc (hcp ▸ hplayer)
    by_contra hd
    rw [hlive (by simpa using hd)] at hdead
    cases hdead
  order := by
    intro p
    rw [h.queued_eq, h.started_eq]
    exact ((List.Sublist.refl _).append (h.items p)).trans (hi.order p)
  once := by
    intro p
    rw [h.queued_eq]
    exact hi.once p
  fewer := by
    intro p job hjob
    rw [h.queued_eq] at hjob
    exact Nat.lt_of_lt_of_le (hi.fewer p job hjob) h.calls_le
  framed := by
    intro p
    rw [h.frames_eq, h.started_eq]
    exact hi.framed p
  inHand := by
    intro d hd job hjob
    obtain ⟨c, hc, hcp, -, hhand⟩ := h.mem hd
    rw [h.frames_eq, h.started_eq, hcp]
    exact hi.inHand c hc job (hhand job hjob)
  chunks := by
    intro p
    rw [h.frames_eq]
    exact hi.chunks p

/-- A change of phases that only fills in what awaits have received. -/
theorem eases_map {f : Worker → Worker} (hplayer : ∀ c, (f c).player = c.player)
    (hlive : ∀ c, (f c).phase.live = c.phase.live) (hjob : ∀ c, (f c).phase.job = c.phase.job)
    (hworkers : t.workers = s.workers.map f)
    (hqueues : ∀ p, t.sendQueues p = s.sendQueues p ∨ t.sendQueues p = none)
    (hcalls : t.calls = s.calls) (hqueued : t.queued = s.queued) (hstarted : t.started = s.started)
    (hframes : t.frames = s.frames) : Eases s t := by
  refine ⟨fun i d hd => ?_, hqueues, Nat.le_of_eq hcalls.symm, hqueued, hstarted, hframes⟩
  rw [hworkers, List.getElem?_map] at hd
  obtain ⟨c, hc, rfl⟩ := Option.map_eq_some_iff.1 hd
  exact ⟨c, hc, hplayer c, fun h => hlive c ▸ h, fun job h => hjob c ▸ h⟩

theorem eases_same (hworkers : t.workers = s.workers)
    (hqueues : ∀ p, t.sendQueues p = s.sendQueues p ∨ t.sendQueues p = none)
    (hcalls : t.calls = s.calls) (hqueued : t.queued = s.queued) (hstarted : t.started = s.started)
    (hframes : t.frames = s.frames) : Eases s t :=
  eases_map (f := id) (fun _ => rfl) (fun _ => rfl) (fun _ => rfl)
    (hworkers.trans (List.map_id _).symm) hqueues hcalls hqueued hstarted hframes

@[simp] theorem live_loseLink (gone : Nat → Bool) (phase : Phase) :
    (phase.loseLink gone).live = phase.live := by
  unfold Phase.loseLink
  split <;> rfl

@[simp] theorem job_loseLink (gone : Nat → Bool) (phase : Phase) :
    (phase.loseLink gone).job = phase.job := by
  unfold Phase.loseLink
  split <;> rfl

@[simp] theorem live_getLink (l : Nat) (phase : Phase) : (phase.getLink l).live = phase.live := by
  unfold Phase.getLink
  split <;> rfl

@[simp] theorem job_getLink (l : Nat) (phase : Phase) : (phase.getLink l).job = phase.job := by
  unfold Phase.getLink
  split <;> rfl

@[simp] theorem live_loseWaiter (phase : Phase) : phase.loseWaiter.live = phase.live := by
  unfold Phase.loseWaiter
  split <;> rfl

@[simp] theorem job_loseWaiter (phase : Phase) : phase.loseWaiter.job = phase.job := by
  unfold Phase.loseWaiter
  split <;> rfl

@[simp] theorem live_getOpen (l : Nat) (opened : Bool) (phase : Phase) :
    (phase.getOpen l opened).live = phase.live := by
  unfold Phase.getOpen
  split <;> rfl

@[simp] theorem job_getOpen (l : Nat) (opened : Bool) (phase : Phase) :
    (phase.getOpen l opened).job = phase.job := by
  unfold Phase.getOpen
  split <;> rfl

theorem eases_closeLinks (s : State) (gone : Nat → Bool) : Eases s (s.closeLinks gone) :=
  eases_map (f := Worker.change (Phase.loseLink gone)) (fun _ => rfl)
    (fun c => live_loseLink gone c.phase) (fun c => job_loseLink gone c.phase) rfl
    (fun _ => .inl rfl) rfl rfl rfl rfl

theorem eases_closePeer (s : State) (p : PlayerId) : Eases s (s.closePeer p) := by
  unfold State.closePeer
  split
  · exact .refl s
  · next l _ =>
    have hpeers : Eases s { s with peers := Function.update s.peers p none } :=
      eases_same rfl (fun _ => .inl rfl) rfl rfl rfl rfl
    exact hpeers.trans (eases_closeLinks _ fun k => decide (k = l))

theorem eases_teardownPeers (s : State) : Eases s s.teardownPeers := by
  have hdropped : Eases s { s with
      peers := fun _ => none
      sendQueues := fun _ => none
      dropped := fun p => s.dropped p ++ queueItems (s.sendQueues p) } :=
    eases_same rfl (fun _ => .inr rfl) rfl rfl rfl rfl
  have hclosed := hdropped.trans (eases_closeLinks _ s.holds)
  exact hclosed.trans (eases_map (f := Worker.change Phase.loseWaiter) (fun _ => rfl)
    (fun c => live_loseWaiter c.phase) (fun c => job_loseWaiter c.phase) rfl
    (fun _ => .inl rfl) rfl rfl rfl rfl)

theorem eases_shutdown (s : State) : Eases s s.shutdown := by
  unfold State.shutdown
  split
  · exact .refl s
  · have hclosed : Eases s { s with closed := true } :=
      eases_same rfl (fun _ => .inl rfl) rfl rfl rfl rfl
    exact hclosed.trans (eases_teardownPeers _)

theorem eases_createLink (s : State) (p : PlayerId) (creates : Bool) :
    Eases s (s.createLink p creates) := by
  unfold State.createLink
  refine (eases_closePeer s p).trans ?_
  split
  · refine eases_map (f := fun c => if c.player = p then
        c.change (Phase.getLink (s.closePeer p).links.length) else c) ?_ ?_ ?_ rfl
      (fun _ => .inl rfl) rfl rfl rfl rfl
    · intro c
      split <;> rfl
    · intro c
      split
      · exact live_getLink _ c.phase
      · rfl
    · intro c
      split
      · exact job_getLink _ c.phase
      · rfl
  · exact .refl _

theorem eases_initiatePeer (s : State) (p : PlayerId) (creates : Bool) :
    Eases s (s.initiatePeer p creates) := by
  unfold State.initiatePeer
  split
  · exact .refl s
  · exact eases_createLink s p creates

theorem eases_resetPeer (s : State) (p : PlayerId) (creates : Bool) :
    Eases s (s.resetPeer p creates) := by
  unfold State.resetPeer
  split
  · exact .refl s
  · have hclose := eases_closePeer s p
    simp only
    split
    · exact hclose.trans (eases_initiatePeer _ p creates)
    · exact hclose

theorem eases_handleError (s : State) (code : String) : Eases s (s.handleError code) := by
  unfold State.handleError
  split
  · exact eases_teardownPeers s
  · exact .refl s

variable {Sdp : Type}

theorem eases_handleServerMessage (s : State) (msg : ServerMessage Sdp) (creates : Bool) :
    Eases s (s.handleServerMessage msg creates) := by
  unfold State.handleServerMessage
  split
  · exact .refl s
  · have hroster : Eases s { s with
        roster := Client.Roster.updateRoster s.maxPlayers s.roster msg } :=
      eases_same rfl (fun _ => .inl rfl) rfl rfl rfl rfl
    refine hroster.trans ?_
    simp only
    split
    · exact eases_resetPeer _ _ creates
    · exact eases_resetPeer _ _ creates
    · exact eases_resetPeer _ _ creates
    · split
      · exact eases_closePeer _ _
      · exact .refl _
    · exact eases_same rfl (fun _ => .inl rfl) rfl rfl rfl rfl
    · exact eases_handleError _ _
    · exact .refl _

theorem eases_handleOffer (s : State) (source : PlayerId) (creates : Bool) :
    Eases s (s.handleOffer source creates) := by
  unfold State.handleOffer
  split
  · exact .refl s
  · exact eases_createLink s source creates

theorem eases_rebuild (s : State) (p : PlayerId) (creates : Bool) :
    Eases s (s.rebuild p creates) := by
  unfold State.rebuild
  exact iteInduction (motive := Eases s) (fun _ => eases_initiatePeer s p creates)
    fun _ => .refl s

theorem eases_channelEvent (s : State) (l : Nat) (opened : Bool) :
    Eases s (s.channelEvent l opened) := by
  unfold State.channelEvent
  split
  · exact .refl s
  · exact eases_map (f := Worker.change (Phase.getOpen l opened)) (fun _ => rfl)
      (fun c => live_getOpen l opened c.phase) (fun c => job_getOpen l opened c.phase) rfl
      (fun _ => .inl rfl) rfl rfl rfl rfl

theorem getElem_enter (s : State) (w i : Nat) (phase : Phase) :
    (s.enter w phase).workers[i]? =
      if w = i then s.workers[i]?.map (Worker.change fun _ => phase) else s.workers[i]? := by
  unfold State.enter
  rw [List.getElem?_modify]
  cases s.workers[i]? with
  | none => simp
  | some c => by_cases h : w = i <;> simp [h]

theorem eases_enter {phase : Phase} (hc : s.workers[w]? = some c) (hlive : c.phase.live = true)
    (hjob : ∀ job, phase.job = some job → c.phase.job = some job) : Eases s (s.enter w phase) := by
  refine ⟨fun i d hd => ?_, fun _ => .inl rfl, Nat.le_refl _, rfl, rfl, rfl⟩
  rw [getElem_enter] at hd
  split_ifs at hd with hi
  · subst hi
    rw [hc, Option.map_some] at hd
    cases hd
    exact ⟨c, hc, rfl, fun _ => hlive, hjob⟩
  · exact ⟨d, hd, rfl, id, fun _ h => h⟩

theorem eases_suspend {phase : Phase} (hc : s.workers[w]? = some c) (hlive : c.phase.live = true)
    (hjob : ∀ job, phase.job = some job → c.phase.job = some job) :
    Eases s (s.suspend w phase) :=
  (eases_enter hc hlive hjob).trans (eases_same rfl (fun _ => .inl rfl) rfl rfl rfl rfl)

theorem eases_complete (hc : s.workers[w]? = some c) (hlive : c.phase.live = true)
    (job : SendJob) (result : Except Fault Unit) : Eases s (s.complete w job result) := by
  have hanswered : Eases s { s with answers := s.answers ++ [(job.id, result)] } :=
    eases_same rfl (fun _ => .inl rfl) rfl rfl rfl rfl
  exact hanswered.trans (eases_enter hc hlive fun _ h => by cases h)

theorem eases_waitLink (hc : s.workers[w]? = some c) (hjob : c.phase.job = some job)
    (p : PlayerId) : Eases s (s.waitLink w p job) := by
  have hlive := live_of_job hjob
  unfold State.waitLink
  split
  · exact eases_complete hc hlive job _
  · split
    · exact eases_enter hc hlive fun _ h => hjob.trans h
    · exact eases_suspend hc hlive fun _ h => hjob.trans h

theorem eases_numberMessage (hc : s.workers[w]? = some c) (hjob : c.phase.job = some job)
    (l : Nat) : Eases s (s.numberMessage w job l) := by
  unfold State.numberMessage
  have hnumbered : Eases s { s with
      links := s.links.modify l fun link => { link with nextMsgId := link.nextMsgId + 1 } } :=
    eases_same rfl (fun _ => .inl rfl) rfl rfl rfl rfl
  exact hnumbered.trans (eases_enter hc (live_of_job hjob) fun _ h => hjob.trans h)

theorem eases_waitReliableOpen (hc : s.workers[w]? = some c) (hjob : c.phase.job = some job)
    (l : Nat) (luck : Luck) : Eases s (s.waitReliableOpen w job l luck) := by
  have hlive := live_of_job hjob
  unfold State.waitReliableOpen
  split
  · exact eases_complete hc hlive job _
  · split
    · exact eases_numberMessage hc hjob l
    · exact eases_suspend hc hlive fun _ h => hjob.trans h
    · exact eases_complete hc hlive job _
    · exact eases_complete hc hlive job _

theorem mem_push {α : Type} {f : PlayerId → List α} {target : PlayerId} {x y : α} :
    x ∈ Function.update f target (f target ++ [y]) p ↔ x ∈ f p ∨ p = target ∧ x = y := by
  by_cases hp : p = target
  · subst hp
    simp
  · rw [Function.update_of_ne hp]
    simp [hp]

theorem pairwise_push {α β : Type} {f : PlayerId → List α} {key : α → β} {r : β → β → Prop}
    {target : PlayerId} {y : α} (h : ∀ p, ((f p).map key).Pairwise r)
    (hlast : ∀ x ∈ f target, r (key x) (key y)) (p : PlayerId) :
    ((Function.update f target (f target ++ [y]) p).map key).Pairwise r := by
  by_cases hp : p = target
  · subst hp
    rw [Function.update_self, List.map_append, List.pairwise_append]
    refine ⟨h p, List.pairwise_singleton _ _, fun a ha b hb => ?_⟩
    obtain ⟨x, hx, rfl⟩ := List.mem_map.1 ha
    rw [List.mem_singleton.1 hb]
    exact hlast x hx
  · rw [Function.update_of_ne hp]
    exact h p

theorem started_lt {rest : List SendJob} {running : Bool} (hi : Inv s)
    (hqueue : s.sendQueues p = some ⟨job :: rest, running⟩) {earlier : SendJob}
    (hearlier : earlier ∈ s.started p) : earlier.id < job.id := by
  have horder := hi.order p
  rw [hqueue] at horder
  have hids := (hi.once p).sublist (horder.map (·.id))
  rw [List.map_append, List.pairwise_append] at hids
  exact hids.2.2 _ (List.mem_map_of_mem hearlier) _ (by simp [queueItems])

theorem inv_takes {rest : List SendJob} {running : Bool} (hi : Inv s)
    (hc : s.workers[w]? = some c) (hlive : c.phase.live = true)
    (hqueue : s.sendQueues c.player = some ⟨job :: rest, running⟩) :
    Inv (State.enter { s with
      sendQueues := Function.update s.sendQueues c.player (some ⟨rest, running⟩)
      started := Function.update s.started c.player (s.started c.player ++ [job]) } w
        (.findLink job)) := by
  have hworkers : ∀ i d, (s.enter w (.findLink job)).workers[i]? = some d →
      ∃ b, s.workers[i]? = some b ∧ d.player = b.player ∧ b.phase.live = d.phase.live ∧
        (i = w ∧ d.phase.job = some job ∨ d.phase.job = b.phase.job) := by
    intro i d hd
    rw [getElem_enter] at hd
    split_ifs at hd with hw
    · subst hw
      rw [hc, Option.map_some] at hd
      cases hd
      exact ⟨c, hc, rfl, hlive, .inl ⟨rfl, rfl⟩⟩
    · exact ⟨d, hd, rfl, rfl, .inr rfl⟩
  have hstarted : ∀ p, ∀ earlier ∈ s.started p,
      earlier ∈ Function.update s.started c.player (s.started c.player ++ [job]) p :=
    fun p earlier hearlier => mem_push.2 (.inl hearlier)
  refine ⟨?_, ?_, ?_, hi.once, hi.fewer, ?_, ?_, hi.chunks⟩
  · intro i j d e hd he hplayer hdlive helive
    obtain ⟨d', hd', hdp, hdl, -⟩ := hworkers i d hd
    obtain ⟨e', he', hep, hel, -⟩ := hworkers j e he
    exact hi.single i j d' e' hd' he' (hdp ▸ hep ▸ hplayer) (hdl ▸ hdlive) (hel ▸ helive)
  · intro p queue hq hrunning d hd hplayer
    obtain ⟨i, hdi⟩ := List.getElem?_of_mem hd
    obtain ⟨d', hd', hdp, hdl, -⟩ := hworkers i d hdi
    rw [← hdl]
    change Function.update s.sendQueues c.player (some ⟨rest, running⟩) p = some queue at hq
    by_cases hp : p = c.player
    · subst hp
      rw [Function.update_self] at hq
      cases hq
      exact hi.idle _ _ hqueue hrunning d' (List.mem_of_getElem? hd') (hdp ▸ hplayer)
    · rw [Function.update_of_ne hp] at hq
      exact hi.idle p queue hq hrunning d' (List.mem_of_getElem? hd') (hdp ▸ hplayer)
  · intro p
    have horder := hi.order p
    change (Function.update s.started c.player (s.started c.player ++ [job]) p ++ queueItems
      (Function.update s.sendQueues c.player (some ⟨rest, running⟩) p)).Sublist (s.queued p)
    by_cases hp : p = c.player
    · subst hp
      rw [hqueue] at horder
      rw [Function.update_self, Function.update_self, List.append_assoc]
      exact horder
    · rwa [Function.update_of_ne hp, Function.update_of_ne hp]
  · intro p frame hframe
    obtain ⟨earlier, hearlier, hid⟩ := hi.framed p frame hframe
    exact ⟨earlier, hstarted p earlier hearlier, hid⟩
  · intro d hd other hother
    obtain ⟨i, hdi⟩ := List.getElem?_of_mem hd
    obtain ⟨b, hb, hdp, -, hjob | hjob⟩ := hworkers i d hdi
    · obtain ⟨rfl, hjob⟩ := hjob
      rw [hc] at hb
      cases hb
      rw [hjob] at hother
      cases hother
      rw [hdp]
      refine ⟨mem_push.2 (.inr ⟨rfl, rfl⟩), fun frame hframe => ?_⟩
      obtain ⟨earlier, hearlier, hid⟩ := hi.framed c.player frame hframe
      exact hid ▸ Nat.le_of_lt (started_lt hi hqueue hearlier)
    · obtain ⟨hmem, hframes⟩ := hi.inHand b (List.mem_of_getElem? hb) other (hjob ▸ hother)
      rw [hdp]
      exact ⟨hstarted b.player other hmem, hframes⟩

theorem inv_idles {running : Bool} (hi : Inv s) (hc : s.workers[w]? = some c)
    (hlive : c.phase.live = true) (hqueue : s.sendQueues c.player = some ⟨[], running⟩) :
    Inv (State.suspend { s with
      sendQueues := Function.update s.sendQueues c.player (some ⟨[], false⟩) } w .returned) := by
  have hreturned : Eases s (s.suspend w .returned) := eases_suspend hc hlive fun _ h => by cases h
  have heases := hi.eases hreturned
  refine ⟨heases.single, ?_, ?_, heases.once, heases.fewer, heases.framed, heases.inHand,
    heases.chunks⟩
  · intro p queue hq hrunning d hd hplayer
    change Function.update s.sendQueues c.player (some ⟨[], false⟩) p = some queue at hq
    by_cases hp : p = c.player
    · by_contra hdlive
      obtain ⟨i, hdi⟩ := List.getElem?_of_mem hd
      change (s.enter w .returned).workers[i]? = some d at hdi
      rw [getElem_enter] at hdi
      split_ifs at hdi with hw
      · rw [← hw, hc, Option.map_some] at hdi
        cases hdi
        exact hdlive rfl
      · exact hw (hi.single w i c d hc hdi (hp ▸ hplayer.symm) hlive (by simpa using hdlive))
    · rw [Function.update_of_ne hp] at hq
      exact heases.idle p queue hq hrunning d hd hplayer
  · intro p
    have horder := hi.order p
    change (s.started p ++ queueItems
      (Function.update s.sendQueues c.player (some ⟨[], false⟩) p)).Sublist (s.queued p)
    by_cases hp : p = c.player
    · subst hp
      rw [hqueue] at horder
      rwa [Function.update_self]
    · rwa [Function.update_of_ne hp]

theorem inv_takeJob (hi : Inv s) (hc : s.workers[w]? = some c) (hlive : c.phase.live = true) :
    Inv (s.takeJob w c.player) := by
  unfold State.takeJob
  split
  · exact hi.eases (eases_suspend hc hlive fun _ h => by cases h)
  · next running hqueue => exact inv_idles hi hc hlive hqueue
  · next job rest running hqueue => exact inv_takes hi hc hlive hqueue

theorem inv_sends (phase : Phase) (hi : Inv s) (hc : s.workers[w]? = some c)
    (hjob : c.phase.job = some job) (hphase : phase.job = some job) (frame : Bytes) :
    Inv (State.enter { s with
      frames := Function.update s.frames c.player (s.frames c.player ++ [(job.id, frame)]) } w
        phase) := by
  have hlive := live_of_job hjob
  have heases := hi.eases (eases_enter hc hlive fun other h => by
    rw [hphase] at h
    exact hjob.trans h)
  obtain ⟨hmem, hlast⟩ := hi.inHand c (List.mem_of_getElem? hc) job hjob
  have hframes : ∀ p, ∀ f ∈ Function.update s.frames c.player
      (s.frames c.player ++ [(job.id, frame)]) p,
      f ∈ s.frames p ∨ p = c.player ∧ f = (job.id, frame) := fun p f => mem_push.1
  refine ⟨heases.single, heases.idle, heases.order, heases.once, heases.fewer, ?_, ?_,
    pairwise_push hi.chunks hlast⟩
  · intro p f hf
    rcases hframes p f hf with hf | ⟨rfl, rfl⟩
    · exact hi.framed p f hf
    · exact ⟨job, hmem, rfl⟩
  · intro d hd other hother
    obtain ⟨hstarted, hle⟩ := heases.inHand d hd other hother
    refine ⟨hstarted, fun f hf => ?_⟩
    rcases hframes d.player f hf with hf | ⟨hplayer, rfl⟩
    · exact hle f hf
    · obtain ⟨i, hdi⟩ := List.getElem?_of_mem hd
      change (s.enter w phase).workers[i]? = some d at hdi
      rw [getElem_enter] at hdi
      split_ifs at hdi with hw
      · rw [← hw, hc, Option.map_some] at hdi
        cases hdi
        change phase.job = some other at hother
        rw [hphase] at hother
        cases hother
        exact Nat.le_refl _
      · exact absurd (hi.single w i c d hc hdi hplayer.symm hlive (live_of_job hother)) hw

theorem inv_transmit (hi : Inv s) (hc : s.workers[w]? = some c) (hjob : c.phase.job = some job)
    (l : Nat) (msgId : UInt32) (seq : Nat) (luck : Luck) :
    Inv (s.transmit w c.player job l msgId seq luck) := by
  unfold State.transmit
  split
  · exact inv_sends (.chunk job l msgId (seq + 1)) hi hc hjob rfl _
  · exact hi.eases (eases_complete hc (live_of_job hjob) job _)

theorem inv_sendChunk (hi : Inv s) (hc : s.workers[w]? = some c) (hjob : c.phase.job = some job)
    (l : Nat) (msgId : UInt32) (seq : Nat) (luck : Luck) :
    Inv (s.sendChunk w c.player job l msgId seq luck) := by
  have hlive := live_of_job hjob
  unfold State.sendChunk
  split_ifs
  · exact hi.eases (eases_complete hc hlive job _)
  · exact hi.eases (eases_complete hc hlive job _)
  · exact inv_transmit hi hc hjob l msgId seq luck
  · exact hi.eases (eases_suspend hc hlive fun _ h => hjob.trans h)

theorem inv_drained (hi : Inv s) (hc : s.workers[w]? = some c) (hjob : c.phase.job = some job)
    (l : Nat) (msgId : UInt32) (seq : Nat) (luck : Luck) :
    Inv (s.drained w c.player job l msgId seq luck) := by
  have hlive := live_of_job hjob
  unfold State.drained
  split_ifs
  · exact hi.eases (eases_complete hc hlive job _)
  · exact inv_transmit hi hc hjob l msgId seq luck
  · exact hi.eases (eases_suspend hc hlive fun _ h => hjob.trans h)

theorem inv_advance (hi : Inv s) (hc : s.workers[w]? = some c) (luck : Luck) :
    Inv (s.advance w c luck) := by
  unfold State.advance
  split
  · next hphase => exact inv_takeJob hi hc (by rw [hphase]; rfl)
  · next job hphase => exact hi.eases (eases_waitLink hc (by rw [hphase]; rfl) c.player)
  · next job l hphase =>
    exact hi.eases (eases_enter hc (by rw [hphase]; rfl) fun _ h => by rw [hphase]; exact h)
  · next job hphase => exact hi.eases (eases_complete hc (by rw [hphase]; rfl) job _)
  · next job hphase =>
    split
    · exact hi.eases (eases_complete hc (by rw [hphase]; rfl) job _)
    · exact hi.eases (eases_suspend hc (by rw [hphase]; rfl) fun _ h => by rw [hphase]; exact h)
  · next job l hphase =>
    exact hi.eases (eases_waitReliableOpen hc (by rw [hphase]; rfl) l luck)
  · next job l hphase => exact hi.eases (eases_numberMessage hc (by rw [hphase]; rfl) l)
  · next job l hphase => exact hi.eases (eases_complete hc (by rw [hphase]; rfl) job _)
  · next job l hphase =>
    split
    · exact hi.eases (eases_complete hc (by rw [hphase]; rfl) job _)
    · exact hi.eases (eases_suspend hc (by rw [hphase]; rfl) fun _ h => by rw [hphase]; exact h)
  · next job l msgId seq hphase =>
    exact inv_sendChunk hi hc (by rw [hphase]; rfl) l msgId seq luck
  · next job l msgId seq hphase =>
    split
    · exact inv_drained hi hc (by rw [hphase]; rfl) l msgId seq luck
    · exact hi.eases (eases_suspend hc (by rw [hphase]; rfl) fun _ h => by rw [hphase]; exact h)
  · exact hi.eases (eases_same rfl (fun _ => .inl rfl) rfl rfl rfl rfl)

/-- A task that a call starts is the only one of its player that is alive. -/
theorem workers_queueReliable (hi : Inv s) (target : PlayerId) (data : Bytes)
    (hfresh : s.sendQueues target = none →
      ∀ c ∈ s.workers, c.player = target → c.phase.live = false) (i : Nat) (d : Worker)
    (hd : (s.queueReliable target data).workers[i]? = some d) :
    s.workers[i]? = some d ∨ i = s.workers.length ∧ d = ⟨target, .top⟩ ∧
      ∀ c ∈ s.workers, c.player = target → c.phase.live = false := by
  have hdead : ((s.sendQueues target).getD ⟨[], false⟩).running = false →
      ∀ c ∈ s.workers, c.player = target → c.phase.live = false := by
    intro hrunning
    cases hqueue : s.sendQueues target with
    | none => exact hfresh hqueue
    | some queue =>
      rw [hqueue] at hrunning
      exact hi.idle target queue hqueue hrunning
  unfold State.queueReliable at hd
  simp only at hd
  split_ifs at hd with hrunning
  · exact .inl hd
  · rw [List.getElem?_append] at hd
    split_ifs at hd with hlt
    · exact .inl hd
    · obtain ⟨hlast, hd⟩ := List.getElem?_eq_some_iff.1 hd
      have hlast : i - s.workers.length < 1 := hlast
      refine .inr ⟨by omega, ?_, hdead (by simpa using hrunning)⟩
      simpa using hd.symm

theorem inv_queueReliable (hi : Inv s) (target : PlayerId) (data : Bytes)
    (hfresh : s.sendQueues target = none →
      ∀ c ∈ s.workers, c.player = target → c.phase.live = false) :
    Inv (s.queueReliable target data) := by
  have hworkers := workers_queueReliable hi target data hfresh
  refine ⟨?_, ?_, ?_, pairwise_push hi.once (hi.fewer target), ?_, hi.framed, ?_, hi.chunks⟩
  · intro i j c d hc hd hplayer hlive hlive'
    rcases hworkers i c hc with hc | ⟨hilen, rfl, hnone⟩
    · rcases hworkers j d hd with hd | ⟨hjlen, rfl, hnone⟩
      · exact hi.single i j c d hc hd hplayer hlive hlive'
      · rw [hnone c (List.mem_of_getElem? hc) hplayer] at hlive
        cases hlive
    · rcases hworkers j d hd with hd | ⟨hjlen, rfl, -⟩
      · rw [hnone d (List.mem_of_getElem? hd) hplayer.symm] at hlive'
        cases hlive'
      · exact hilen.trans hjlen.symm
  · intro p queue hqueue hrunning c hc hplayer
    change Function.update s.sendQueues target _ p = some queue at hqueue
    by_cases hp : p = target
    · subst hp
      rw [Function.update_self] at hqueue
      cases hqueue
      cases hrunning
    · rw [Function.update_of_ne hp] at hqueue
      obtain ⟨i, hci⟩ := List.getElem?_of_mem hc
      rcases hworkers i c hci with hci | ⟨-, rfl, -⟩
      · exact hi.idle p queue hqueue hrunning c (List.mem_of_getElem? hci) hplayer
      · exact absurd hplayer.symm hp
  · intro p
    have horder := hi.order p
    change (s.started p ++ queueItems (Function.update s.sendQueues target _ p)).Sublist
      (Function.update s.queued target _ p)
    by_cases hp : p = target
    · subst hp
      rw [Function.update_self, Function.update_self, queueItems, ← List.append_assoc]
      refine List.Sublist.append ?_ (List.Sublist.refl _)
      cases hqueue : s.sendQueues p with
      | none => simpa [hqueue, queueItems] using horder
      | some queue => simpa [hqueue, queueItems] using horder
    · rwa [Function.update_of_ne hp, Function.update_of_ne hp]
  · intro p job hjob
    have hcalls : (s.queueReliable target data).calls = s.calls + 1 := rfl
    rw [hcalls]
    rcases mem_push.1 hjob with hjob | ⟨-, rfl⟩
    · exact Nat.lt_succ_of_lt (hi.fewer p job hjob)
    · exact Nat.lt_succ_self _
  · intro c hc job hjob
    obtain ⟨i, hci⟩ := List.getElem?_of_mem hc
    rcases hworkers i c hci with hci | ⟨-, rfl, -⟩
    · exact hi.inHand c (List.mem_of_getElem? hci) job hjob
    · cases hjob

theorem inv_sendReliable (hi : Inv s) (target : PlayerId) (data : Bytes)
    (hfresh : Fresh s (.sendReliable target data : Event Sdp)) :
    Inv (s.sendReliable target data) := by
  unfold State.sendReliable
  cases hrefuses : s.refuses target data with
  | some fault =>
    exact hi.eases ⟨fun _ d hd => ⟨d, hd, rfl, id, fun _ h => h⟩, fun _ => .inl rfl,
      Nat.le_succ _, rfl, rfl, rfl⟩
  | none => exact inv_queueReliable hi target data (hfresh hrefuses)

theorem inv_new (joined : JoinedMsg) : Inv (State.new joined) where
  single := by
    intro i j c d hc
    cases hc
  idle := by
    intro p queue hqueue
    cases hqueue
  order := fun _ => List.Sublist.refl _
  once := fun _ => List.Pairwise.nil
  fewer := fun _ _ h => absurd h List.not_mem_nil
  framed := fun _ _ h => absurd h List.not_mem_nil
  inHand := fun _ h => absurd h List.not_mem_nil
  chunks := fun _ => List.Pairwise.nil

theorem inv_connect (joined : JoinedMsg) (creates : PlayerId → Bool) :
    Inv (State.connect joined creates) := by
  unfold State.connect
  simp only
  generalize List.filter _ _ = targets
  have hnew := inv_new joined
  revert hnew
  generalize State.new joined = s
  induction targets generalizing s with
  | nil => exact id
  | cons slot rest ih =>
    intro hi
    exact ih _ (hi.eases (eases_initiatePeer s slot.id (creates slot.id)))

theorem inv_step {event : Event Sdp} (hi : Inv s) (hfresh : Fresh s event)
    (h : next s event = some t) : Inv t := by
  unfold next at h
  split at h
  · next w luck _ =>
    obtain ⟨c, hc, rfl⟩ := Option.map_eq_some_iff.1 h
    exact inv_advance hi hc luck
  · cases h
  · cases h
    exact inv_sendReliable hi _ _ hfresh
  · cases h
    exact hi.eases (eases_handleServerMessage s _ _)
  · obtain ⟨source, -, rfl⟩ := Option.map_eq_some_iff.1 h
    refine hi.eases (Eases.trans ?_ (eases_handleOffer _ source _))
    exact eases_same rfl (fun _ => .inl rfl) rfl rfl rfl rfl
  · cases h
    exact hi.eases (eases_rebuild s _ _)
  · cases h
    exact hi.eases (eases_channelEvent s _ _)
  · cases h
    exact hi.eases (eases_shutdown s)
  · obtain ⟨c, -, rfl⟩ := Option.map_eq_some_iff.1 h
    exact hi.eases (eases_same rfl (fun _ => .inl rfl) rfl rfl rfl rfl)
  · cases h

theorem Inv.serialized (hi : Inv s) : Serialized s where
  one := by
    intro i j c d hc hd hplayer hjob hjob'
    obtain ⟨job, hjob⟩ := Option.ne_none_iff_exists'.1 hjob
    obtain ⟨job', hjob'⟩ := Option.ne_none_iff_exists'.1 hjob'
    exact hi.single i j c d hc hd hplayer (live_of_job hjob) (live_of_job hjob')
  order := fun p => (List.sublist_append_left _ _).trans (hi.order p)
  once := hi.once
  chunks := hi.chunks

/-- Sends are serialized in every run whose calls make a queue only after the last task
of their player has returned. -/
theorem sends_serialized {events : List (Event Sdp)}
    (run : Run ((interleaving Sdp).restrict Fresh) events s) : Serialized s := by
  refine (run.invariant Inv ?_ ?_).serialized
  · rintro s ⟨joined, creates, rfl⟩
    exact inv_connect joined creates
  · rintro s event t hi ⟨hfresh, hstep⟩
    exact inv_step hi hfresh hstep

/-- Player 0 of a full room of two, with a link to player 1. -/
def start : State :=
  State.connect ⟨"game", 0, 2, true, "token", [⟨0, true, true⟩, ⟨1, true, true⟩]⟩ fun _ => true

/-- Two messages over an open channel, and one more after the game is over. -/
def inTurn : List (Event Unit) :=
  [.sendReliable 1 [1], .sendReliable 1 [2], .poll 0] ++
    List.replicate 11 (.run ⟨false, .opened, 0, true⟩) ++
    [.message (.error "replaced" "") true, .sendReliable 1 [3], .poll 1,
      .run ⟨false, .opened, 0, true⟩, .run ⟨false, .opened, 0, true⟩]

def afterInTurn : State := (follow next inTurn start).getD start

theorem run_inTurn : Run ((interleaving Unit).restrict Fresh) inTurn afterInTurn := by
  have hfollow : follow (fun s event => if Fresh s event then next s event else none) inTurn start =
      some afterInTurn := rfl
  have hstart : Run ((interleaving Unit).restrict Fresh) [] start := .init ⟨_, _, rfl⟩
  apply Run.follow _ hstart hfollow
  intro s event t h
  split_ifs at h with hfresh
  exact ⟨hfresh, h⟩

theorem sends_serialized_inTurn :
    (afterInTurn.workers.map fun c => (c.phase.job.map (·.id), c.phase.live)) =
      [(none, false), (some 2, true)] ∧
    Serialized afterInTurn :=
  ⟨rfl, sends_serialized run_inTurn⟩

/-- The game is over while the task waits for the channel, and the next call comes
before the task is polled. -/
def overtaken : List (Event Unit) :=
  [.sendReliable 1 [1], .poll 0, .run ⟨false, .connecting, 0, true⟩,
    .run ⟨false, .connecting, 0, true⟩, .run ⟨false, .connecting, 0, true⟩,
    .message (.error "session-superseded" "") true, .sendReliable 1 [2], .poll 1,
    .run ⟨false, .connecting, 0, true⟩]

def afterOvertaken : State := (follow next overtaken start).getD start

/-- Two tasks have a message to player 1 in hand. -/
theorem sends_not_serialized :
    ¬ ∀ (events : List (Event Unit)) (s : State), Run (interleaving Unit) events s →
      Serialized s := by
  intro h
  have hfollow : follow next overtaken start = some afterOvertaken := rfl
  have hstart : Run (interleaving Unit) [] start := .init ⟨_, _, rfl⟩
  have hrun : Run (interleaving Unit) overtaken afterOvertaken :=
    Run.follow (fun _ _ _ h => h) hstart hfollow
  have hsame := (h overtaken afterOvertaken hrun).one 0 1 ⟨1, .awaitOpen ⟨0, [1]⟩ 0 (some false)⟩
    ⟨1, .findLink ⟨1, [2]⟩⟩ rfl rfl rfl (by simp [Phase.job]) (by simp [Phase.job])
  cases hsame

end Lobbylink.Wasm.Sends
