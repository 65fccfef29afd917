import Lobbylink.Java.Discipline

/-! The signals of the Java client, over its runs: whose they are, in what order they go out,
and that no link describes itself twice. -/
namespace Lobbylink.Java.Signals
open Json Messages Reliable Tasks Telling Discipline Lib.Runs

variable {D : Type}

def epochTo (p : Int) : Sent D → Option Nat
  | .signal q e _ => if q = p then some e else none
  | .leave => none

/-- How many descriptions of a link are on their way, or said. -/
def under (ops : List Op) (exec : List (Tasks.Task D)) (sent : List (Sent D)) (e : Nat) : Nat :=
  ops.countP (fun op => about e (opToken op)) + exec.countP (fun task => about e (taskToken task)) +
    sent.countP (fun sent => about e (sentToken sent))

/-- The signal is of a link to the player it goes to. -/
structure Owned (a : Actor D) (p : Int) (e : Nat) (payload : Payload D) : Prop where
  link : Linked a (p, e)
  made : ∀ t, sentToken (.signal p e payload) = some t → Made a t

structure Ready (a : Actor D) (task : Tasks.Task D) : Prop where
  made : ∀ t, taskToken task = some t → Made a t
  due : ∀ p e, task = .rebuild p e → a.selfId < p

structure Known (a : Actor D) (op : Op) : Prop where
  link : Linked a (opLink op)
  made : ∀ t, opToken op = some t → Made a t

/-- Before the leave, which is the last that is said. -/
def Left (a : Actor D) : Prop :=
  if a.closed then ∃ before, a.sent = before ++ [Sent.leave] ∧ Sent.leave ∉ before
  else Sent.leave ∉ a.sent

structure Orderly (selfId : Int) (a : Actor D) (exec : List (Tasks.Task D)) : Prop where
  sound : Sound a
  self : a.selfId = selfId
  single : ∀ e, under a.ops exec a.sent e ≤ if e ≤ a.epochCounter then 1 else 0
  ops : ∀ op ∈ a.ops, Known a op
  exec : ∀ task ∈ exec, Ready a task
  timers : ∀ t ∈ a.timers, a.selfId < t.1
  owned : ∀ p e payload, Sent.signal p e payload ∈ a.sent → Owned a p e payload
  current : ∀ p e payload, Sent.signal p e payload ∈ a.sent → ∀ e', a.peers p = some e' → e ≤ e'
  sorted : ∀ p, (a.sent.filterMap (epochTo p)).Pairwise (· ≤ ·)
  left : Left a

variable {selfId : Int} {a b : Actor D} {exec rest : List (Tasks.Task D)} {task : Tasks.Task D}

theorem Orderly.drop (h : Orderly selfId a (task :: rest)) : Orderly selfId a rest := by
  have hfewer (e : Nat) : under a.ops rest a.sent e ≤ under a.ops (task :: rest) a.sent e := by
    unfold under
    rw [List.countP_cons]
    omega
  exact { h with
    single := fun e => Nat.le_trans (hfewer e) (h.single e)
    exec := fun t ht => h.exec t (List.mem_cons_of_mem _ ht) }

/-- What is made anew has an epoch to come, so the signals that went out are behind it. -/
theorem Orderly.goes (h : Orderly selfId a exec) (hgoes : Goes a b) : Orderly selfId b exec := by
  have hbehind (p : Int) (e : Nat) (payload : Payload D)
      (hsent : Sent.signal p e payload ∈ a.sent) : e ≤ a.epochCounter := by
    obtain ⟨link, hlink, -⟩ := (h.owned p e payload hsent).link
    exact h.sound.placed.made e (by simp [hlink])
  refine { sound := hgoes.sound h.sound, self := hgoes.selfId.trans h.self, single := ?_, ops := ?_,
           exec := ?_, timers := ?_, owned := ?_, current := ?_, sorted := ?_, left := ?_ }
  · intro e
    have hops := hgoes.ops e
    have hcounter := hgoes.counter
    have hsingle := h.single e
    unfold under at hsingle ⊢
    rw [hgoes.sent]
    split_ifs at hops hsingle ⊢ <;> omega
  · intro op hop
    rcases hgoes.made op hop with hold | ⟨hlink, hmade⟩
    · exact ⟨hgoes.linked (h.ops op hold).link, fun t ht => hgoes.keeps ((h.ops op hold).made t ht)⟩
    · exact ⟨hlink, fun t ht => (hmade t ht).2⟩
  · intro task htask
    refine ⟨fun t ht => hgoes.keeps ((h.exec task htask).made t ht), fun p e hrebuild => ?_⟩
    rw [hgoes.selfId]
    exact (h.exec task htask).due p e hrebuild
  · intro t ht
    rw [hgoes.selfId]
    exact (hgoes.timers t ht).elim (h.timers t) id
  · intro p e payload hsent
    rw [hgoes.sent] at hsent
    obtain ⟨hlinked, hmade⟩ := h.owned p e payload hsent
    exact ⟨hgoes.linked hlinked, fun t ht => hgoes.keeps (hmade t ht)⟩
  · intro p e payload hsent e' hpeer
    rw [hgoes.sent] at hsent
    rcases hgoes.peers p e' hpeer with hold | hnew
    · exact h.current p e payload hsent e' hold
    · exact Nat.le_of_lt (Nat.lt_of_le_of_lt (hbehind p e payload hsent) hnew)
  · rw [hgoes.sent]
    exact h.sorted
  · rw [Left, hgoes.closed, hgoes.sent]
    exact h.left

def own (link : PeerLink D) : Int × Bool × Nat := (link.playerId, link.initiator, link.epoch)

theorem own_of_kept {f : PeerLink D → PeerLink D} (hf : Kept f) (link : PeerLink D) :
    own (f link) = own link := by
  obtain ⟨htie, hplace⟩ := hf link
  simp only [tieOf, Client.Story.Tie.mk.injEq] at htie
  simp only [place, Prod.mk.injEq] at hplace
  simp only [own, hplace.2.1, htie.2.1, htie.1]

theorem links_modifyLink (epoch : Nat) {f : PeerLink D → PeerLink D} (hf : Kept f) {e : Nat}
    {old : PeerLink D} (hold : a.links e = some old) :
    ∃ link, (a.modifyLink epoch f).links e = some link ∧ own link = own old := by
  by_cases he : e = epoch
  · subst he
    exact ⟨f old, by simp [Actor.modifyLink, hold], own_of_kept hf old⟩
  · exact ⟨old, (Function.update_of_ne he ..).trans hold, rfl⟩

theorem old_of_modifyLink {epoch : Nat} {f : PeerLink D → PeerLink D} (hf : Kept f) {e : Nat}
    {link : PeerLink D} (hlink : (a.modifyLink epoch f).links e = some link) :
    ∃ old, a.links e = some old ∧ own link = own old := by
  by_cases he : e = epoch
  · subst he
    simp only [Actor.modifyLink, Function.update_self, Option.map_eq_some_iff] at hlink
    obtain ⟨old, hold, rfl⟩ := hlink
    exact ⟨old, hold, own_of_kept hf old⟩
  · exact ⟨link, (Function.update_of_ne he ..).symm.trans hlink, rfl⟩

theorem linked_modifyLink (epoch : Nat) {f : PeerLink D → PeerLink D} (hf : Kept f) {l : Int × Nat}
    (hl : Linked a l) : Linked (a.modifyLink epoch f) l := by
  obtain ⟨old, hold, howner⟩ := hl
  obtain ⟨link, hlink, hown⟩ := links_modifyLink epoch hf hold
  simp only [own, Prod.mk.injEq] at hown
  exact ⟨link, hlink, hown.1.trans howner⟩

theorem Orderly.modifyLink (h : Orderly selfId a exec) (epoch : Nat) {f : PeerLink D → PeerLink D}
    (hf : Kept f) : Orderly selfId (a.modifyLink epoch f) exec := by
  have hmade {t : Token} (ht : Made a t) : Made (a.modifyLink epoch f) t := by
    obtain ⟨old, hold, hplayer, hoffer⟩ := ht
    obtain ⟨link, hlink, hown⟩ := links_modifyLink epoch hf hold
    simp only [own, Prod.mk.injEq] at hown
    exact ⟨link, hlink, hown.1.trans hplayer, hown.2.1.trans hoffer⟩
  refine { h with sound := ⟨?_, ?_, ?_⟩, ops := ?_, exec := ?_, owned := ?_ }
  · exact h.sound.placed.modifyLink epoch fun link => (hf link).2
  · intro e link hlink
    obtain ⟨old, hold, hown⟩ := old_of_modifyLink hf hlink
    simp only [own, Prod.mk.injEq] at hown
    exact hown.2.2.trans (h.sound.epochs e old hold)
  · intro e link hlink
    obtain ⟨old, hold, hown⟩ := old_of_modifyLink hf hlink
    simp only [own, Prod.mk.injEq] at hown
    have hright := h.sound.right e old hold
    unfold Right at hright ⊢
    rwa [hown.1, hown.2.1]
  · intro op hop
    exact ⟨linked_modifyLink epoch hf (h.ops op hop).link,
      fun t ht => hmade ((h.ops op hop).made t ht)⟩
  · intro task htask
    exact ⟨fun t ht => hmade ((h.exec task htask).made t ht), (h.exec task htask).due⟩
  · intro p e payload hsent
    obtain ⟨hlinked, hown⟩ := h.owned p e payload hsent
    exact ⟨linked_modifyLink epoch hf hlinked, fun t ht => hmade (hown t ht)⟩

theorem Orderly.pass (h : Orderly selfId a exec) {ops : List Op} {exec' : List (Tasks.Task D)}
    (hcount : ∀ e, under ops exec' a.sent e ≤ under a.ops exec a.sent e)
    (hops : ∀ op ∈ ops, Known a op) (hexec : ∀ task ∈ exec', Ready a task) :
    Orderly selfId { a with ops := ops } exec' where
  sound := ⟨h.sound.placed.congr rfl rfl rfl rfl, h.sound.epochs, h.sound.right⟩
  self := h.self
  single e := Nat.le_trans (hcount e) (h.single e)
  ops op hop := ⟨(hops op hop).link, (hops op hop).made⟩
  exec task htask := ⟨(hexec task htask).made, (hexec task htask).due⟩
  timers := h.timers
  owned p e payload hsent := ⟨(h.owned p e payload hsent).link, (h.owned p e payload hsent).made⟩
  current := h.current
  sorted := h.sorted
  left := h.left

theorem Orderly.hands (h : Orderly selfId a (task :: rest)) {op : Op} (hop : Known a op)
    (htoken : opToken op = taskToken task) : Orderly selfId (a.call op) rest := by
  refine h.pass (fun e => ?_) (fun op' hop' => ?_) fun t ht => h.exec t (List.mem_cons_of_mem _ ht)
  · unfold under
    rw [List.countP_append, List.countP_singleton, List.countP_cons, htoken]
    omega
  · rcases List.mem_append.1 hop' with hold | hnew
    · exact h.ops op' hold
    · rwa [List.mem_singleton.1 hnew]

theorem mem_epochTo {p : Int} {e : Nat} {sent : List (Sent D)} (h : e ∈ sent.filterMap (epochTo p)) :
    ∃ payload, Sent.signal p e payload ∈ sent := by
  obtain ⟨message, hmem, hto⟩ := List.mem_filterMap.1 h
  cases message with
  | signal q epoch payload =>
    simp only [epochTo, Option.ite_none_right_eq_some, Option.some.injEq] at hto
    obtain ⟨rfl, rfl⟩ := hto
    exact ⟨payload, hmem⟩
  | leave => cases hto

theorem Orderly.speaks (h : Orderly selfId a (task :: rest)) {p : Int} {epoch : Nat}
    {payload : Payload D} (hpeer : a.peers p = some epoch)
    (htoken : sentToken (.signal p epoch payload) = taskToken task) :
    Orderly selfId { a with sent := a.sent ++ [.signal p epoch payload] } rest := by
  have hopen : a.closed ≠ true := fun hclosed =>
    Option.some_ne_none epoch (hpeer.symm.trans (h.sound.placed.gone hclosed p))
  have hnew : Owned a p epoch payload := by
    exact ⟨linked_of_peer h.sound.placed hpeer,
      fun t ht => (h.exec task (by simp)).made t (htoken ▸ ht)⟩
  have hlast (q : Int) (e : Nat) (other : Payload D)
      (hsent : Sent.signal q e other ∈ a.sent ++ [.signal p epoch payload]) :
      Sent.signal q e other ∈ a.sent ∨ (q = p ∧ e = epoch ∧ other = payload) := by
    rcases List.mem_append.1 hsent with hold | hsame
    · exact .inl hold
    · simpa using Or.inr (List.mem_singleton.1 hsame)
  have hdropped := h.drop
  refine { hdropped with sound := ⟨h.sound.placed.congr rfl rfl rfl rfl, h.sound.epochs, h.sound.right⟩,
                         single := ?_, ops := ?_, exec := ?_, owned := ?_, current := ?_,
                         sorted := ?_, left := ?_ }
  · intro e
    refine Nat.le_trans (m := under a.ops (task :: rest) a.sent e) (Nat.le_of_eq ?_) (h.single e)
    simp only [under, List.countP_append, List.countP_cons, List.countP_nil, htoken]
    omega
  · intro op hop
    exact ⟨(h.ops op hop).link, (h.ops op hop).made⟩
  · intro t ht
    exact ⟨(hdropped.exec t ht).made, (hdropped.exec t ht).due⟩
  · intro q e other hsent
    rcases hlast q e other hsent with hold | ⟨rfl, rfl, rfl⟩
    · exact ⟨(h.owned q e other hold).link, (h.owned q e other hold).made⟩
    · exact ⟨hnew.link, hnew.made⟩
  · intro q e other hsent e' hpeer'
    rcases hlast q e other hsent with hold | ⟨rfl, rfl, -⟩
    · exact h.current q e other hold e' hpeer'
    · exact Nat.le_of_eq (Option.some.inj (hpeer.symm.trans hpeer'))
  · intro q
    rw [List.filterMap_append, List.pairwise_append]
    refine ⟨h.sorted q, ?_, fun e he e' he' => ?_⟩
    · cases hto : epochTo q (Sent.signal p epoch payload) <;> simp [hto]
    · obtain ⟨other, hsent⟩ := mem_epochTo he
      obtain ⟨last, hlast⟩ := mem_epochTo he'
      simp only [List.mem_singleton, Sent.signal.injEq] at hlast
      obtain ⟨rfl, rfl, -⟩ := hlast
      exact h.current q e other hsent e' hpeer
  · rw [Left, if_neg hopen]
    have hleft := h.left
    rw [Left, if_neg hopen] at hleft
    simpa using hleft

theorem under_erase {op : Op} {ops : List Op} (hop : op ∈ ops) (exec : List (Tasks.Task D))
    (sent : List (Sent D)) (e : Nat) : under (ops.erase op) exec sent e +
      (if about e (opToken op) then 1 else 0) = under ops exec sent e := by
  have hcount := (List.perm_cons_erase hop).countP_eq fun op => about e (opToken op)
  rw [List.countP_cons] at hcount
  unfold under
  omega

theorem Orderly.recalls (h : Orderly selfId a exec) {op next : Op} (hop : op ∈ a.ops)
    (htoken : opToken next = opToken op) (hfor : opLink next = opLink op) :
    Orderly selfId { a with ops := a.ops.erase op ++ [next] } exec := by
  have hknown := h.ops op hop
  refine h.pass (fun e => ?_) (fun op' hop' => ?_) h.exec
  · rw [← under_erase hop]
    unfold under
    rw [List.countP_append, List.countP_singleton, htoken]
    omega
  · rcases List.mem_append.1 hop' with hold | hnew
    · exact h.ops op' (List.mem_of_mem_erase hold)
    · rw [List.mem_singleton.1 hnew]
      exact ⟨hfor ▸ hknown.link, fun t ht => hknown.made t (htoken ▸ ht)⟩

theorem Orderly.posts (h : Orderly selfId a exec) {op : Op} (hop : op ∈ a.ops)
    (htoken : taskToken task = opToken op) (hdue : task.continues = true) :
    Orderly selfId { a with ops := a.ops.erase op } (exec ++ [task]) := by
  refine h.pass (fun e => ?_) (fun op' hop' => h.ops op' (List.mem_of_mem_erase hop')) fun t ht => ?_
  · rw [← under_erase hop]
    unfold under
    rw [List.countP_append, List.countP_singleton, htoken]
    omega
  · rcases List.mem_append.1 ht with hold | hnew
    · exact h.exec t hold
    · rw [List.mem_singleton.1 hnew]
      refine ⟨fun t ht => (h.ops op hop).made t (htoken ▸ ht), fun p e hrebuild => ?_⟩
      rw [hrebuild] at hdue
      cases hdue

theorem Orderly.over (h : Orderly selfId a exec) (op : Op) :
    Orderly selfId { a with ops := a.ops.erase op } exec := by
  refine h.pass (fun e => ?_) (fun op' hop' => h.ops op' (List.mem_of_mem_erase hop')) h.exec
  have hfewer := (List.erase_sublist (a := op) (l := a.ops)).countP_le
    (p := fun op => about e (opToken op))
  unfold under
  omega

theorem Orderly.finish (h : Orderly selfId a exec) {op : Op} (hop : op ∈ a.ops) (outcome : Outcome) :
    Orderly selfId ({ a with ops := a.ops.erase op }.finish op outcome).1
      (exec ++ ({ a with ops := a.ops.erase op }.finish op outcome).2) := by
  unfold Actor.finish
  split
  · rw [List.append_nil]
    exact h.recalls hop rfl rfl
  · exact (h.posts hop rfl rfl).modifyLink _ (kept_describe _ _)
  · exact (h.posts hop rfl rfl).modifyLink _ (kept_describe _ _)
  · rw [List.append_nil]
    exact h.recalls hop rfl rfl
  · exact (h.posts hop rfl rfl).modifyLink _ (kept_describe _ _)
  · exact (h.posts hop rfl rfl).modifyLink _ (kept_describe _ _)
  · exact h.posts hop rfl rfl
  · rw [List.append_nil]
    exact h.over op

theorem Orderly.ends (h : Orderly selfId a exec) (hopen : a.closed = false)
    (hnone : ∀ p, a.peers p = none) :
    Orderly selfId { a with closed := true, sent := a.sent ++ [.leave] } exec := by
  have hsaid {p : Int} {e : Nat} {payload : Payload D}
      (hsent : Sent.signal p e payload ∈ a.sent ++ [.leave]) : Sent.signal p e payload ∈ a.sent := by
    simpa using hsent
  refine { h with sound := ⟨⟨?_, h.sound.placed.made, fun _ => hnone⟩, h.sound.epochs, h.sound.right⟩,
                  single := ?_, ops := ?_, exec := ?_, owned := ?_, current := ?_, sorted := ?_,
                  left := ?_ }
  · exact h.sound.placed.opened
  · intro e
    refine Nat.le_trans (Nat.le_of_eq ?_) (h.single e)
    simp [under, about, sentToken]
  · exact fun op hop => ⟨(h.ops op hop).link, (h.ops op hop).made⟩
  · exact fun t ht => ⟨(h.exec t ht).made, (h.exec t ht).due⟩
  · intro p e payload hsent
    exact ⟨(h.owned p e payload (hsaid hsent)).link, (h.owned p e payload (hsaid hsent)).made⟩
  · exact fun p e payload hsent e' hpeer => h.current p e payload (hsaid hsent) e' hpeer
  · intro p
    have hnothing : [Sent.leave (D := D)].filterMap (epochTo p) = [] := rfl
    rw [List.filterMap_append, hnothing, List.append_nil]
    exact h.sorted p
  · have hleft := h.left
    rw [Left, if_neg (by simp [hopen])] at hleft
    exact ⟨a.sent, rfl, hleft⟩

variable (lib : JavaNumbers D)

theorem Orderly.does (h : Orderly selfId a (task :: rest)) {env : Env} (hdoes : Does lib env a task b) :
    Orderly selfId b rest := by
  cases hdoes with
  | quiet _ _ hgoes => exact h.drop.goes hgoes
  | brings => exact h.drop.modifyLink _ (kept_takeCandidate lib _)
  | speaks _ _ hpeer htoken => exact h.speaks hpeer htoken
  | flushes htask hpeer => exact h.drop.modifyLink _ (kept_flushCandidates lib)
  | @answers p epoch htask hpeer =>
    have hflushed := h.modifyLink epoch (kept_flushCandidates lib)
    have hlinked := linked_modifyLink epoch (kept_flushCandidates lib)
      (linked_of_peer h.sound.placed hpeer)
    refine hflushed.hands ⟨hlinked, fun t ht => ?_⟩ (by rw [htask]; rfl)
    exact (hflushed.exec task (by simp)).made t (by rwa [htask])
  | ends htask hopen hgoes hnone => exact (h.drop.goes hgoes).ends (hgoes.closed.trans hopen) hnone

theorem orderly_step {σ τ : State D} {l : Label D} (h : Orderly selfId σ.actor σ.exec)
    (hstep : Tasks.step lib σ l τ) : Orderly selfId τ.actor τ.exec := by
  cases l with
  | post task =>
    obtain ⟨hcontinues, hdue, rfl⟩ := hstep
    have htoken : taskToken task = none := by cases task <;> first | rfl | cases hcontinues
    refine { h with single := fun e => ?_, exec := fun t ht => ?_ }
    · refine Nat.le_trans (Nat.le_of_eq ?_) (h.single e)
      simp [under, htoken, about]
    · rcases List.mem_append.1 ht with hold | hnew
      · exact h.exec t hold
      · rw [List.mem_singleton.1 hnew]
        refine ⟨fun t ht => absurd (ht.symm.trans htoken) (Option.some_ne_none t), fun p e hrebuild => ?_⟩
        rw [hrebuild] at hdue
        obtain ⟨delay, htimer⟩ := hdue
        exact h.timers _ htimer
  | finish op outcome =>
    obtain ⟨hop, rfl⟩ := hstep
    exact h.finish hop outcome
  | run env task =>
    obtain ⟨rest, hexec, rfl⟩ := hstep
    rw [hexec] at h
    exact h.does lib (does_runTask lib h.sound env (h.exec task (by simp)).due)

theorem orderly_new (storagePath : Option JString) (joined : Joined) :
    Orderly joined.selfId (Actor.new storagePath joined : Actor D) [] where
  sound := ⟨⟨nofun, fun _ he => absurd rfl he, fun _ _ => rfl⟩, nofun, nofun⟩
  self := rfl
  single _ := Nat.zero_le _
  ops := nofun
  exec := nofun
  timers := nofun
  owned := nofun
  current := nofun
  sorted _ := List.Pairwise.nil
  left := List.not_mem_nil

theorem orderly_run {storagePath : Option JString} {joined : Joined} {labels : List (Label D)}
    {σ : State D} (run : Run (Tasks.system lib storagePath joined) labels σ) :
    Orderly joined.selfId σ.actor σ.exec := by
  refine run.invariant (fun σ => Orderly joined.selfId σ.actor σ.exec) ?_
    fun σ l τ h hstep => orderly_step lib h hstep
  rintro σ rfl
  exact orderly_new storagePath joined

theorem countP_sentToken (sent : List (Sent D)) (e : Nat) :
    (sent.filterMap sentToken).countP (fun t => t.epoch = e) =
      sent.countP fun message => about e (sentToken message) := by
  rw [List.countP_filterMap]
  refine congrArg (fun f => sent.countP f) (funext fun message => ?_)
  cases sentToken message <;> rfl

/-- A signal goes to the player of its link, an offer to a higher player and an answer to a lower
one. No link describes itself twice, no player hears of an older link after a newer one, and
after the leave nothing is said. -/
theorem signals_orderly {storagePath : Option JString} {joined : Joined} {labels : List (Label D)}
    {σ : State D} (run : Run (Tasks.system lib storagePath joined) labels σ) :
    (∀ p e payload, Sent.signal p e payload ∈ σ.actor.sent →
      (∃ link, σ.actor.links e = some link ∧ link.playerId = p ∧ link.epoch = e) ∧
      (∀ sdp, payload = .offer sdp → joined.selfId < p) ∧
      (∀ sdp, payload = .answer sdp → p < joined.selfId)) ∧
    (∀ e, (σ.actor.sent.filterMap sentToken).countP (fun t => t.epoch = e) ≤ 1) ∧
    (∀ p, (σ.actor.sent.filterMap (epochTo p)).Pairwise (· ≤ ·)) ∧
    (Sent.leave ∈ σ.actor.sent ↔ σ.actor.closed = true) ∧
    ∀ before after, σ.actor.sent = before ++ .leave :: after → Sent.leave ∉ before ∧ after = [] := by
  have h := orderly_run lib run
  refine ⟨fun p e payload hsent => ?_, fun e => ?_, h.sorted, ?_, fun before after hsent => ?_⟩
  · obtain ⟨⟨link, hlink, howner⟩, hmade⟩ := h.owned p e payload hsent
    have hright (t : Token) (ht : sentToken (.signal p e payload) = some t) :
        if t.offer then joined.selfId < t.player else t.player < joined.selfId := by
      obtain ⟨mine, hmine, hplayer, hoffer⟩ := hmade t ht
      have hmaker := h.sound.right t.epoch mine hmine
      rwa [Right, hoffer, hplayer, h.self] at hmaker
    refine ⟨⟨link, hlink, howner, h.sound.epochs e link hlink⟩, ?_, ?_⟩
    · rintro sdp rfl
      exact hright ⟨p, e, true⟩ rfl
    · rintro sdp rfl
      exact hright ⟨p, e, false⟩ rfl
  · have hsingle := h.single e
    unfold under at hsingle
    rw [countP_sentToken]
    split_ifs at hsingle <;> omega
  · have hleft := h.left
    unfold Left at hleft
    split_ifs at hleft with hclosed
    · obtain ⟨before, hsent, -⟩ := hleft
      simp [hsent, hclosed]
    · simp [hleft, hclosed]
  · have hleft := h.left
    unfold Left at hleft
    split_ifs at hleft
    · obtain ⟨said, hsaid, hnone⟩ := hleft
      rcases List.eq_nil_or_concat after with rfl | ⟨most, last, rfl⟩
      · obtain ⟨rfl, -⟩ := List.append_inj' (hsent.symm.trans hsaid) rfl
        exact ⟨hnone, rfl⟩
      · have hsplit : before ++ .leave :: most ++ [last] = said ++ [.leave] := by
          simpa using hsent.symm.trans hsaid
        obtain ⟨rfl, -⟩ := List.append_inj' hsplit rfl
        exact absurd (by simp) hnone
    · exact absurd (hsent ▸ by simp) hleft

def offerLabels : List (Label Empty) :=
  [.post .start, .run startEnv .start, .finish (.createOffer 1 1) (.created (units "o")),
    .finish (.setLocalOffer 1 1 (units "o")) .set, .run startEnv (.localOfferSet 1 1 (units "o"))]

def twoPlayers : Joined := ⟨0, 2, false, units "t", [⟨0, true, true⟩, ⟨1, true, true⟩]⟩

def offerState : State Empty := offerLabels.foldl (after plainNumbers) ⟨Actor.new none twoPlayers, []⟩

theorem offer_run : Run (Tasks.system plainNumbers none twoPlayers) offerLabels offerState := by
  have hstart : Run (Tasks.system plainNumbers none twoPlayers) []
      ⟨Actor.new none twoPlayers, []⟩ := .init rfl
  have hposted := run_after _ hstart (l := .post .start) ⟨rfl, trivial⟩
  have hbegun := run_after _ hposted (l := .run startEnv .start) rfl
  have hcreated := run_after _ hbegun
    (l := .finish (.createOffer 1 1) (.created (units "o"))) (.head _)
  have hset := run_after _ hcreated (l := .finish (.setLocalOffer 1 1 (units "o")) .set) (.head _)
  exact run_after _ hset (l := .run startEnv (.localOfferSet 1 1 (units "o"))) rfl

def leaveLabels : List (Label Empty) := [.post .shutdown, .run startEnv .shutdown]

def leaveState : State Empty := leaveLabels.foldl (after plainNumbers) offerState

theorem leave_run :
    Run (Tasks.system plainNumbers none twoPlayers) (offerLabels ++ leaveLabels) leaveState :=
  run_after _ (run_after _ offer_run (l := .post .shutdown) ⟨rfl, trivial⟩)
    (l := .run startEnv .shutdown) rfl

theorem signals_orderly_leave :
    leaveState.actor.sent = [.signal 1 1 (.offer (units "o")), .leave] ∧
      (leaveState.actor.sent.filterMap sentToken).countP (fun t => t.epoch = 1) ≤ 1 :=
  ⟨rfl, (signals_orderly plainNumbers leave_run).2.1 1⟩

end Lobbylink.Java.Signals
