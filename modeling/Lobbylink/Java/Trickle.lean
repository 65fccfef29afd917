import Lobbylink.Java.Signals

/-! The candidates of the other players, as the Java client gives them to its links. They wait
with a link until it has the description of the other side. -/
namespace Lobbylink.Java.Trickle
open Json Messages Reliable Tasks Telling Discipline Signals Lib.Runs

variable {D : Type} (lib : JavaNumbers D)

/-- The client, and the candidates that have arrived for each link. -/
structure World (D : Type) where
  state : State D
  arrived : Nat → List (Members D)

def arrive (arrived : Nat → List (Members D)) : Option (Nat × Members D) → Nat → List (Members D)
  | none => arrived
  | some (epoch, candidate) => Function.update arrived epoch (arrived epoch ++ [candidate])

def labelArrival (σ : State D) : Label D → Option (Nat × Members D)
  | .run env task => taskArrival lib env σ.actor task
  | .post _ | .finish .. => none

def system (storagePath : Option JString) (joined : Joined) : System (World D) (Label D) where
  init := fun w => w = ⟨⟨Actor.new storagePath joined, []⟩, fun _ => []⟩
  step := fun w l w' => Tasks.step lib w.state l w'.state ∧
    w'.arrived = arrive w.arrived (labelArrival lib w.state l)

def hasText (candidate : Members D) : Bool :=
  match str lib candidate "candidate" with
  | none | some [] => false
  | some _ => true

/-- What a link has done with the candidates that arrived for it. -/
structure Held (link : PeerLink D) (arrived : List (Members D)) : Prop where
  given : link.pendingCandidates = none →
    link.remoteSet = true ∧ link.added = arrived.filter (hasText lib)
  waits : ∀ waiting, link.pendingCandidates = some waiting → link.added = [] ∧ waiting = arrived

structure Trickles (a : Actor D) (exec : List (Tasks.Task D)) (arrived : Nat → List (Members D)) :
    Prop where
  held : ∀ e link, a.links e = some link → Held lib link (arrived e)
  unheard : ∀ e, a.links e = none → arrived e = []
  remote : ∀ task ∈ exec, ∀ p e, described task = some (p, e) →
    ∃ link, a.links e = some link ∧ link.remoteSet = true
  flushed : ∀ e link, a.links e = some link → a.peers link.playerId = some e →
    link.remoteSet = true → link.pendingCandidates = none ∨
      ∃ task ∈ exec, described task = some (link.playerId, e)

variable {lib} {link old : PeerLink D} {xs : List (Members D)} {a b : Actor D}
  {exec rest : List (Tasks.Task D)} {task : Tasks.Task D} {arrived : Nat → List (Members D)}

theorem Held.congr (h : Held lib old xs) (hsame : core link = core old) : Held lib link xs := by
  simp only [core, Prod.mk.injEq] at hsame
  obtain ⟨-, -, -, hremote, hpending, hadded⟩ := hsame
  constructor
  · rw [hpending, hremote, hadded]
    exact h.given
  · rw [hpending, hadded]
    exact h.waits

theorem Held.describe (h : Held lib link xs) (signaling : Client.Native.Signaling) (remote : Bool) :
    Held lib (link.describe signaling remote) xs where
  given hpending := ⟨by simp [PeerLink.describe, (h.given hpending).1], (h.given hpending).2⟩
  waits := h.waits

theorem addCandidate_eq (link : PeerLink D) (candidate : Members D) :
    link.addCandidate lib candidate =
      { link with added := link.added ++ [candidate].filter (hasText lib) } := by
  unfold PeerLink.addCandidate
  rw [List.filter_singleton]
  unfold hasText
  split <;> simp_all

theorem foldl_addCandidate (pending : List (Members D)) (link : PeerLink D) :
    pending.foldl (PeerLink.addCandidate lib) link =
      { link with added := link.added ++ pending.filter (hasText lib) } := by
  induction pending generalizing link with
  | nil => simp
  | cons candidate rest ih =>
    rw [List.foldl_cons, addCandidate_eq, ih, ← List.singleton_append (l := rest),
      List.filter_append, List.append_assoc]

theorem Held.take (h : Held lib link xs) (candidate : Members D) :
    Held lib (link.takeCandidate lib candidate) (xs ++ [candidate]) := by
  unfold PeerLink.takeCandidate
  cases hpending : link.pendingCandidates with
  | none =>
    obtain ⟨hremote, hadded⟩ := h.given hpending
    rw [addCandidate_eq]
    refine ⟨fun _ => ⟨hremote, ?_⟩, fun waiting hwaiting => ?_⟩
    · rw [List.filter_append, ← hadded]
    · exact absurd (hpending.symm.trans hwaiting) nofun
  | some pending =>
    obtain ⟨hadded, rfl⟩ := h.waits pending hpending
    refine ⟨fun hnone => absurd hnone nofun, fun waiting hwaiting => ⟨hadded, ?_⟩⟩
    exact (Option.some.inj hwaiting).symm

theorem Held.flush (h : Held lib link xs) (hremote : link.remoteSet = true) :
    Held lib (link.flushCandidates lib) xs := by
  unfold PeerLink.flushCandidates
  cases hpending : link.pendingCandidates with
  | none => exact h
  | some pending =>
    obtain ⟨hadded, rfl⟩ := h.waits pending hpending
    simp only
    rw [foldl_addCandidate]
    refine ⟨fun _ => ⟨hremote, ?_⟩, fun waiting hwaiting => absurd hwaiting nofun⟩
    simp [hadded]

theorem pending_flushCandidates (link : PeerLink D) :
    (link.flushCandidates lib).pendingCandidates = none := by
  unfold PeerLink.flushCandidates
  cases hpending : link.pendingCandidates with
  | none => exact hpending
  | some pending =>
    simp only
    rw [foldl_addCandidate]

theorem Trickles.congr (h : Trickles lib a exec arrived) (hlinks : b.links = a.links)
    (hpeers : b.peers = a.peers) : Trickles lib b exec arrived where
  held e link hlink := h.held e link (hlinks ▸ hlink)
  unheard e hnone := h.unheard e (hlinks ▸ hnone)
  remote task htask p e hset := by
    rw [hlinks]
    exact h.remote task htask p e hset
  flushed e link hlink hpeer := h.flushed e link (hlinks ▸ hlink) (hpeers ▸ hpeer)

theorem Trickles.goes (h : Trickles lib a exec arrived) (hmade : ∀ e, a.links e ≠ none → e ≤ a.epochCounter)
    (hgoes : Goes a b) : Trickles lib b exec arrived where
  held e link hlink := by
    rcases hgoes.links e link hlink with ⟨old, hold, hcore⟩ | ⟨hnew, hfresh⟩
    · exact (h.held e old hold).congr hcore
    · have hnone : a.links e = none := by
        by_contra hsome
        exact absurd (hmade e hsome) (Nat.not_le_of_lt hnew)
      rw [h.unheard e hnone]
      refine ⟨fun hover => absurd (hfresh.pending.symm.trans hover) (Option.some_ne_none _), fun waiting hwaiting => ?_⟩
      exact ⟨hfresh.added, (Option.some.inj (hfresh.pending.symm.trans hwaiting)).symm⟩
  unheard e hnone := by
    refine h.unheard e ?_
    by_contra hsome
    obtain ⟨old, hold⟩ := Option.ne_none_iff_exists'.1 hsome
    obtain ⟨link, hlink, -⟩ := hgoes.stays e old hold
    exact Option.some_ne_none link (hlink.symm.trans hnone)
  remote task htask p e hset := by
    obtain ⟨old, hold, hremote⟩ := h.remote task htask p e hset
    obtain ⟨link, hlink, hcore⟩ := hgoes.stays e old hold
    simp only [core, Prod.mk.injEq] at hcore
    exact ⟨link, hlink, hcore.2.2.2.1.trans hremote⟩
  flushed e link hlink hpeer hremote := by
    rcases hgoes.links e link hlink with ⟨old, hold, hcore⟩ | ⟨-, hfresh⟩
    · simp only [core, Prod.mk.injEq] at hcore
      obtain ⟨howner, -, -, hset, hpending, -⟩ := hcore
      rw [howner, hpending]
      refine h.flushed e old hold ?_ (hset.symm.trans hremote)
      rcases hgoes.peers old.playerId e (howner ▸ hpeer) with hstill | hnew
      · exact hstill
      · exact absurd (hmade e (by simp [hold])) (Nat.not_le_of_lt hnew)
    · exact absurd (hfresh.remote.symm.trans hremote) Bool.false_ne_true

theorem Trickles.drop (h : Trickles lib a (task :: rest) arrived)
    (hstale : ∀ p e, described task = some (p, e) → a.peers p ≠ some e) :
    Trickles lib a rest arrived where
  held := h.held
  unheard := h.unheard
  remote t ht := h.remote t (List.mem_cons_of_mem _ ht)
  flushed e link hlink hpeer hremote := by
    rcases h.flushed e link hlink hpeer hremote with hover | ⟨t, ht, hset⟩
    · exact .inl hover
    · rcases List.mem_cons.1 ht with rfl | hmem
      · exact absurd hpeer (hstale _ e hset)
      · exact .inr ⟨t, hmem, hset⟩

theorem Trickles.post (h : Trickles lib a exec arrived) (hnone : described task = none) :
    Trickles lib a (exec ++ [task]) arrived where
  held := h.held
  unheard := h.unheard
  remote t ht p e hset := by
    rcases List.mem_append.1 ht with hold | hnew
    · exact h.remote t hold p e hset
    · rw [List.mem_singleton.1 hnew] at hset
      exact absurd (hnone.symm.trans hset) nofun
  flushed e link hlink hpeer hremote :=
    (h.flushed e link hlink hpeer hremote).imp_right fun ⟨t, ht, hset⟩ =>
      ⟨t, List.mem_append_left _ ht, hset⟩

theorem modifyLink_self (epoch : Nat) (f : PeerLink D → PeerLink D) :
    (a.modifyLink epoch f).links epoch = (a.links epoch).map f := Function.update_self ..

theorem modifyLink_of_ne {epoch e : Nat} (he : e ≠ epoch) (f : PeerLink D → PeerLink D) :
    (a.modifyLink epoch f).links e = a.links e := Function.update_of_ne he ..

theorem Trickles.modify (h : Trickles lib a exec arrived) {epoch : Nat} {f : PeerLink D → PeerLink D}
    {exec' : List (Tasks.Task D)} {arrived' : Nat → List (Members D)} (hkept : Kept f)
    (hremote : ∀ link : PeerLink D, link.remoteSet = true → (f link).remoteSet = true)
    (hothers : ∀ e, e ≠ epoch → arrived' e = arrived e)
    (hunheard : a.links epoch = none → arrived' epoch = [])
    (hheld : ∀ old, a.links epoch = some old → Held lib (f old) (arrived' epoch))
    (hset : ∀ task ∈ exec', ∀ p e, described task = some (p, e) → task ∈ exec ∨
      e = epoch ∧ ∃ old, a.links epoch = some old ∧ (f old).remoteSet = true)
    (hstays : ∀ task ∈ exec, ∀ p e, described task = some (p, e) → e ≠ epoch → task ∈ exec')
    (hflushed : ∀ old, a.links epoch = some old → a.peers old.playerId = some epoch →
      (f old).remoteSet = true → (f old).pendingCandidates = none ∨
        ∃ task ∈ exec', described task = some (old.playerId, epoch)) :
    Trickles lib (a.modifyLink epoch f) exec' arrived' where
  held e link hlink := by
    by_cases he : e = epoch
    · subst he
      rw [modifyLink_self, Option.map_eq_some_iff] at hlink
      obtain ⟨old, hold, rfl⟩ := hlink
      exact hheld old hold
    · rw [modifyLink_of_ne he] at hlink
      rw [hothers e he]
      exact h.held e link hlink
  unheard e hnone := by
    by_cases he : e = epoch
    · subst he
      rw [modifyLink_self, Option.map_eq_none_iff] at hnone
      exact hunheard hnone
    · rw [modifyLink_of_ne he] at hnone
      rw [hothers e he]
      exact h.unheard e hnone
  remote task htask p e hdescribed := by
    rcases hset task htask p e hdescribed with hold | ⟨rfl, old, hold, hdone⟩
    · obtain ⟨old, hlink, hdone⟩ := h.remote task hold p e hdescribed
      by_cases he : e = epoch
      · subst he
        exact ⟨f old, by rw [modifyLink_self, hlink, Option.map_some], hremote old hdone⟩
      · exact ⟨old, by rw [modifyLink_of_ne he, hlink], hdone⟩
    · exact ⟨f old, by rw [modifyLink_self, hold, Option.map_some], hdone⟩
  flushed e link hlink hpeer hdone := by
    by_cases he : e = epoch
    · subst he
      rw [modifyLink_self, Option.map_eq_some_iff] at hlink
      obtain ⟨old, hold, rfl⟩ := hlink
      have hplace := (hkept old).2
      simp only [place, Prod.mk.injEq] at hplace
      rw [hplace.2.1] at hpeer ⊢
      exact hflushed old hold hpeer hdone
    · rw [modifyLink_of_ne he] at hlink
      rcases h.flushed e link hlink hpeer hdone with hover | ⟨t, ht, hdescribed⟩
      · exact .inl hover
      · exact .inr ⟨t, hstays t ht _ e hdescribed he, hdescribed⟩

theorem remoteSet_takeCandidate (link : PeerLink D) (candidate : Members D) :
    (link.takeCandidate lib candidate).remoteSet = link.remoteSet := by
  unfold PeerLink.takeCandidate
  split
  · rfl
  · rw [addCandidate_eq]

theorem remoteSet_flushCandidates (link : PeerLink D) :
    (link.flushCandidates lib).remoteSet = link.remoteSet := by
  unfold PeerLink.flushCandidates
  split
  · rfl
  · rw [foldl_addCandidate]

theorem pending_takeCandidate {link : PeerLink D} (h : link.pendingCandidates = none)
    (candidate : Members D) : (link.takeCandidate lib candidate).pendingCandidates = none := by
  unfold PeerLink.takeCandidate
  rw [h, addCandidate_eq]
  exact h

theorem Trickles.take (h : Trickles lib a exec arrived) {p : Int} {epoch : Nat}
    (hlinked : Linked a (p, epoch)) (candidate : Members D) :
    Trickles lib (a.modifyLink epoch (PeerLink.takeCandidate lib candidate)) exec
      (arrive arrived (some (epoch, candidate))) := by
  refine h.modify (kept_takeCandidate lib candidate) (fun link hset => ?_)
    (fun e he => Function.update_of_ne he ..) (fun hnone => ?_) (fun old hold => ?_)
    (fun task htask _ _ _ => .inl htask) (fun task htask _ _ _ _ => htask)
    fun old hold hpeer hset => ?_
  · rw [remoteSet_takeCandidate]
    exact hset
  · obtain ⟨link, hlink, -⟩ := hlinked
    exact absurd (hnone.symm.trans hlink) nofun
  · rw [arrive, Function.update_self]
    exact (h.held epoch old hold).take candidate
  · rw [remoteSet_takeCandidate] at hset
    exact (h.flushed epoch old hold hpeer hset).imp_left fun hover =>
      pending_takeCandidate hover candidate

theorem Trickles.flush (h : Trickles lib a (task :: rest) arrived) {p : Int} {epoch : Nat}
    (htask : described task = some (p, epoch)) :
    Trickles lib (a.modifyLink epoch (PeerLink.flushCandidates lib)) rest arrived := by
  obtain ⟨link, hlink, hset⟩ := h.remote task (by simp) p epoch htask
  refine h.modify (kept_flushCandidates lib) (fun link hset => ?_) (fun _ _ => rfl)
    (h.unheard epoch) (fun old hold => ?_)
    (fun t ht _ _ _ => .inl (List.mem_cons_of_mem _ ht)) (fun t ht q e hdescribed he => ?_)
    fun old hold hpeer hset => .inl (pending_flushCandidates old)
  · rw [remoteSet_flushCandidates]
    exact hset
  · obtain rfl := Option.some.inj (hold.symm.trans hlink)
    exact (h.held epoch old hold).flush hset
  · rcases List.mem_cons.1 ht with rfl | hmem
    · exact absurd (Prod.mk.inj (Option.some.inj (hdescribed.symm.trans htask))).2 he
    · exact hmem

/-- A description is set, and if it is the other side's, the task for the link is posted. -/
theorem Trickles.describe (h : Trickles lib a exec arrived) (signaling : Client.Native.Signaling)
    {remote : Bool} {p : Int} {epoch : Nat} (hlinked : Linked a (p, epoch))
    (htask : described task = if remote then some (p, epoch) else none) :
    Trickles lib (a.modifyLink epoch (PeerLink.describe signaling remote)) (exec ++ [task]) arrived := by
  obtain ⟨link, hlink, howner⟩ := hlinked
  refine h.modify (kept_describe signaling remote) (fun link hset => ?_) (fun _ _ => rfl)
    (h.unheard epoch) (fun old hold => (h.held epoch old hold).describe signaling remote)
    (fun t ht q e hdescribed => ?_) (fun t ht _ _ _ _ => List.mem_append_left _ ht)
    fun old hold hpeer hset => ?_
  · simp [PeerLink.describe, hset]
  · rcases List.mem_append.1 ht with hold | hnew
    · exact .inl hold
    · rw [List.mem_singleton.1 hnew, htask] at hdescribed
      split_ifs at hdescribed with hremote
      obtain ⟨-, rfl⟩ := Prod.mk.inj (Option.some.inj hdescribed)
      exact .inr ⟨rfl, link, hlink, by simp [PeerLink.describe, hremote]⟩
  · obtain rfl := Option.some.inj (hold.symm.trans hlink)
    cases remote with
    | true =>
      refine .inr ⟨task, by simp, ?_⟩
      rw [htask, howner]
      rfl
    | false =>
      have hbefore : old.remoteSet = true := by simpa [PeerLink.describe] using hset
      refine (h.flushed epoch old hold hpeer hbefore).imp_right fun ⟨t, ht, hdescribed⟩ => ?_
      exact ⟨t, List.mem_append_left _ ht, hdescribed⟩

theorem arrival_linked (h : Placed a) {m : Members D} {epoch : Nat} {candidate : Members D}
    (harrival : arrival lib a m = some (epoch, candidate)) : ∃ p, Linked a (p, epoch) := by
  unfold arrival at harrival
  simp only at harrival
  split_ifs at harrival
  obtain ⟨payload, -, hkind⟩ := Option.bind_eq_some_iff.1 harrival
  split_ifs at hkind
  obtain ⟨c, -, hbrought⟩ := Option.bind_eq_some_iff.1 hkind
  obtain ⟨link, hlink, hopen⟩ := Option.bind_eq_some_iff.1 hbrought
  split_ifs at hopen
  obtain ⟨rfl, -⟩ := Prod.mk.inj (Option.some.inj hopen)
  exact ⟨_, linked_of_peer h (h.linkTo hlink).1⟩

theorem taskArrival_linked (h : Placed a) {env : Env} {epoch : Nat} {candidate : Members D}
    (harrival : taskArrival lib env a task = some (epoch, candidate)) : ∃ p, Linked a (p, epoch) := by
  unfold taskArrival at harrival
  split at harrival
  · split_ifs at harrival
    split at harrival
    · exact arrival_linked h harrival
    · cases harrival
  · cases harrival

theorem Trickles.does (h : Trickles lib a (task :: rest) arrived) (hplaced : Placed a) {env : Env}
    (hdoes : Does lib env a task b) :
    Trickles lib b rest (arrive arrived (taskArrival lib env a task)) := by
  cases hdoes with
  | quiet hnone hstale hgoes =>
    rw [hnone]
    exact (h.drop hstale).goes hplaced.made hgoes
  | brings harrival htask =>
    obtain ⟨p, hlinked⟩ := taskArrival_linked hplaced harrival
    rw [harrival]
    exact (h.drop fun _ _ hsome => absurd (htask.symm.trans hsome) nofun).take hlinked _
  | speaks hnone htask hpeer htoken =>
    rw [hnone]
    exact (h.drop fun _ _ hsome => absurd (htask.symm.trans hsome) nofun).congr rfl rfl
  | @flushes p epoch htask hpeer =>
    subst htask
    exact h.flush rfl
  | @answers p epoch htask hpeer =>
    subst htask
    exact (h.flush rfl).congr rfl rfl
  | ends htask hopen hgoes hnone =>
    subst htask
    exact ((h.drop nofun).goes hplaced.made hgoes).congr rfl rfl

theorem Trickles.finish (h : Trickles lib a exec arrived) {op : Op} (hlinked : Linked a (opLink op))
    (outcome : Outcome) :
    Trickles lib ({ a with ops := a.ops.erase op }.finish op outcome).1
      (exec ++ ({ a with ops := a.ops.erase op }.finish op outcome).2) arrived := by
  have hover : Trickles lib { a with ops := a.ops.erase op } exec arrived := h.congr rfl rfl
  unfold Actor.finish
  split
  · rw [List.append_nil]
    exact h.congr rfl rfl
  · exact hover.describe _ hlinked rfl
  · exact hover.describe _ hlinked rfl
  · rw [List.append_nil]
    exact h.congr rfl rfl
  · exact hover.describe _ hlinked rfl
  · exact hover.describe _ hlinked rfl
  · exact hover.post rfl
  · rw [List.append_nil]
    exact hover

theorem trickles_step {selfId : Int} {w w' : World D} {l : Label D} {storagePath : Option JString}
    {joined : Joined} (h : Trickles lib w.state.actor w.state.exec w.arrived)
    (hi : Orderly selfId w.state.actor w.state.exec)
    (hstep : (system lib storagePath joined).step w l w') :
    Trickles lib w'.state.actor w'.state.exec w'.arrived := by
  obtain ⟨hstate, harrived⟩ := hstep
  rw [harrived]
  generalize w'.state = τ at hstate
  cases l with
  | post task =>
    obtain ⟨hcontinues, -, rfl⟩ := hstate
    exact h.post (by cases task <;> first | rfl | cases hcontinues)
  | finish op outcome =>
    obtain ⟨hop, rfl⟩ := hstate
    exact h.finish (hi.ops op hop).link outcome
  | run env task =>
    obtain ⟨rest, hexec, rfl⟩ := hstate
    rw [hexec] at h hi
    exact h.does hi.sound.placed (does_runTask lib hi.sound env (hi.exec task (by simp)).due)

theorem trickles_run {storagePath : Option JString} {joined : Joined} {labels : List (Label D)}
    {w : World D} (run : Run (system lib storagePath joined) labels w) :
    Orderly joined.selfId w.state.actor w.state.exec ∧
      Trickles lib w.state.actor w.state.exec w.arrived := by
  refine run.invariant (fun w => Orderly joined.selfId w.state.actor w.state.exec ∧
    Trickles lib w.state.actor w.state.exec w.arrived) ?_ fun w l w' h hstep => ?_
  · rintro w rfl
    exact ⟨orderly_new storagePath joined, nofun, fun _ _ => rfl, nofun, nofun⟩
  · exact ⟨orderly_step lib h.1 hstep.1, trickles_step h.2 h.1 hstep⟩

/-- Every candidate that arrives for a link waits with it, or was given to the stack, in the order
in which they arrived, after the description of the other side; with the task for that
description over, none waits on a link in its place. -/
theorem candidates_trickle {storagePath : Option JString} {joined : Joined} {labels : List (Label D)}
    {w : World D} (run : Run (system lib storagePath joined) labels w) {e : Nat} {link : PeerLink D}
    (hlink : w.state.actor.links e = some link) :
    (∀ waiting, link.pendingCandidates = some waiting → link.added = [] ∧ waiting = w.arrived e) ∧
    (link.pendingCandidates = none →
      link.remoteSet = true ∧ link.added = (w.arrived e).filter (hasText lib)) ∧
    (w.state.actor.peers link.playerId = some e → link.remoteSet = true →
      (∀ task ∈ w.state.exec, described task ≠ some (link.playerId, e)) →
      link.pendingCandidates = none) := by
  obtain ⟨-, h⟩ := trickles_run run
  have hheld := h.held e link hlink
  refine ⟨hheld.waits, hheld.given, fun hpeer hset hnone => ?_⟩
  rcases h.flushed e link hlink hpeer hset with hover | ⟨task, htask, hdescribed⟩
  · exact hover
  · exact absurd hdescribed (hnone task htask)

def iceText : JString :=
  units "\x7b\"type\":\"signal\",\"from\":1,\"payload\":\x7b\"kind\":\"ice\",\"candidate\":\x7b\"candidate\":\"c\"\x7d\x7d\x7d"

def iceCandidate : Members Empty := [(units "candidate", .string (units "c"))]

def iceMembers : Members Empty :=
  [(units "type", .string (units "signal")), (units "from", .long 1),
    (units "payload", .map [(units "kind", .string (units "ice")),
      (units "candidate", .map iceCandidate)])]

set_option maxRecDepth 100000 in
theorem parse_iceText :
    parse plainNumbers.toJavaLib callEnv.calls iceText = some (.ok (.map iceMembers)) := by
  with_unfolding_all rfl

def answerText : JString :=
  units "\x7b\"type\":\"signal\",\"from\":1,\"payload\":\x7b\"kind\":\"answer\",\"sdp\":\"x\"\x7d\x7d"

def answerMembers : Members Empty :=
  [(units "type", .string (units "signal")), (units "from", .long 1),
    (units "payload", .map [(units "kind", .string (units "answer")), (units "sdp", .string (units "x"))])]

set_option maxRecDepth 100000 in
theorem parse_answerText :
    parse plainNumbers.toJavaLib callEnv.calls answerText = some (.ok (.map answerMembers)) := by
  with_unfolding_all rfl

theorem run_heard {storagePath : Option JString} {joined : Joined} {labels : List (Label D)}
    {w : World D} (run : Run (system lib storagePath joined) labels w) {l : Label D}
    (h : Takes w.state l) : Run (system lib storagePath joined) (labels ++ [l])
      ⟨after lib w.state l, arrive w.arrived (labelArrival lib w.state l)⟩ :=
  run.step ⟨step_after lib h, rfl⟩

theorem run_taken {storagePath : Option JString} {joined : Joined} {labels : List (Label D)}
    {a : Actor D} {arrived : Nat → List (Members D)}
    (run : Run (system lib storagePath joined) labels ⟨⟨a, []⟩, arrived⟩) {env : Env} {text : JString}
    {m : Members D} (hparse : parse lib.toJavaLib env.calls text = some (.ok (.map m)))
    (hopen : a.closed = false) : Run (system lib storagePath joined)
      (labels ++ [.post (.serverText text)] ++ [.run env (.serverText text)])
      ⟨⟨a.handleMembers lib env m, []⟩, arrive arrived (taskArrival lib env a (.serverText text))⟩ := by
  have hposted := run_heard run (l := .post (.serverText text)) ⟨rfl, trivial⟩
  have htaken : a.handleMembers lib env m = a.runTask lib env (.serverText text) := by
    simp only [Actor.runTask, Actor.handleServerText, hopen, hparse]
    rfl
  exact hposted.step ⟨⟨[], rfl, congrArg (State.mk · []) htaken⟩, rfl⟩

def iceWorld : World Empty :=
  ⟨⟨offerState.actor.handleMembers plainNumbers callEnv iceMembers, []⟩,
    Function.update (fun _ => []) 1 [iceCandidate]⟩

def iceLabels : List (Label Empty) :=
  offerLabels ++ [.post (.serverText iceText), .run callEnv (.serverText iceText)]

theorem ice_run : Run (system plainNumbers none twoPlayers) iceLabels iceWorld := by
  have hstart : Run (system plainNumbers none twoPlayers) []
      ⟨⟨Actor.new none twoPlayers, []⟩, fun _ => []⟩ := .init rfl
  have hbegun := run_heard (run_heard hstart (l := .post .start) ⟨rfl, trivial⟩)
    (l := .run startEnv .start) rfl
  have hcreated := run_heard hbegun
    (l := .finish (.createOffer 1 1) (.created (units "o"))) (.head _)
  have hset := run_heard hcreated (l := .finish (.setLocalOffer 1 1 (units "o")) .set) (.head _)
  have hoffered : Run (system plainNumbers none twoPlayers) offerLabels ⟨offerState, fun _ => []⟩ :=
    run_heard hset (l := .run startEnv (.localOfferSet 1 1 (units "o"))) rfl
  have harrival : taskArrival plainNumbers callEnv offerState.actor (.serverText iceText) =
      some (1, iceCandidate) := by
    simp only [taskArrival, parse_iceText]
    rfl
  have htaken := run_taken (a := offerState.actor) hoffered parse_iceText rfl
  rw [harrival] at htaken
  exact htaken

def answerLabels : List (Label Empty) :=
  [.post (.serverText answerText), .run callEnv (.serverText answerText),
    .finish (.setRemoteAnswer 1 1 (units "x")) .set, .run startEnv (.answerSet 1 1)]

def answeredActor : Actor Empty := iceWorld.state.actor.handleMembers plainNumbers callEnv answerMembers

def answerWorld : World Empty :=
  ⟨after plainNumbers (after plainNumbers ⟨answeredActor, []⟩ (.finish (.setRemoteAnswer 1 1 (units "x")) .set))
    (.run startEnv (.answerSet 1 1)), iceWorld.arrived⟩

theorem answer_run : Run (system plainNumbers none twoPlayers) (iceLabels ++ answerLabels) answerWorld := by
  have harrival : taskArrival plainNumbers callEnv iceWorld.state.actor (.serverText answerText) = none := by
    simp only [taskArrival, parse_answerText]
    rfl
  have htaken := run_taken (a := iceWorld.state.actor) ice_run parse_answerText rfl
  rw [harrival] at htaken
  have hset := run_heard htaken (l := .finish (.setRemoteAnswer 1 1 (units "x")) .set) (.head _)
  exact run_heard hset (l := .run startEnv (.answerSet 1 1)) rfl

/-- A candidate waits until the answer is set, and is given to the stack then. -/
theorem candidates_trickle_ice :
    (∃ link, iceWorld.state.actor.links 1 = some link ∧ link.pendingCandidates = some [iceCandidate] ∧
      link.added = [] ∧ [iceCandidate] = iceWorld.arrived 1) ∧
    ∃ link, answerWorld.state.actor.links 1 = some link ∧ link.pendingCandidates = none ∧
      link.remoteSet = true ∧ link.added = (answerWorld.arrived 1).filter (hasText plainNumbers) ∧
      link.added = [iceCandidate] := by
  constructor
  · refine ⟨⟨1, true, 1, false, .haveLocalOffer, false, .empty, some [iceCandidate], []⟩, rfl, rfl, ?_⟩
    exact (candidates_trickle ice_run rfl).1 [iceCandidate] rfl
  · refine ⟨⟨1, true, 1, false, .stable, true, .empty, none, [iceCandidate]⟩, rfl, ?_⟩
    have hlink : answerWorld.state.actor.links 1 =
        some ⟨1, true, 1, false, .stable, true, .empty, none, [iceCandidate]⟩ := rfl
    have htrickles := candidates_trickle answer_run hlink
    have hover := htrickles.2.2 rfl rfl nofun
    exact ⟨hover, (htrickles.2.1 hover).1, (htrickles.2.1 hover).2, rfl⟩

end Lobbylink.Java.Trickle
