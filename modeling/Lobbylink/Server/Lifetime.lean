import Lobbylink.Server.Attachments
import Lobbylink.Server.Representation

/-! The life of a room: since when it has been empty, when the collector removes it, and
what is left of it then. The law of `emptySince` is about the whole history of the room:
it is the last time at which a transport was attached. -/
namespace Lobbylink.Server.Lifetime
open Protocol Lobby Registry Fanout Operations Effects Slots Catalog Signals Ledger
  Server.Representation Audience Sessions Streams Sweeps Attachments Lib.Runs

variable {sha256 : String → TokenHash} {env : Env} {limits : Limits}

def Populated (r : Room) : Prop := ∃ i c, (r.slot i).conn = some c

theorem populated_iff (r : Room) : Populated r ↔ r.slots.any (·.conn.isSome) = true := by
  constructor
  · rintro ⟨i, c, hc⟩
    have hlt := lt_of_conn hc
    refine List.any_eq_true.2 ⟨r.slot i, ?_, by rw [hc]; rfl⟩
    rw [slot_of_lt r hlt]
    exact List.getElem_mem hlt
  · intro h
    obtain ⟨t, ht, hsome⟩ := List.any_eq_true.1 h
    obtain ⟨i, hi, rfl⟩ := List.getElem_of_mem ht
    obtain ⟨c, hc⟩ := Option.isSome_iff_exists.1 hsome
    exact ⟨i, c, by rw [slot_of_lt r hi]; exact hc⟩

def Still (env : Env) : Prop := ∀ k, env.clock k = env.now

theorem Still.reads {t : Time} (h : Still env) (ht : Reads env t) : t = env.now := by
  rcases ht with rfl | ⟨k, rfl⟩
  · rfl
  · exact h k

/-- `emptySince` after an operation, by what became of the transports of the room. -/
inductive Idles (env : Env) (r : Room) (o : Outcome) (r' : Room) : Prop where
  | populated : Populated r' → r'.emptySince = 0 → Idles env r o r'
  | vacated : ¬Populated r' → r'.emptySince = env.now →
      Populated r ∨ (∃ i, o = .seated i) → Idles env r o r'
  | idle : ¬Populated r' → ¬Populated r → (∀ i, o ≠ .seated i) →
      r'.emptySince = r.emptySince → Idles env r o r'

theorem idles_settled {r r' : Room} {o : Outcome} (hstill : Still env) (h : Settled env r')
    (hwas : Populated r ∨ ∃ i, o = .seated i) : Idles env r o r' := by
  unfold Settled at h
  by_cases hpop : Populated r'
  · rw [if_pos ((populated_iff r').1 hpop)] at h
    exact .populated hpop h
  · rw [if_neg fun hany => hpop ((populated_iff r').2 hany)] at h
    exact .vacated hpop (hstill.reads h) hwas

theorem idles_same {r r' : Room} {o : Outcome} (hr : Populated r → r.emptySince = 0)
    (hconn : ∀ i, (r'.slot i).conn = (r.slot i).conn) (hsince : r'.emptySince = r.emptySince)
    (ho : ∀ i, o ≠ .seated i) : Idles env r o r' := by
  have hpop : Populated r' ↔ Populated r := by
    unfold Populated
    simp only [hconn]
  by_cases h : Populated r
  · exact .populated (hpop.2 h) (hsince.trans (hr h))
  · exact .idle (fun h' => h (hpop.1 h')) h ho hsince

theorem does_idles {r r' : Room} {a : Act} {o : Outcome} {out : List Out} (hstill : Still env)
    (hr : Populated r → r.emptySince = 0) (h : Does sha256 env r a o r' out) :
    Idles env r o r' := by
  have hpending : ∀ {i : Nat} {conn : Conn}, Current r i conn → Populated r ∧ Pending env r := by
    intro i conn hcur
    have hpop : Populated r := ⟨i, conn, hcur.2.2⟩
    exact ⟨hpop, .inl (hr hpop)⟩
  cases h with
  | stale a i conn o _ _ ho =>
    apply idles_same hr (fun _ => rfl) rfl
    rintro i rfl
    rcases ho with ho | ho <;> cases ho
  | barred => exact idles_same hr (fun _ => rfl) rfl fun i h => nomatch h
  | rejected => exact idles_same hr (fun _ => rfl) rfl fun i h => nomatch h
  | touched i => exact idles_same hr (fun j => conn_refreshed r i j env.now) rfl fun i h => nomatch h
  | unsent i => exact idles_same hr (fun j => conn_refreshed r i j env.now) rfl fun i h => nomatch h
  | relayed i => exact idles_same hr (fun j => conn_refreshed r i j env.now) rfl fun i h => nomatch h
  | overflowed i conn dest c payload out drops e hcur _ _ _ _ hset =>
    obtain ⟨hpop, hpend⟩ := hpending hcur
    exact idles_settled hstill (hset hpend) (.inl hpop)
  | freed i conn out drops e hcur _ _ hset =>
    obtain ⟨hpop, hpend⟩ := hpending hcur
    exact idles_settled hstill (hset hpend) (.inl hpop)
  | detached i conn out drops e hcur _ _ hset =>
    obtain ⟨hpop, hpend⟩ := hpending hcur
    exact idles_settled hstill (hset hpend) (.inl hpop)
  | resumed id _ _ _ _ _ _ _ _ _ _ _ _ hacq =>
    exact idles_settled hstill hacq.settled (.inr ⟨id, rfl⟩)
  | occupied _ id _ _ _ _ _ _ _ _ _ _ _ _ hacq =>
    exact idles_settled hstill hacq.settled (.inr ⟨id, rfl⟩)
  | replaced id _ _ _ _ _ _ _ _ _ _ _ _ hacq =>
    exact idles_settled hstill hacq.settled (.inr ⟨id, rfl⟩)

/-- The step attached a transport to the room, be it for this step only. -/
def Visits (l : Label) (ref : Nat) : Prop := ∃ i, l.res.reply = .session (.ok ⟨ref, i⟩)

/-- The times at which the room had a transport, from those before the step. -/
def attend (ref : Nat) (past : Time → Prop) (l : Label) (u : Time) : Prop :=
  (past u ∧ u ≤ l.env.now) ∨ (u = l.env.now ∧ Visits l ref) ∨
    (l.env.now ≤ u ∧ Populated (l.res.manager.room ref))

/-- A transport was attached to room `ref` at time `u`. -/
def Attended (ref : Nat) (ls : List Label) : Time → Prop := ls.foldl (attend ref) fun _ => False

theorem attended_snoc (ref : Nat) (ls : List Label) (l : Label) (u : Time) :
    Attended ref (ls ++ [l]) u ↔ (Attended ref ls u ∧ u ≤ l.env.now) ∨
      (u = l.env.now ∧ Visits l ref) ∨
      (l.env.now ≤ u ∧ Populated (l.res.manager.room ref)) := by
  simp only [Attended, List.foldl_append, List.foldl_cons, List.foldl_nil]
  rfl

/-- The clock is never zero, never goes back, and stands still during an operation. -/
structure Clocked (ls : List Label) : Prop where
  still : ∀ l ∈ ls, l.env.now ≠ 0 ∧ Still l.env
  timely : ls.Pairwise fun a b => a.env.now ≤ b.env.now

theorem Clocked.left {a b : List Label} (h : Clocked (a ++ b)) : Clocked a where
  still := fun l hl => h.still l (List.mem_append_left _ hl)
  timely := (List.pairwise_append.1 h.timely).1

theorem Clocked.last {ls : List Label} {l : Label} (h : Clocked (ls ++ [l])) :
    (l.env.now ≠ 0 ∧ Still l.env) ∧ ∀ k ∈ ls, k.env.now ≤ l.env.now :=
  ⟨h.still l (List.mem_append_right _ List.mem_cons_self),
    fun k hk => (List.pairwise_append.1 h.timely).2.2 k hk l List.mem_cons_self⟩

def Called (ls : List Label) (t : Time) : Prop := ∃ l ∈ ls, t = l.env.now

theorem Called.append {ls : List Label} {t : Time} (h : Called ls t) (l : Label) :
    Called (ls ++ [l]) t := by
  obtain ⟨k, hk, rfl⟩ := h
  exact ⟨k, List.mem_append_left _ hk, rfl⟩

theorem called_last (ls : List Label) (l : Label) : Called (ls ++ [l]) l.env.now :=
  ⟨l, List.mem_append_right _ List.mem_cons_self, rfl⟩

/-- `t` is the last time at which room `ref` had a transport, or its creation if it never
had one. -/
structure LastAttended (ls : List Label) (ref : Nat) (createdAt t : Time) : Prop where
  last : ∀ u, Attended ref ls u → u ≤ t
  attended : Attended ref ls t ∨ t = createdAt ∧ ∀ u, ¬Attended ref ls u

structure Dated (ls : List Label) (ref : Nat) (r : Room) : Prop where
  created : Called ls r.createdAt
  populated : Populated r → r.emptySince = 0
  called : ¬Populated r → Called ls r.emptySince ∧ r.createdAt ≤ r.emptySince
  empty : ¬Populated r → LastAttended ls ref r.createdAt r.emptySince

structure History (ls : List Label) (m : Manager) : Prop where
  exist : ∀ ref u, Attended ref ls u → ref < m.heap.length
  dated : ∀ ref, (m.room ref).destroyed = false → Dated ls ref (m.room ref)

theorem populated_attended {ls : List Label} {m : Manager}
    (run : Run (lobby sha256 limits) ls m) {ref : Nat} (hpop : Populated (m.room ref)) {t : Time}
    (ht : ∀ l ∈ ls, l.env.now ≤ t) : Attended ref ls t := by
  cases run with
  | init h =>
    subst h
    obtain ⟨i, c, hc⟩ := hpop
    rw [room_of_ge _ (Nat.zero_le ref), slot_absent] at hc
    cases hc
  | @step ls s t l run hstep =>
    obtain ⟨-, rfl⟩ := hstep
    rw [attended_snoc]
    exact .inr (.inr ⟨ht l (List.mem_append_right _ List.mem_cons_self), hpop⟩)

theorem Dated.idle {ls : List Label} {m : Manager} {l : Label} {ref : Nat}
    (hclock : Clocked (ls ++ [l])) (hdated : Dated ls ref (m.room ref))
    (hsame : SameRoom (m.room ref) (l.res.manager.room ref))
    (hpop : ¬Populated (l.res.manager.room ref)) (hwas : ¬Populated (m.room ref))
    (hvisit : ¬Visits l ref)
    (hsince : (l.res.manager.room ref).emptySince = (m.room ref).emptySince) :
    Dated (ls ++ [l]) ref (l.res.manager.room ref) := by
  obtain ⟨hcalled, hle⟩ := hdated.called hwas
  have hempty := hdated.empty hwas
  have hmore : ∀ u, Attended ref (ls ++ [l]) u ↔ Attended ref ls u ∧ u ≤ l.env.now := by
    intro u
    rw [attended_snoc]
    simp [hpop, hvisit]
  have hlast : (m.room ref).emptySince ≤ l.env.now := by
    obtain ⟨k, hk, heq⟩ := hcalled
    rw [heq]
    exact hclock.last.2 k hk
  rw [← hsame.createdAt] at hle hempty
  refine ⟨hsame.createdAt ▸ hdated.created.append l, fun h => absurd h hpop, fun _ => ?_,
    fun _ => ?_⟩
  · rw [hsince]
    exact ⟨hcalled.append l, hle⟩
  · rw [hsince]
    refine ⟨fun u hu => hempty.last u ((hmore u).1 hu).1, ?_⟩
    rcases hempty.attended with h | ⟨heq, hnone⟩
    · exact .inl ((hmore _).2 ⟨h, hlast⟩)
    · exact .inr ⟨heq, fun u hu => hnone u ((hmore u).1 hu).1⟩

theorem dated_vacated {ls : List Label} {l : Label} {ref : Nat} {r : Room}
    (hr : r = l.res.manager.room ref) (hpop : ¬Populated r)
    (hcreated : Called (ls ++ [l]) r.createdAt) (hle : r.createdAt ≤ l.env.now) (hsince : r.emptySince = l.env.now)
    (hnow : Attended ref (ls ++ [l]) l.env.now) : Dated (ls ++ [l]) ref r := by
  refine ⟨hcreated, fun h => absurd h hpop, fun _ => ?_, fun _ => ?_⟩
  · rw [hsince]
    exact ⟨called_last ls l, hle⟩
  · rw [hsince]
    refine ⟨fun u hu => ?_, .inl hnow⟩
    rw [attended_snoc] at hu
    rcases hu with ⟨-, hle⟩ | ⟨rfl, -⟩ | ⟨-, hpop'⟩
    · exact hle
    · exact Int.le_refl _
    · exact absurd (hr ▸ hpop') hpop

theorem dated_populated {ls : List Label} {ref : Nat} {r : Room} (hpop : Populated r)
    (hcreated : Called ls r.createdAt) (hsince : r.emptySince = 0) : Dated ls ref r where
  created := hcreated
  populated := fun _ => hsince
  called := fun h => absurd hpop h
  empty := fun h => absurd hpop h

theorem not_populated_absent {m : Manager} {ref : Nat} (h : m.heap.length ≤ ref) :
    ¬Populated (m.room ref) := by
  rintro ⟨i, c, hc⟩
  rw [room_of_ge m h, slot_absent] at hc
  cases hc

theorem exist_step {ls : List Label} {m : Manager} {l : Label} (h : History ls m)
    (hlen : m.heap.length ≤ l.res.manager.heap.length)
    (hvisits : ∀ ref, Visits l ref → ref < l.res.manager.heap.length) (ref : Nat) (u : Time)
    (hu : Attended ref (ls ++ [l]) u) : ref < l.res.manager.heap.length := by
  rw [attended_snoc] at hu
  rcases hu with ⟨hu, -⟩ | ⟨-, hvisit⟩ | ⟨-, hpop⟩
  · exact Nat.lt_of_lt_of_le (h.exist ref u hu) hlen
  · exact hvisits ref hvisit
  · by_contra hge
    exact not_populated_absent (Nat.le_of_not_lt hge) hpop

theorem heap_apply (m : Manager) (op : Op) :
    m.heap.length ≤ (m.apply sha256 env op).manager.heap.length := by
  have heff := apply_effect sha256 env m op
  generalize m.apply sha256 env op = res at heff
  cases heff with
  | declined m' out reply hno hswept => exact Nat.le_of_eq hswept.length.symm
  | reached ref a o r' => exact Nat.le_of_eq (heap_setRoom m ref r').symm
  | created m₁ swept a o r' out reply hmake =>
    cases hmake with
    | join appID code tok opts conn m₀ _ hlook hswept =>
      simp [Manager.create, Manager.setRoom, hswept.length]

theorem visits_exist {m m' : Manager} {l : Label} (hstep : (lobby sha256 limits).step m l m')
    {ref : Nat} (h : Visits l ref) : (m'.room ref).destroyed = false := by
  obtain ⟨i, hreply⟩ := h
  obtain ⟨heff, rfl⟩ := step_effect hstep
  obtain ⟨r, a, swept, out, hfound, -, hdoes, -⟩ := effect_seated heff hreply
  exact (does_sameRoom hdoes).destroyed.trans (does_seated_alive hdoes)

theorem seated_visits {l : Label} {ref i : Nat} {o : Outcome} (hans : Answers ref o l.res.reply)
    (ho : o = .seated i) : Visits l ref := ⟨i, (hans.seated ⟨ref, i⟩).2 ⟨ho, rfl⟩⟩

/-- One operation on a live room. -/
theorem dated_does {ls : List Label} {m : Manager} {l : Label}
    (run : Run (lobby sha256 limits) ls m) (hclock : Clocked (ls ++ [l])) (h : History ls m)
    {ref : Nat} {r : Room} {a : Act} {o : Outcome} {out : List Out}
    (hfound : Found m ref l.env.now r) (hans : Answers ref o l.res.reply)
    (hdoes : Does sha256 l.env r a o (l.res.manager.room ref) out)
    (hlive : (l.res.manager.room ref).destroyed = false) :
    Dated (ls ++ [l]) ref (l.res.manager.room ref) := by
  obtain ⟨⟨-, hstill⟩, hlater⟩ := hclock.last
  have hsame := does_sameRoom hdoes
  have hpopulated : Populated r → r = m.room ref ∧ r.emptySince = 0 := by
    intro hpop
    rcases hfound with ⟨-, hr⟩ | ⟨-, appID, code, opts, rfl⟩
    · have hdes : r.destroyed = false := hsame.destroyed.symm.trans hlive
      exact ⟨hr, (hr ▸ h.dated ref (hr ▸ hdes)).populated hpop⟩
    · obtain ⟨i, c, hc⟩ := hpop
      rw [slot_newRoom] at hc
      cases hc
  have hcreated : Called (ls ++ [l]) (l.res.manager.room ref).createdAt ∧
      (l.res.manager.room ref).createdAt ≤ l.env.now := by
    rw [hsame.createdAt]
    rcases hfound with ⟨-, hr⟩ | ⟨-, appID, code, opts, rfl⟩
    · have hdes : (m.room ref).destroyed = false := hr ▸ hsame.destroyed.symm.trans hlive
      obtain ⟨k, hk, heq⟩ := (h.dated ref hdes).created
      rw [hr, heq]
      exact ⟨⟨k, List.mem_append_left _ hk, rfl⟩, hlater k hk⟩
    · exact ⟨called_last ls l, Int.le_refl _⟩
  cases does_idles hstill (fun hpop => (hpopulated hpop).2) hdoes with
  | populated hpop hsince => exact dated_populated hpop hcreated.1 hsince
  | vacated hpop hsince hwas =>
    refine dated_vacated rfl hpop hcreated.1 hcreated.2 hsince ?_
    rw [attended_snoc]
    rcases hwas with hwas | ⟨i, ho⟩
    · obtain ⟨rfl, -⟩ := hpopulated hwas
      exact .inl ⟨populated_attended run hwas hlater, Int.le_refl _⟩
    · exact .inr (.inl ⟨rfl, seated_visits hans ho⟩)
  | idle hpop hwas hunseated hsince =>
    have hvisit : ¬Visits l ref := by
      rintro ⟨i, hreply⟩
      exact hunseated i ((hans.seated _).1 hreply).1
    rcases hfound with ⟨-, rfl⟩ | ⟨href, appID, code, opts, rfl⟩
    · have hdes : (m.room ref).destroyed = false := hsame.destroyed.symm.trans hlive
      exact Dated.idle hclock (h.dated ref hdes) hsame hpop hwas hvisit hsince
    · -- a new room that nobody could enter
      have hnone : ∀ u, ¬Attended ref (ls ++ [l]) u := by
        intro u hu
        rw [attended_snoc] at hu
        rcases hu with ⟨hu, -⟩ | ⟨-, hv⟩ | ⟨-, hp⟩
        · exact absurd (h.exist ref u hu) (by omega)
        · exact hvisit hv
        · exact hpop hp
      have heq : (l.res.manager.room ref).emptySince = (l.res.manager.room ref).createdAt := by
        rw [hsince, hsame.createdAt]
        rfl
      refine ⟨hcreated.1, fun hp => absurd hp hpop, fun _ => ?_, fun _ => ?_⟩
      · rw [heq]
        exact ⟨hcreated.1, Int.le_refl _⟩
      · exact ⟨fun u hu => absurd hu (hnone u), .inr ⟨heq, hnone⟩⟩

theorem history_step {ls : List Label} {m m' : Manager} {l : Label}
    (run : Run (lobby sha256 limits) ls m) (hstep : (lobby sha256 limits).step m l m')
    (hclock : Clocked (ls ++ [l])) (h : History ls m) : History (ls ++ [l]) m' := by
  obtain ⟨heff, rfl⟩ := step_effect hstep
  refine ⟨fun ref u hu => ?_, fun ref hlive => ?_⟩
  · apply exist_step h (by rw [hstep.1]; exact heap_apply m l.op) ?_ ref u hu
    exact fun ref hv => destroyed_absent _ (visits_exist hstep hv)
  · by_cases hvisit : Visits l ref
    · obtain ⟨i, hreply⟩ := hvisit
      obtain ⟨r, a, swept, out, hfound, -, hdoes, -⟩ := effect_seated heff hreply
      have hans : Answers ref (.seated i) l.res.reply := by
        refine ⟨fun sess => ?_, by rw [hreply]; simp⟩
        rw [hreply]
        obtain ⟨room, id⟩ := sess
        simp only [Reply.session.injEq, Except.ok.injEq, Session.mk.injEq, Outcome.seated.injEq]
        exact ⟨fun h => ⟨h.2, h.1.symm⟩, fun h => ⟨h.2.symm, h.1⟩⟩
      exact dated_does run hclock h hfound hans hdoes hlive
    · cases effect_room heff ref with
      | idle heq =>
        have hdes : (m.room ref).destroyed = false := heq ▸ hlive
        have hdated := h.dated ref hdes
        by_cases hpop : Populated (m.room ref)
        · rw [heq]
          exact dated_populated hpop (hdated.created.append l) (hdated.populated hpop)
        · exact hdated.idle hclock (heq ▸ SameRoom.refl _) (heq ▸ hpop) hpop hvisit (by rw [heq])
      | closed _ heq =>
        rw [heq] at hlive
        cases hlive
      | does r a o swept out hfound _ hdoes hans =>
        exact dated_does run hclock h hfound hans hdoes hlive

theorem history_run {ls : List Label} {m : Manager} (run : Run (lobby sha256 limits) ls m)
    (hclock : Clocked ls) : History ls m := by
  revert hclock
  refine run.history (fun ls m => Clocked ls → History ls m) ?_ ?_
  · rintro m rfl -
    refine ⟨fun ref u hu => hu.elim, fun ref hlive => ?_⟩
    rw [room_of_ge _ (Nat.zero_le ref)] at hlive
    cases hlive
  · exact fun ls m l m' run ih hstep hclock => history_step run hstep hclock (ih hclock.left)

/-- The operation sweeps the rooms: the collector, or a creation when there is no room for
one more. -/
def Sweeps (m : Manager) : Op → Prop
  | .gc => True
  | .join _ code _ (some _) _ => m.lookup code = none ∧ m.limits.maxRooms ≤ m.rooms.length
  | _ => False

theorem destroyed_reached {m : Manager} {op : Op} {at' : Nat} {a : Act}
    (h : Reaches m op at' a) (ref : Nat) :
    ((m.apply sha256 env op).manager.room ref).destroyed = (m.room ref).destroyed := by
  obtain ⟨ref', r', hsame, heq⟩ := apply_reached sha256 env h
  rw [heq, room_setRoom]
  split_ifs with href
  · rw [hsame.destroyed, href.1]
  · rfl

theorem destroyed_swept {now : Time} {m : Manager} (h : Listed m) {ref : Nat}
    (hlive : (m.room ref).destroyed = false) :
    ((gcLocked now m).manager.room ref).destroyed = true ↔
      m.limits.expired now (m.room ref) = true := by
  rw [gcLocked_room h]
  by_cases hexp : m.limits.expired now (m.room ref) = true
  · rw [if_pos ⟨hlive, hexp⟩]
    exact ⟨fun _ => hexp, fun _ => rfl⟩
  · rw [if_neg fun h => hexp h.2, hlive]
    simp [hexp]

theorem destroyed_kept {m m' : Manager} {ref : Nat} (hlive : (m.room ref).destroyed = false)
    (h : (m'.room ref).destroyed = (m.room ref).destroyed) {p : Prop} (hp : ¬p) {q : Prop} :
    (m'.room ref).destroyed = true ↔ p ∧ q := by
  rw [h, hlive]
  exact ⟨fun h => (nomatch h), fun h => absurd h.1 hp⟩

theorem destroyed_sweepFor {now : Time} {m : Manager} (h : Listed m) {ref : Nat}
    (hlive : (m.room ref).destroyed = false) :
    ((sweepFor now m).manager.room ref).destroyed = true ↔
      m.limits.maxRooms ≤ m.rooms.length ∧ m.limits.expired now (m.room ref) = true := by
  by_cases hfull : m.limits.maxRooms ≤ m.rooms.length
  · rw [sweepFor_full hfull, destroyed_swept h hlive]
    exact ⟨fun hexp => ⟨hfull, hexp⟩, fun h => h.2⟩
  · rw [sweepFor_room hfull]
    exact destroyed_kept hlive rfl hfull

theorem join_destroyed {m : Manager} (h : Listed m) (appID code tok : String)
    (create : Option RoomOptions) (conn : Conn) {ref : Nat}
    (hlive : (m.room ref).destroyed = false) :
    ((m.apply sha256 env (.join appID code tok create conn)).manager.room ref).destroyed = true ↔
      Sweeps m (.join appID code tok create conn) ∧
        m.limits.expired env.now (m.room ref) = true := by
  have hcase := join_joins sha256 env m appID code tok create conn
  cases hlook : m.lookup code with
  | some at' =>
    apply destroyed_kept hlive
      (destroyed_reached (.join appID code tok create conn at' hlook) ref)
    cases create with
    | none => exact id
    | some opts => simp [Sweeps, hlook]
  | none =>
    unfold Manager.apply
    simp only
    generalize Registry.join sha256 env appID code tok create conn m = res at hcase ⊢
    cases hcase with
    | found create at' hfound =>
      rw [hlook] at hfound
      cases hfound
    | missing => exact destroyed_kept hlive rfl id
    | refused =>
      simp only [Sweeps, hlook, true_and]
      exact destroyed_sweepFor h hlive
    | created opts =>
      have hne : ref ≠ m.heap.length := Nat.ne_of_lt (destroyed_absent m hlive)
      simp only [Sweeps, hlook, true_and, Entered.result, entered, Manager.onRoom]
      rw [room_setRoom, if_neg fun h => hne h.1, room_withRoom, if_neg hne]
      exact destroyed_sweepFor h hlive

/-- Which operations remove a room. -/
theorem apply_destroyed {m : Manager} (h : Listed m) (op : Op) {ref : Nat}
    (hlive : (m.room ref).destroyed = false) :
    ((m.apply sha256 env op).manager.room ref).destroyed = true ↔
      Sweeps m op ∧ m.limits.expired env.now (m.room ref) = true := by
  cases op with
  | join appID code tok create conn => exact join_destroyed h appID code tok create conn hlive
  | claim appID code playerID conn =>
    cases hlook : m.lookup code with
    | none =>
      simp only [Manager.apply, Registry.claim, hlook]
      exact destroyed_kept hlive rfl id
    | some at' =>
      exact destroyed_kept hlive
        (destroyed_reached (.claim appID code playerID conn at' hlook) ref) id
  | signal sess conn target payload =>
    exact destroyed_kept hlive (destroyed_reached (.signal sess conn target payload) ref) id
  | leave sess conn => exact destroyed_kept hlive (destroyed_reached (.leave sess conn) ref) id
  | disconnect sess conn =>
    exact destroyed_kept hlive (destroyed_reached (.disconnect sess conn) ref) id
  | touch sess conn => exact destroyed_kept hlive (destroyed_reached (.touch sess conn) ref) id
  | gc =>
    simp only [Manager.apply, Sweeps, true_and]
    exact destroyed_swept h hlive

/-- When a room of this history is due to be removed at time `t`. -/
def Due (limits : Limits) (ls : List Label) (ref : Nat) (createdAt t : Time) : Prop :=
  limits.maxTTL ≤ t - createdAt ∨
    ∃ s, createdAt ≤ s ∧ s ≤ t - limits.emptyTTL ∧ ∀ u, s < u → u ≤ t → ¬Attended ref ls u

/-- The time limits are positive, as the configuration is checked to have them, and fit
64 bits. -/
structure Timed (limits : Limits) : Prop where
  empty : 0 < limits.emptyTTL ∧ limits.emptyTTL ≤ maxDuration
  max : 0 < limits.maxTTL ∧ limits.maxTTL ≤ maxDuration

theorem le_sub_iff {d t u : Int} (hpos : 0 < d) (hmax : d ≤ maxDuration) :
    d ≤ Time.sub t u ↔ d ≤ t - u := by
  have hsub : Time.sub t u = max (-2 ^ 63) (min (2 ^ 63 - 1) (t - u)) := rfl
  have hbound : d ≤ 2 ^ 63 - 1 := hmax
  rw [hsub]
  omega

/-- Of a set of times up to `t`, `e` is the last, or its start `c` if there is none: it is
at least `d` ago if and only if some stretch of that length was free of them. -/
theorem idle_iff {used : Int → Prop} {c e t d : Int} (hce : c ≤ e) (het : e ≤ t)
    (hlast : ∀ u, used u → u ≤ e) (hused : used e ∨ e = c ∧ ∀ u, ¬used u) :
    d ≤ t - e ↔ ∃ s, c ≤ s ∧ s ≤ t - d ∧ ∀ u, s < u → u ≤ t → ¬used u := by
  constructor
  · intro hd
    refine ⟨e, hce, by omega, fun u hu _ hat => ?_⟩
    have hle := hlast u hat
    omega
  · rintro ⟨s, hcs, hs, hnone⟩
    have hes : e ≤ s := by
      rcases hused with hat | ⟨heq, -⟩
      · by_contra hlt
        exact hnone e (by omega) het hat
      · omega
    omega

theorem not_idle {used : Int → Prop} {c t d : Int} (hd : 0 < d) (hat : used t) :
    ¬∃ s, c ≤ s ∧ s ≤ t - d ∧ ∀ u, s < u → u ≤ t → ¬used u := by
  rintro ⟨s, -, hs, hnone⟩
  exact hnone t (by omega) (Int.le_refl t) hat

theorem expired_iff {ls : List Label} {m : Manager} (htimed : Timed limits)
    (run : Run (lobby sha256 limits) ls m) {ref : Nat} (h : Dated ls ref (m.room ref)) {t : Time}
    (hzero : ∀ l ∈ ls, l.env.now ≠ 0) (ht : ∀ l ∈ ls, l.env.now ≤ t) :
    limits.expired t (m.room ref) = true ↔ Due limits ls ref (m.room ref).createdAt t := by
  unfold Limits.expired Due
  simp only [Bool.or_eq_true, Bool.and_eq_true, Bool.not_eq_true', ge_iff_le, decide_eq_true_eq]
  rw [le_sub_iff htimed.max.1 htimed.max.2, le_sub_iff htimed.empty.1 htimed.empty.2]
  apply or_congr_right
  by_cases hpop : Populated (m.room ref)
  · have hnot := not_idle (c := (m.room ref).createdAt) htimed.empty.1
      (populated_attended run hpop ht)
    constructor
    · rintro ⟨hne, -⟩
      rw [h.populated hpop] at hne
      cases hne
    · exact fun hidle => absurd hidle hnot
  · obtain ⟨⟨k, hk, hsince⟩, hle⟩ := h.called hpop
    have hempty := h.empty hpop
    have hlast : (m.room ref).emptySince ≤ t := hsince ▸ ht k hk
    have hnonzero : Time.isZero (m.room ref).emptySince = false := by
      simpa [Time.isZero, hsince] using hzero k hk
    rw [idle_iff hle hlast hempty.last hempty.attended]
    exact ⟨fun h => h.2, fun h => ⟨hnonzero, h⟩⟩

theorem destroyed_step {m : Manager} {op : Op} {res : Result} {ref : Nat}
    (h : RoomStep sha256 env m op res ref) (hlt : ref < m.heap.length)
    (hdes : (m.room ref).destroyed = true) : (res.manager.room ref).destroyed = true := by
  cases h with
  | idle heq => rwa [heq]
  | closed _ heq =>
    rw [heq]
    rfl
  | does r a o swept out hfound hop hdoes hans =>
    rcases hfound with ⟨-, rfl⟩ | ⟨href, -⟩
    · rw [(does_sameRoom hdoes).destroyed, hdes]
    · exact absurd href (Nat.ne_of_lt hlt)

theorem destroyed_steps {m m' : Manager} {ls : List Label} {ref : Nat}
    (steps : Steps (lobby sha256 limits) m ls m') (hlt : ref < m.heap.length)
    (hdes : (m.room ref).destroyed = true) :
    ref < m'.heap.length ∧ (m'.room ref).destroyed = true := by
  refine steps.invariant (fun m => ref < m.heap.length ∧ (m.room ref).destroyed = true) ?_
    ⟨hlt, hdes⟩
  rintro m l m' ⟨hlt, hdes⟩ ⟨hres, rfl⟩
  rw [hres]
  exact ⟨Nat.lt_of_lt_of_le hlt (heap_apply m l.op),
    destroyed_step (apply_room sha256 l.env m l.op ref) hlt hdes⟩

theorem removed_inert {m : Manager} {ref : Nat} (hdes : (m.room ref).destroyed = true) {op : Op}
    {sess : Session} {conn : Conn} (hactor : Actor op = some (sess, conn)) (href : sess.room = ref) :
    (m.apply sha256 env op).manager = m ∧ (m.apply sha256 env op).out = [] := by
  apply effect_stale sha256 (apply_effect sha256 env m op)
  refine (stale_iff m op).2 ⟨sess, conn, hactor, ?_⟩
  rintro ⟨hlive, -⟩
  rw [href, hdes] at hlive
  cases hlive

/-- Whoever was in a removed room is out, with one kick. -/
theorem removed_kicked {cfg : Policy.Config} {s t : Websocket.State} {l : Websocket.Label}
    (hs : Disciplined s) (hstep : (Websocket.server cfg sha256 limits).step s l t) {ref i : Nat}
    {c : Conn} (hc : Attached s ref i c) (hdes : (t.manager.room ref).destroyed = true) :
    (∀ ref' i', ¬Attached t ref' i' c) ∧ events c [l] = [.kicked .roomExpired] := by
  have hoccurs := step_occurs hs hstep c
  refine ⟨fun ref' i' h => ?_, hoccurs.removed ref i hc hdes⟩
  rcases hoccurs.stayed ref' i' h with hold | henters
  · obtain ⟨rfl, rfl⟩ := hs.unique hold hc
    rw [((disciplined_step hs hstep).sound _ _ c h).2] at hdes
    cases hdes
  · exact (hoccurs.entered ref' i' henters).1 ref i hc

/-- The life of every room: `emptySince` tells since when it has been empty, the collector
removes it when it has been empty or existed for too long and not before, whoever is still
in it is kicked once, and its sessions are of no further use. -/
theorem room_lifetime (sha256 : String → TokenHash) (limits : Limits) (htimed : Timed limits) :
    (∀ ls m, Run (lobby sha256 limits) ls m → Clocked ls → ∀ ref,
      (m.room ref).destroyed = false →
      ((m.room ref).emptySince = 0 ↔ Populated (m.room ref)) ∧
      (¬Populated (m.room ref) →
        LastAttended ls ref (m.room ref).createdAt (m.room ref).emptySince)) ∧
    (∀ ls m l m', Run (lobby sha256 limits) ls m → (lobby sha256 limits).step m l m' →
      Clocked (ls ++ [l]) → ∀ ref, (m.room ref).destroyed = false →
      ((m'.room ref).destroyed = true ↔
        Sweeps m l.op ∧ Due limits ls ref (m.room ref).createdAt l.env.now) ∧
      (Populated (m.room ref) → (m'.room ref).destroyed = true →
        limits.maxTTL ≤ l.env.now - (m.room ref).createdAt)) ∧
    (∀ cfg ls s l t, Run (Websocket.server cfg sha256 limits) ls s →
      (Websocket.server cfg sha256 limits).step s l t → ∀ ref i c, Attached s ref i c →
      (t.manager.room ref).destroyed = true →
      (∀ ref' i', ¬Attached t ref' i' c) ∧ events c [l] = [.kicked .roomExpired]) ∧
    ∀ ls m after m', Run (lobby sha256 limits) ls m → Steps (lobby sha256 limits) m after m' →
      ∀ ref, ref < m.heap.length → (m.room ref).destroyed = true →
      ∀ op env sess conn, Actor op = some (sess, conn) → sess.room = ref →
      (m'.apply sha256 env op).manager = m' ∧ (m'.apply sha256 env op).out = [] := by
  refine ⟨?_, ?_, ?_, ?_⟩
  · intro ls m run hclock ref hlive
    have hdated := (history_run run hclock).dated ref hlive
    refine ⟨⟨fun hzero => ?_, hdated.populated⟩, hdated.empty⟩
    by_contra hpop
    obtain ⟨⟨k, hk, heq⟩, -⟩ := hdated.called hpop
    exact (hclock.still k hk).1 (heq.symm.trans hzero)
  · intro ls m l m' run hstep hclock ref hlive
    have hdated := (history_run run hclock.left).dated ref hlive
    have hlimits := limits_lobby run
    have hnow := hclock.last.2
    have hdue : ((m'.room ref).destroyed = true ↔
        Sweeps m l.op ∧ Due limits ls ref (m.room ref).createdAt l.env.now) := by
      obtain ⟨hres, rfl⟩ := hstep
      rw [← expired_iff htimed run hdated (fun k hk => (hclock.left.still k hk).1) hnow, hres,
        ← hlimits]
      exact apply_destroyed (listed_run run) l.op hlive
    refine ⟨hdue, fun hpop hdes => ?_⟩
    rcases (hdue.1 hdes).2 with hmax | hidle
    · exact hmax
    · exact absurd hidle (not_idle htimed.empty.1 (populated_attended run hpop hnow))
  · intro cfg ls s l t run hstep ref i c hc hdes
    exact removed_kicked (disciplined_run run) hstep hc hdes
  · intro ls m after m' run steps ref hlt hdes op env sess conn hactor href
    exact removed_inert (destroyed_steps steps hlt hdes).2 hactor href

def leftOps : List (Op × Env) :=
  [(Tokens.openOp 0, Websocket.calm 1 "a"), (.disconnect ⟨0, 0⟩ 0, Websocket.calm 2 "")]

def leftLabels : List Label :=
  labels Websocket.codePoints leftOps (newManager Websocket.smallLimits)

/-- The first player has left. Its room has been empty since, and is collected five minutes later. -/
theorem room_lifetime_left : LastAttended leftLabels 0 1 2 ∧
    Due Websocket.smallLimits leftLabels 0 1 (2 + 300 * second) := by
  have htimed : Timed Websocket.smallLimits := ⟨by decide, by decide⟩
  obtain ⟨hsince, hgc, -⟩ := room_lifetime Websocket.codePoints Websocket.smallLimits htimed
  have run : Run (lobby Websocket.codePoints Websocket.smallLimits) leftLabels
      (play Websocket.codePoints leftOps (newManager Websocket.smallLimits)) :=
    Tokens.run_ops _ _ _
  let m := play Websocket.codePoints leftOps (newManager Websocket.smallLimits)
  let l : Label := ⟨.gc, Websocket.calm (2 + 300 * second) "",
    m.apply Websocket.codePoints (Websocket.calm (2 + 300 * second) "") .gc⟩
  have hclock : Clocked (leftLabels ++ [l]) := by
    refine ⟨fun k hk => ?_, ?_⟩
    · simp only [leftLabels, labels, leftOps, List.mem_append, List.mem_cons, List.not_mem_nil,
        or_false] at hk
      rcases hk with (rfl | rfl) | rfl
      · exact ⟨by decide, fun _ => rfl⟩
      · exact ⟨by decide, fun _ => rfl⟩
      · exact ⟨by decide, fun _ => rfl⟩
    · have htimes : (leftLabels ++ [l]).map (·.env.now) = [1, 2, 2 + 300 * second] := rfl
      have hsorted : ((leftLabels ++ [l]).map (·.env.now)).Pairwise (· ≤ ·) := by
        rw [htimes]
        decide
      exact List.pairwise_map.1 hsorted
  refine ⟨(hsince _ _ run hclock.left 0 rfl).2 ?_, ?_⟩
  · rintro ⟨i, c, hc⟩
    have hnone : ((m.room 0).slots.any (·.conn.isSome)) = false := rfl
    have hany := (populated_iff (m.room 0)).1 ⟨i, c, hc⟩
    rw [hnone] at hany
    cases hany
  · exact ((hgc _ _ l _ run ⟨rfl, rfl⟩ hclock 0 rfl).1.1 rfl).2

end Lobbylink.Server.Lifetime
