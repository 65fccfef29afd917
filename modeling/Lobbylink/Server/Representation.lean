import Lobbylink.Server.Tokens

/-! What every reachable state of the lobby looks like: the map of rooms, the rooms and
their slots. -/
namespace Lobbylink.Server.Representation
open Protocol Lobby Registry Fanout Operations Effects Slots Catalog Signals Ledger Tokens
  Lib.Runs
open Websocket (codePoints smallLimits)

variable {sha256 : String → TokenHash} {env : Env} {limits : Limits}

/-- A slot is occupied under a token or as good as new. -/
structure Tidy (t : Slot) : Prop where
  attached : t.conn.isSome = true → t.occupied = true
  token : t.occupied = true ↔ t.hasToken = true
  vacant : t.occupied = false → t.conn = none ∧ t.tokenHash = zeroHash

theorem tidy_new : Tidy {} := ⟨fun h => h, Iff.rfl, fun _ => ⟨rfl, rfl⟩⟩

theorem tidy_held {t : Slot} (hocc : t.occupied = true) (hhas : t.hasToken = true) : Tidy t where
  attached := fun _ => hocc
  token := ⟨fun _ => hhas, fun _ => hocc⟩
  vacant := fun h => absurd (hocc.symm.trans h) (by decide)

theorem Tidy.clearConn {t : Slot} (h : Tidy t) : Tidy t.clearConn where
  attached := fun hsome => absurd hsome (by simp [Slot.clearConn])
  token := h.token
  vacant := fun hocc => ⟨rfl, (h.vacant hocc).2⟩

theorem slotStep_tidy {r : Room} {a : Act} {o : Outcome} {i : Nat} {t : Slot}
    (hr : Tidy (r.slot i)) (h : SlotStep sha256 env r a o i t) : Tidy t := by
  induction h with
  | kept => exact hr
  | seen => exact ⟨hr.attached, hr.token, hr.vacant⟩
  | freed => exact ⟨fun h => absurd h (by simp [Slot.freed]), Iff.rfl, fun _ => ⟨rfl, rfl⟩⟩
  | resumed _ _ _ _ _ _ _ _ hfind => exact tidy_held (findToken_occupied hfind) rfl
  | occupied => exact tidy_held rfl rfl
  | replaced _ _ _ _ _ hocc => exact tidy_held hocc rfl
  | dropped t _ ih => exact ih.clearConn

theorem roomStep_tidy {m : Manager} {op : Op} {res : Result} {ref : Nat}
    (hm : ∀ i, Tidy ((m.room ref).slot i)) (h : RoomStep sha256 env m op res ref) (i : Nat) :
    Tidy ((res.manager.room ref).slot i) := by
  cases h with
  | idle heq =>
    rw [heq]
    exact hm i
  | closed _ heq =>
    rw [heq, slot_closed]
    exact (hm i).clearConn
  | does r a o swept out hfound hop hdoes hans hsil hout =>
    have hr : Tidy (r.slot i) := by
      rw [found_slot hfound]
      exact hm i
    exact slotStep_tidy hr (does_slot hdoes i)

theorem limits_apply (m : Manager) (op : Op) :
    (m.apply sha256 env op).manager.limits = m.limits := by
  have heff := apply_effect sha256 env m op
  generalize m.apply sha256 env op = res at heff
  cases heff with
  | declined m' out reply hno hswept => exact hswept.limits
  | reached => rfl
  | created m₁ swept a o r' out reply hmake =>
    cases hmake with
    | join appID code tok opts conn m₀ _ hlook hswept => exact hswept.limits

/-- The rooms a manager holds, and how they are kept. -/
structure WellKept (m : Manager) : Prop where
  few : (m.rooms.length : Int) ≤ m.limits.maxRooms
  keys : (m.rooms.map Prod.fst).Nodup
  live : ∀ code ref, (code, ref) ∈ m.rooms ↔
    ref < m.heap.length ∧ (m.room ref).destroyed = false ∧ (m.room ref).code = code
  gone : ∀ ref, (m.room ref).destroyed = true → ∀ i, ((m.room ref).slot i).conn = none
  sized : ∀ ref, (m.room ref).slots.length = (m.room ref).opts.maxPlayers ∧
    1 ≤ (m.room ref).opts.maxPlayers
  tidy : ∀ ref i, Tidy ((m.room ref).slot i)

def Accepts (sha256 : String → TokenHash) (m : Manager) (sess : Session) (token : String) : Prop :=
  ((m.room sess.room).slot sess.playerID).holdsToken (sha256 token) = true

/-- No two tokens issued in the run have one hash. -/
def Injective (sha256 : String → TokenHash) (ls : List Label) : Prop :=
  ∀ p ∈ issues ls, ∀ q ∈ issues ls, sha256 p.2 = sha256 q.2 → p.2 = q.2

theorem accepts_issued {ls : List Label} {m : Manager} (hbal : Balanced sha256 (ledger ls) m)
    {sess : Session} {token : String} (h : Accepts sha256 m sess token) :
    ∃ issued, (sess, issued) ∈ issues ls ∧ sha256 issued = sha256 token := by
  have hkept := hbal sess.room sess.playerID
  simp only [Accepts, Slot.holdsToken, Bool.and_eq_true, beq_iff_eq] at h
  obtain ⟨⟨hocc, -⟩, hhash⟩ := h
  cases hcur : ledger ls sess with
  | none =>
    rw [hcur] at hkept
    exact absurd (hocc.symm.trans hkept) (by decide)
  | some issued =>
    rw [hcur] at hkept
    exact ⟨issued, ledger_issued hcur, hkept.2.2.symm.trans hhash⟩

theorem sound_lobby {ls : List Label} {m : Manager} (run : Run (lobby sha256 limits) ls m) :
    ∀ ref, Sound (m.room ref) := by
  refine run.invariant (fun m => ∀ ref, Sound (m.room ref)) ?_ ?_
  · rintro m rfl ref i c hc
    rw [room_of_ge _ (Nat.zero_le ref), slot_absent] at hc
    cases hc
  · rintro m l m' h ⟨hres, rfl⟩ ref
    rw [hres]
    exact roomStep_sound (apply_room sha256 l.env m l.op ref) (h ref)

theorem tidy_lobby {ls : List Label} {m : Manager} (run : Run (lobby sha256 limits) ls m) :
    ∀ ref i, Tidy ((m.room ref).slot i) := by
  refine run.invariant (fun m => ∀ ref i, Tidy ((m.room ref).slot i)) ?_ ?_
  · rintro m rfl ref i
    rw [room_of_ge _ (Nat.zero_le ref), slot_absent]
    exact tidy_new
  · rintro m l m' h ⟨hres, rfl⟩ ref
    rw [hres]
    exact roomStep_tidy (h ref) (apply_room sha256 l.env m l.op ref)

theorem limits_lobby {ls : List Label} {m : Manager} (run : Run (lobby sha256 limits) ls m) :
    m.limits = limits := by
  refine run.invariant (fun m => m.limits = limits) (by rintro m rfl; rfl) ?_
  rintro m l m' h ⟨hres, rfl⟩
  rw [hres, limits_apply, h]

theorem few_lobby (hmax : 0 ≤ limits.maxRooms) {ls : List Label} {m : Manager}
    (run : Run (lobby sha256 limits) ls m) : (m.rooms.length : Int) ≤ limits.maxRooms := by
  refine run.history (fun _ m => (m.rooms.length : Int) ≤ limits.maxRooms) ?_ ?_
  · rintro m rfl
    exact hmax
  · rintro ls m l m' run h ⟨hres, rfl⟩
    rw [← limits_lobby run] at h ⊢
    rw [hres]
    exact rooms_apply (listed_run run) l.op h

/-- Every state that any sequence of calls reaches is well kept, and a token opens one
slot at most. -/
theorem representation (sha256 : String → TokenHash) (limits : Limits)
    (hmax : 0 ≤ limits.maxRooms) (ls : List Label) (m : Manager)
    (run : Run (lobby sha256 limits) ls m) :
    m.limits = limits ∧ WellKept m ∧
      (Unrepeated ls → Injective sha256 ls → ∀ token sess sess',
        Accepts sha256 m sess token → Accepts sha256 m sess' token → sess = sess') := by
  have hlimits := limits_lobby run
  have hlisted := listed_run run
  refine ⟨hlimits, ⟨?_, hlisted.keys, ?_, ?_, ?_, tidy_lobby run⟩, ?_⟩
  · rw [hlimits]
    exact few_lobby hmax run
  · intro code ref
    rw [hlisted.live]
    exact ⟨fun h => ⟨destroyed_absent m h.1, h⟩, fun h => h.2⟩
  · intro ref hdes i
    by_contra hne
    obtain ⟨c, hc⟩ := Option.ne_none_iff_exists'.1 hne
    rw [(sound_lobby run ref i c hc).2] at hdes
    cases hdes
  · exact fun ref => ⟨(m.room ref).slots_length, (m.room ref).opts.positive⟩
  · intro hun hinj token sess sess' h h'
    obtain ⟨issued, hmem, hhash⟩ := accepts_issued (balanced_run run) h
    obtain ⟨issued', hmem', hhash'⟩ := accepts_issued (balanced_run run) h'
    have hsame : issued = issued' := hinj _ hmem _ hmem' (hhash.trans hhash'.symm)
    exact hun.unique hmem (hsame ▸ hmem')

/-- After the resume only the new token opens the slot. -/
theorem representation_resume :
    WellKept (play codePoints resumeOps (newManager smallLimits)) ∧
      ∀ sess, Accepts codePoints (play codePoints resumeOps (newManager smallLimits)) sess "b" →
        sess = ⟨0, 0⟩ := by
  obtain ⟨-, hkept, honly⟩ := representation codePoints smallLimits (by decide) _ _
    (run_ops codePoints smallLimits resumeOps)
  have hissues : issues (labels codePoints resumeOps (newManager smallLimits)) =
      [(⟨0, 0⟩, "a"), (⟨0, 0⟩, "b")] := rfl
  refine ⟨hkept, fun sess h => honly ?_ ?_ "b" sess ⟨0, 0⟩ h rfl⟩
  · unfold Unrepeated
    rw [hissues]
    decide
  · unfold Injective
    rw [hissues]
    decide

end Lobbylink.Server.Representation
