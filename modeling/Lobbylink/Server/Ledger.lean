import Lobbylink.Server.Catalog
import Lobbylink.Server.Signals
import Mathlib.Data.List.Induction

/-! Runs of the lobby under any sequence of calls, and the resume tokens issued
over a run. The ledger says for each slot which token was issued for it last and
not given up since; the hashes the rooms store are those of the ledger. -/
namespace Lobbylink.Server.Ledger
open Protocol Lobby Registry Fanout Operations Effects Slots Catalog Signals Lib.Runs

structure Label where
  op : Op
  env : Env
  res : Result

def lobby (sha256 : String → TokenHash) (limits : Limits) : System Manager Label where
  init m := m = newManager limits
  step m l m' := l.res = m.apply sha256 l.env l.op ∧ m' = l.res.manager

variable {sha256 : String → TokenHash} {env : Env} {limits : Limits}

theorem step_effect {m m' : Manager} {l : Label} (h : (lobby sha256 limits).step m l m') :
    Effect sha256 l.env m l.op l.res ∧ m' = l.res.manager :=
  ⟨h.1 ▸ apply_effect sha256 l.env m l.op, h.2⟩

def labels (sha256 : String → TokenHash) : List (Op × Env) → Manager → List Label
  | [], _ => []
  | (op, env) :: rest, m =>
    let res := m.apply sha256 env op
    ⟨op, env, res⟩ :: labels sha256 rest res.manager

theorem run_labels (ops : List (Op × Env)) {ls : List Label} {m : Manager}
    (run : Run (lobby sha256 limits) ls m) :
    Run (lobby sha256 limits) (ls ++ labels sha256 ops m) (play sha256 ops m) := by
  induction ops generalizing ls m with
  | nil => simpa only [labels, play, List.append_nil] using run
  | cons e rest ih =>
    obtain ⟨op, env⟩ := e
    have hrest := ih (run.step (l := ⟨op, env, m.apply sha256 env op⟩) ⟨rfl, rfl⟩)
    simpa only [labels, play, List.append_assoc, List.singleton_append] using hrest

/-- Every room of the map is live and stands under its own code. -/
def Indexed (m : Manager) : Prop :=
  ∀ e ∈ m.rooms, (m.room e.2).destroyed = false ∧ (m.room e.2).code = e.1

theorem listed_new (limits : Limits) : Listed (newManager limits) := by
  refine ⟨List.nodup_nil, fun code ref => ?_⟩
  rw [room_of_ge _ (Nat.zero_le ref)]
  simp [newManager, absent]

theorem listed_run {ls : List Label} {m : Manager} (run : Run (lobby sha256 limits) ls m) :
    Listed m := by
  refine run.invariant Listed ?_ ?_
  · rintro m rfl
    exact listed_new limits
  · rintro m l m' h ⟨hres, rfl⟩
    rw [hres]
    exact listed_apply h l.op

theorem indexed_run {ls : List Label} {m : Manager} (run : Run (lobby sha256 limits) ls m) :
    Indexed m := fun e he => ((listed_run run).live e.1 e.2).1 he

/-- The slot and token of the step, if it issued one. -/
def Label.issued (l : Label) : Option (Session × String) :=
  match l.res.reply with
  | .session (.ok sess) => l.env.token.map fun token => (sess, token)
  | _ => none

def Label.frees (l : Label) (sess : Session) : Bool :=
  match l.op with
  | .leave sess' _ =>
    sess' == sess && !((l.res.manager.room sess.room).slot sess.playerID).occupied
  | _ => false

/-- The token issued last for each slot that was not freed since. -/
def record (current : Session → Option String) (l : Label) (sess : Session) : Option String :=
  match l.issued with
  | some (sess', token) => if sess' = sess then some token else current sess
  | none => if l.frees sess then none else current sess

def ledger (ls : List Label) : Session → Option String := ls.foldl record fun _ => none

theorem ledger_snoc (ls : List Label) (l : Label) : ledger (ls ++ [l]) = record (ledger ls) l := by
  simp only [ledger, List.foldl_append, List.foldl_cons, List.foldl_nil]

def issues (ls : List Label) : List (Session × String) := ls.filterMap Label.issued

theorem issues_append (a b : List Label) : issues (a ++ b) = issues a ++ issues b :=
  List.filterMap_append ..

theorem mem_issues {ls : List Label} {p : Session × String} :
    p ∈ issues ls ↔ ∃ l ∈ ls, l.issued = some p := List.mem_filterMap

theorem record_eq_some {current : Session → Option String} {l : Label} {sess : Session}
    {token : String} (h : record current l sess = some token) :
    l.issued = some (sess, token) ∨ current sess = some token := by
  unfold record at h
  split at h
  · rename_i sess' token' hissued
    split_ifs at h with heq
    · obtain rfl := Option.some.inj h
      exact .inl (heq ▸ hissued)
    · exact .inr h
  · split_ifs at h
    exact .inr h

theorem ledger_issued {ls : List Label} {sess : Session} {token : String}
    (h : ledger ls sess = some token) : (sess, token) ∈ issues ls := by
  induction ls using List.reverseRecOn with
  | nil => cases h
  | append_singleton ls l ih =>
    rw [ledger_snoc] at h
    rw [issues_append]
    rcases record_eq_some h with hl | hold
    · exact List.mem_append_right _ (mem_issues.2 ⟨l, List.mem_singleton_self l, hl⟩)
    · exact List.mem_append_left _ (ih hold)

/-- The slot is held under `current`, or is free. -/
def Kept (sha256 : String → TokenHash) (t : Slot) : Option String → Prop
  | none => t.occupied = false
  | some token => t.occupied = true ∧ t.hasToken = true ∧ t.tokenHash = sha256 token

theorem kept_of_same {t t' : Slot} {current : Option String} (hocc : t'.occupied = t.occupied)
    (hhas : t'.hasToken = t.hasToken) (hhash : t'.tokenHash = t.tokenHash)
    (h : Kept sha256 t current) : Kept sha256 t' current := by
  cases current with
  | none => exact hocc.trans h
  | some token => exact ⟨hocc.trans h.1, hhas.trans h.2.1, hhash.trans h.2.2⟩

/-- What an operation makes of the token of a slot. -/
theorem slotStep_token {r : Room} {a : Act} {o : Outcome} {i : Nat} {t : Slot}
    (h : SlotStep sha256 env r a o i t) :
    (t.occupied = (r.slot i).occupied ∧ t.hasToken = (r.slot i).hasToken ∧
        t.tokenHash = (r.slot i).tokenHash) ∨
      (t.occupied = false ∧ (r.slot i).occupied = true) ∨
      (o = .seated i ∧ ∃ token, env.token = some token ∧ Kept sha256 t (some token)) := by
  induction h with
  | kept => exact .inl ⟨rfl, rfl, rfl⟩
  | seen => exact .inl ⟨rfl, rfl, rfl⟩
  | freed conn hcur => exact .inr (.inl ⟨rfl, hcur.2.1⟩)
  | resumed conn tok token _ ho _ _ _ hfind ht =>
    exact .inr (.inr ⟨ho, token, ht, findToken_occupied hfind, rfl, rfl⟩)
  | occupied conn token ho _ _ ht => exact .inr (.inr ⟨ho, token, ht, rfl, rfl, rfl⟩)
  | replaced conn token _ ho _ hocc _ _ _ ht =>
    exact .inr (.inr ⟨ho, token, ht, hocc, rfl, rfl⟩)
  | dropped t _ ih => exact ih

def Balanced (sha256 : String → TokenHash) (current : Session → Option String) (m : Manager) :
    Prop := ∀ ref i, Kept sha256 ((m.room ref).slot i) (current ⟨ref, i⟩)

theorem issued_iff (l : Label) (sess : Session) (token : String) :
    l.issued = some (sess, token) ↔
      l.res.reply = .session (.ok sess) ∧ l.env.token = some token := by
  unfold Label.issued
  split
  · rename_i sess' hreply
    rw [hreply]
    cases l.env.token with
    | none => simp
    | some token' => simp
  · rename_i hno
    constructor
    · intro h
      cases h
    · rintro ⟨h, -⟩
      exact absurd h (hno sess)

theorem balanced_step {ls : List Label} {m m' : Manager} {l : Label}
    (h : Balanced sha256 (ledger ls) m) (hstep : (lobby sha256 limits).step m l m') :
    Balanced sha256 (ledger (ls ++ [l])) m' := by
  obtain ⟨heff, rfl⟩ := step_effect hstep
  intro ref i
  rw [ledger_snoc]
  by_cases hseat : l.res.reply = .session (.ok ⟨ref, i⟩)
  · obtain ⟨r, a, swept, out, -, -, hdoes, -⟩ := effect_seated heff hseat
    obtain ⟨token, ht, htaken, -⟩ := does_seated hdoes
    have hkept : Kept sha256 ((l.res.manager.room ref).slot i) (some token) :=
      ⟨htaken.occupied, htaken.hasToken, htaken.tokenHash⟩
    have hissued : l.issued = some (⟨ref, i⟩, token) := (issued_iff l _ _).2 ⟨hseat, ht⟩
    simpa only [record, hissued, if_true] using hkept
  · -- no token was issued for this slot, so only a leave can have changed its entry
    have hrecord : record (ledger ls) l ⟨ref, i⟩ =
        if l.frees ⟨ref, i⟩ then none else ledger ls ⟨ref, i⟩ := by
      unfold record
      cases hissued : l.issued with
      | none => rfl
      | some p =>
        obtain ⟨sess, token⟩ := p
        have hreply := ((issued_iff l sess token).1 hissued).1
        have hne : sess ≠ ⟨ref, i⟩ := fun h => hseat (h ▸ hreply)
        have hfree : l.frees ⟨ref, i⟩ = false := by
          cases hop : l.op with
          | leave sess' conn =>
            have hres : l.res.reply = .none := by
              rw [hstep.1, hop]
              rfl
            rw [hres] at hreply
            cases hreply
          | _ => simp only [Label.frees, hop]
        simp only [hne, if_false, hfree, Bool.false_eq_true]
    rw [hrecord]
    have hold := h ref i
    have hkeep : ∀ t : Slot, t.occupied = ((m.room ref).slot i).occupied →
        t.hasToken = ((m.room ref).slot i).hasToken →
        t.tokenHash = ((m.room ref).slot i).tokenHash →
        t = (l.res.manager.room ref).slot i →
        Kept sha256 ((l.res.manager.room ref).slot i)
          (if l.frees ⟨ref, i⟩ then none else ledger ls ⟨ref, i⟩) := by
      rintro t hocc hhas hhash rfl
      by_cases hf : l.frees ⟨ref, i⟩ = true
      · rw [if_pos hf]
        unfold Label.frees at hf
        split at hf
        · simp only [Bool.and_eq_true, Bool.not_eq_true'] at hf
          exact hf.2
        · cases hf
      · rw [if_neg hf]
        exact kept_of_same hocc hhas hhash hold
    cases effect_room heff ref with
    | idle heq => exact hkeep _ rfl rfl rfl (by rw [heq])
    | closed _ heq =>
      refine hkeep ((m.room ref).slot i).clearConn rfl rfl rfl ?_
      rw [heq, slot_closed]
    | does r a o swept out hfound hop hdoes hans =>
      rcases slotStep_token (does_slot hdoes i) with ⟨hocc, hhas, hhash⟩ | ⟨hnow, hwas⟩ |
        ⟨ho, -⟩
      · rw [found_slot hfound] at hocc hhas hhash
        exact hkeep _ hocc hhas hhash rfl
      · rw [found_slot hfound] at hwas
        obtain ⟨conn, hleave, -⟩ := effect_freed heff hwas hnow
        have hfrees : l.frees ⟨ref, i⟩ = true := by
          simp only [Label.frees, hleave, hnow, BEq.rfl, Bool.not_false, Bool.and_self]
        rw [if_pos hfrees]
        exact hnow
      · exact absurd ((hans.seated ⟨ref, i⟩).2 ⟨ho, rfl⟩) hseat

theorem balanced_run {ls : List Label} {m : Manager} (run : Run (lobby sha256 limits) ls m) :
    Balanced sha256 (ledger ls) m := by
  refine run.history (fun ls m => Balanced sha256 (ledger ls) m) ?_ ?_
  · rintro m rfl ref i
    change ((newManager limits).room ref |>.slot i).occupied = false
    rw [room_of_ge _ (Nat.zero_le ref), slot_absent]
  · exact fun ls m l m' _ h hstep => balanced_step h hstep

end Lobbylink.Server.Ledger
