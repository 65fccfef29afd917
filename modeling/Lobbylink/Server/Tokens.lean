import Lobbylink.Server.Ledger
import Lobbylink.Server.Websocket
import Mathlib.Data.List.Nodup

/-! Resume tokens. A token reopens the slot it was issued for as long as it is the
one issued last for that slot, and nothing else; whether somebody was really
given it depends on the queue that the joined message is put on. -/
namespace Lobbylink.Server.Tokens
open Protocol Lobby Registry Fanout Operations Effects Slots Catalog Signals Ledger Lib.Runs
open Websocket (calm codePoints smallLimits)

variable {sha256 : String → TokenHash} {limits : Limits}

def Handed (ls : List Label) (token : String) : Prop :=
  ∃ l ∈ ls, ∃ conn msg, .enqueue conn (.joined msg) true ∈ l.res.out ∧ msg.resumeToken = token

/-- Every occupied slot is held under a token that some client has. -/
def HeldByClients (sha256 : String → TokenHash) (ls : List Label) (m : Manager) : Prop :=
  ∀ ref i, ((m.room ref).slot i).occupied = true →
    ∃ token, Handed ls token ∧ ((m.room ref).slot i).tokenHash = sha256 token

theorem Handed.append {ls : List Label} {token : String} (h : Handed ls token)
    (after : List Label) : Handed (ls ++ after) token := by
  obtain ⟨l, hl, h⟩ := h
  exact ⟨l, List.mem_append_left _ hl, h⟩

theorem issued_offered {m m' : Manager} {l : Label} (h : (lobby sha256 limits).step m l m')
    {sess : Session} {token : String} (hissued : l.issued = some (sess, token)) :
    ∃ conn msg ok, .enqueue conn (.joined msg) ok ∈ l.res.out ∧ msg.resumeToken = token ∧
      msg.selfID = sess.playerID := by
  obtain ⟨hreply, ht⟩ := (issued_iff l sess token).1 hissued
  obtain ⟨r, a, swept, out, -, -, hdoes, -, -, hout⟩ := effect_seated (step_effect h).1 hreply
  obtain ⟨token', ht', -, conn, q, ok, hmem⟩ := does_seated hdoes
  obtain rfl : token = token' := Option.some.inj (ht.symm.trans ht')
  exact ⟨conn, _, ok, by rw [hout]; exact List.mem_append_right _ hmem, rfl, rfl⟩

/-- As long as no joined message is refused, no slot is held under a token that
nobody was given. -/
theorem tokens_handed (sha256 : String → TokenHash) (limits : Limits) (ls : List Label)
    (m : Manager)
    (run : Run ((lobby sha256 limits).restrict fun _ l => JoinsTaken l.res.out) ls m) :
    HeldByClients sha256 ls m := by
  have hledger : ∀ sess token, (sess, token) ∈ issues ls → Handed ls token := by
    refine run.history (fun ls _ => ∀ sess token, (sess, token) ∈ issues ls → Handed ls token)
      ?_ ?_
    · intro m _ sess token h
      cases h
    · rintro ls m l m' - ih ⟨htaken, hstep⟩ sess token h
      rw [issues_append] at h
      rcases List.mem_append.1 h with h | h
      · exact (ih sess token h).append [l]
      · obtain ⟨l', hl', hissued⟩ := mem_issues.1 h
        obtain rfl := List.mem_singleton.1 hl'
        obtain ⟨conn, msg, ok, hmem, htok, -⟩ := issued_offered hstep hissued
        cases ok with
        | false => exact absurd hmem ((joinsTaken_iff _).1 htaken conn msg)
        | true => exact ⟨l', by simp, conn, msg, hmem, htok⟩
  intro ref i hocc
  have hkept := balanced_run run.unrestrict ref i
  cases hcur : ledger ls ⟨ref, i⟩ with
  | none =>
    rw [hcur] at hkept
    exact absurd (hocc.symm.trans hkept) (by simp)
  | some token =>
    rw [hcur] at hkept
    exact ⟨token, hledger _ _ (ledger_issued hcur), hkept.2.2⟩

/-- The options of a room of two that its players can come back to. -/
def pairOptions : RoomOptions := ⟨2, by decide, false, true, true, false, .tokenOnly, 0⟩

def openOp (conn : Conn) : Op := .join "app" "code" "" (some pairOptions) conn

def resumeOp (token : String) (conn : Conn) : Op := .join "app" "code" token none conn

def resumeOps : List (Op × Env) := [(openOp 0, calm 1 "a"), (resumeOp "a" 1, calm 2 "b")]

/-- The first player comes back with its token, but cannot take its joined message. -/
def refusedOps : List (Op × Env) :=
  [(openOp 0, calm 1 "a"), (resumeOp "a" 1, { calm 2 "b" with accepts := fun _ => false })]

theorem run_ops (sha256 : String → TokenHash) (limits : Limits) (ops : List (Op × Env)) :
    Run (lobby sha256 limits) (labels sha256 ops (newManager limits))
      (play sha256 ops (newManager limits)) := run_labels ops (.init rfl)

theorem tokens_handed_resume : HeldByClients codePoints
    (labels codePoints resumeOps (newManager smallLimits))
    (play codePoints resumeOps (newManager smallLimits)) := by
  refine tokens_handed codePoints smallLimits _ _ ((run_ops _ _ _).restrict ?_)
  have hall : (labels codePoints resumeOps (newManager smallLimits)).all (fun l =>
      l.res.out.all fun o => !refusesJoined o) = true := rfl
  intro l hl _
  simpa [JoinsTaken] using List.all_eq_true.1 hall l hl

def handedToken : Out → Option String
  | .enqueue _ (.joined msg) true => some msg.resumeToken
  | _ => none

/-- The refused transport leaves the slot under a token that nobody has, in place
of the one its player still holds. -/
theorem tokens_lost : ∃ ls m, Run (lobby codePoints smallLimits) ls m ∧ Handed ls "a" ∧
    ¬HeldByClients codePoints ls m := by
  refine ⟨_, _, run_ops codePoints smallLimits refusedOps, ⟨_, List.mem_cons_self, 0, _,
    List.mem_cons_self, rfl⟩, ?_⟩
  intro h
  obtain ⟨token, ⟨l, hl, conn, msg, hmem, rfl⟩, hhash⟩ := h 0 0 rfl
  have htokens : (labels codePoints refusedOps (newManager smallLimits)).flatMap
      (fun l => l.res.out.filterMap handedToken) = ["a"] := rfl
  have htok : msg.resumeToken ∈ ["a"] := htokens ▸
    List.mem_flatMap.2 ⟨l, hl, List.mem_filterMap.2 ⟨_, hmem, rfl⟩⟩
  obtain htok : msg.resumeToken = "a" := List.mem_singleton.1 htok
  rw [htok] at hhash
  cases hhash

def Unrepeated (ls : List Label) : Prop := ((issues ls).map Prod.snd).Nodup

instance (ls : List Label) : Decidable (Unrepeated ls) :=
  inferInstanceAs (Decidable (List.Nodup _))

theorem Unrepeated.left {a b : List Label} (h : Unrepeated (a ++ b)) : Unrepeated a := by
  unfold Unrepeated at h
  rw [issues_append, List.map_append] at h
  exact (List.nodup_append.1 h).1

/-- A token was issued for one slot. -/
theorem Unrepeated.unique {ls : List Label} (h : Unrepeated ls) {p q : Session} {token : String}
    (hp : (p, token) ∈ issues ls) (hq : (q, token) ∈ issues ls) : p = q :=
  congrArg Prod.fst (List.inj_on_of_nodup_map h hp hq rfl)

/-- No token of the run has the hash of `token`, but that token itself. -/
def Uncollided (sha256 : String → TokenHash) (ls : List Label) (token : String) : Prop :=
  ∀ sess issued, (sess, issued) ∈ issues ls → sha256 issued = sha256 token → issued = token

theorem holdsToken_ledger {ls : List Label} {m : Manager} {token : String}
    (hbal : Balanced sha256 (ledger ls) m) (hcol : Uncollided sha256 ls token) (ref i : Nat) :
    ((m.room ref).slot i).holdsToken (sha256 token) = true ↔
      ledger ls ⟨ref, i⟩ = some token := by
  have hkept := hbal ref i
  unfold Slot.holdsToken
  simp only [Bool.and_eq_true, beq_iff_eq]
  cases hcur : ledger ls ⟨ref, i⟩ with
  | none =>
    rw [hcur] at hkept
    have hfree : ((m.room ref).slot i).occupied = false := hkept
    simp [hfree]
  | some issued =>
    rw [hcur] at hkept
    obtain ⟨hocc, hhas, hhash⟩ := hkept
    rw [hocc, hhas, hhash]
    constructor
    · rintro ⟨-, h⟩
      rw [hcol _ _ (ledger_issued hcur) h]
    · intro h
      rw [Option.some.inj h]
      exact ⟨⟨rfl, rfl⟩, rfl⟩

/-- A token finds the slot that the ledger has it for. -/
theorem findToken_ledger {ls : List Label} {m : Manager} {token : String}
    (hbal : Balanced sha256 (ledger ls) m) (hun : Unrepeated ls)
    (hcol : Uncollided sha256 ls token) (ref i : Nat) :
    (m.room ref).findToken sha256 token = some i ↔ ledger ls ⟨ref, i⟩ = some token := by
  constructor
  · intro h
    exact (holdsToken_ledger hbal hcol ref i).1 (findToken_lt sha256 h).2
  · intro h
    have hold := (holdsToken_ledger hbal hcol ref i).2 h
    have hlt : i < (m.room ref).slots.length := by
      refine lt_of_occupied ?_
      simp only [Slot.holdsToken, Bool.and_eq_true] at hold
      exact hold.1.1
    refine List.findIdx?_eq_some_iff_getElem.2 ⟨hlt, by rwa [← slot_of_lt _ hlt], ?_⟩
    intro j hj hfirst
    rw [← slot_of_lt _ (Nat.lt_trans hj hlt)] at hfirst
    have hother := (holdsToken_ledger hbal hcol ref j).1 hfirst
    have heq := hun.unique (ledger_issued hother) (ledger_issued h)
    exact absurd (congrArg Session.playerID heq) (Nat.ne_of_lt hj)

/-- No slot is held under the token, now or later. -/
def Spent (ls : List Label) (token : String) : Prop :=
  ∀ after, Unrepeated (ls ++ after) → ∀ sess, ledger (ls ++ after) sess ≠ some token

theorem spent_of_issued {ls : List Label} {sess : Session} {token : String}
    (hissued : (sess, token) ∈ issues ls) (hnot : ledger ls sess ≠ some token) :
    Spent ls token := by
  intro after
  induction after using List.reverseRecOn with
  | nil =>
    intro hun other h
    rw [List.append_nil] at hun h
    obtain rfl := hun.unique hissued (ledger_issued h)
    exact hnot h
  | append_singleton after l ih =>
    intro hun other h
    rw [← List.append_assoc] at hun h
    rw [ledger_snoc] at h
    rcases record_eq_some h with hl | hold
    · -- the step issued the token again
      unfold Unrepeated at hun
      rw [issues_append, List.map_append, List.nodup_append] at hun
      refine hun.2.2 token ?_ token ?_ rfl
      · rw [issues_append]
        exact List.mem_map.2 ⟨_, List.mem_append_left _ hissued, rfl⟩
      · exact List.mem_map.2 ⟨_, mem_issues.2 ⟨l, List.mem_singleton_self l, hl⟩, rfl⟩
    · exact ih hun.left other hold

/-- The room after slot `i` went back to the holder of its token: the transport
was offered a joined message with the new token, and no slot changed beyond the
loss of a transport. -/
structure Reattached (sha256 : String → TokenHash) (env : Env) (conn : Conn) (token : String)
    (i : Nat) (r r' : Room) (out : List Out) : Prop where
  same : SameRoom r r' ∧ r'.started = r.started
  offered : ∃ msg ok, .enqueue conn (.joined msg) ok ∈ out ∧ msg.selfID = i ∧
    msg.resumeToken = token
  slot : r'.slot i = Slot.resumed conn (sha256 token) env.now (r.slot i) ∨
    r'.slot i = (Slot.resumed conn (sha256 token) env.now (r.slot i)).clearConn
  stays : Distinct (r.modifySlot i (Slot.resumed conn (sha256 token) env.now)) →
    kicks conn out = [] → r'.slot i = Slot.resumed conn (sha256 token) env.now (r.slot i)
  others : ∀ j, j ≠ i → r'.slot j = r.slot j ∨ r'.slot j = (r.slot j).clearConn

/-- What a resume with a working generator does to its room. -/
theorem reattached_of_acquired {env : Env} {r r' : Room} {i : Nat} {conn : Conn} {token : String}
    {out : List Out} {ok : Bool} {drops : List Nat} (hid : i < r.slots.length)
    (hacq : Acquired env token i conn ((noted r env.now).modifySlot i
      (Slot.resumed conn (sha256 token) env.now)) false (.playerRejoined i false) r' out ok drops [])
    : Reattached sha256 env conn token i r r'
      (displacedKick (r.slot i).conn .superseded supersededText ++ out) := by
  set q := (noted r env.now).modifySlot i (Slot.resumed conn (sha256 token) env.now) with hq
  have hslot : ∀ j, q.slot j =
      if j = i then Slot.resumed conn (sha256 token) env.now (r.slot i) else r.slot j :=
    slot_written hid _ _
  have hr' : ∀ j, r'.slot j =
      if j ∈ refused ok i ++ (drops ++ []) then (q.slot j).clearConn else q.slot j := by
    intro j
    rw [hacq.room, slot_emptyAt, slot_detachAll]
  refine ⟨⟨(sameRoom_modifySlot ..).acquired hacq, by rw [hacq.room]; rfl⟩, ?_, ?_, ?_, ?_⟩
  · obtain ⟨rest, rfl, -⟩ := hacq.first
    exact ⟨_, ok, List.mem_append_right _ List.mem_cons_self, rfl, rfl⟩
  · rw [hr', hslot, if_pos rfl]
    split_ifs
    · exact .inr rfl
    · exact .inl rfl
  · intro hdis hkicks
    have hdel := hacq.heard (hdis.of_slots fun j c hc => by
      simpa only [slot_modifySlot, hid, and_true, hslot] using hc)
    have hout : i ∉ refused ok i ++ (drops ++ []) := by
      intro hmem
      have hgone := (hdel.goes i hmem conn (by rw [hslot, if_pos rfl]; rfl)).2
      rw [kicks_append, hgone] at hkicks
      exact List.append_ne_nil_of_right_ne_nil _ (by simp) hkicks
    rw [hr', if_neg hout, hslot, if_pos rfl]
  · intro j hj
    rw [hr', hslot, if_neg hj]
    split_ifs
    · exact .inr rfl
    · exact .inl rfl

/-- What a join that presents the token of slot `i` comes to: the slot is attached again under a
fresh token, and the old one is spent. -/
structure Resumes (sha256 : String → TokenHash) (ls : List Label) (m : Manager) (l : Label)
    (ref i : Nat) (token fresh : String) (conn : Conn) : Prop where
  reply : l.res.reply = .session (.ok ⟨ref, i⟩)
  room : Reattached sha256 l.env conn fresh i (m.room ref) (l.res.manager.room ref) l.res.out
  others : ∀ other, other ≠ ref → l.res.manager.room other = m.room other
  rooms : l.res.manager.rooms = m.rooms
  spent : Spent (ls ++ [l]) token

theorem resumes_of_ledger {ls : List Label} {m m' : Manager} {l : Label}
    (run : Run (lobby sha256 limits) ls m) (hstep : (lobby sha256 limits).step m l m')
    {appID code token fresh : String} {create : Option RoomOptions} {conn : Conn} {ref i : Nat}
    (hop : l.op = .join appID code token create conn) (ht : token ≠ "")
    (hlook : m.lookup code = some ref) (happ : (m.room ref).appID = appID)
    (hun : Unrepeated (ls ++ [l])) (hcol : Uncollided sha256 ls token)
    (htok : l.env.token = some fresh) (hallow : (m.room ref).opts.allowReconnect = true)
    (hcur : ledger ls ⟨ref, i⟩ = some token) : Resumes sha256 ls m l ref i token fresh conn := by
  have hfind := (findToken_ledger (balanced_run run) hun.left hcol ref i).2 hcur
  have hlive := indexed_run run _ (lookup_mem hlook)
  have hres : l.res = Entered.result (entered ref (m.onRoom [] ref
      (resumeLocked sha256 l.env i conn ∘ (·.activity l.env.now)))) := by
    have hfind' : (Call.activity ⟨m.room ref, []⟩ l.env.now).room.findToken sha256 token =
        some i := hfind
    have hopts : (Call.activity ⟨m.room ref, []⟩ l.env.now).room.opts.allowReconnect = true :=
      hallow
    rw [hstep.1, hop]
    simp only [Manager.apply, join, hlook, Manager.onRoom, joinRoom, hlive.1, happ, ht, hopts,
      hfind', Function.comp_apply, Bool.false_eq_true, if_false, ne_eq, not_true_eq_false,
      not_false_eq_true, and_self, if_true]
  have hother : ∀ r', ∀ other, other ≠ ref → (m.setRoom ref r').room other = m.room other := by
    intro r' other hne
    rw [room_setRoom, if_neg fun h => hne h.1]
  have hid := (findToken_lt sha256 hfind).1
  obtain ⟨r', out, ok, d₁, d₂, heq, hacq⟩ := resumeLocked_spec sha256 l.env i conn
    (Call.activity ⟨m.room ref, []⟩ l.env.now) htok hid
  obtain rfl := hacq.quiet rfl
  have hres' : l.res = ⟨m.setRoom ref r',
      displacedKick ((m.room ref).slot i).conn .superseded supersededText ++ out,
      .session (.ok ⟨ref, i⟩)⟩ := by
    rw [hres]
    simp only [Manager.onRoom, Function.comp_apply, heq, Entered.result, entered]
    rfl
  have hroom : (m.setRoom ref r').room ref = r' := by
    rw [room_setRoom, if_pos ⟨rfl, destroyed_absent m hlive.1⟩]
  have hreply : l.res.reply = .session (.ok ⟨ref, i⟩) := by rw [hres']
  refine ⟨hreply, ?_, ?_, by rw [hres']; rfl, ?_⟩
  · rw [hres']
    simp only [hroom]
    exact reattached_of_acquired hid hacq
  · rw [hres']
    exact hother r'
  · have hissued := (issued_iff l ⟨ref, i⟩ fresh).2 ⟨hreply, htok⟩
    have hold : (⟨ref, i⟩, token) ∈ issues (ls ++ [l]) := by
      rw [issues_append]
      exact List.mem_append_left _ (ledger_issued hcur)
    refine spent_of_issued hold ?_
    rw [ledger_snoc]
    simp only [record, hissued, if_true, ne_eq, Option.some.injEq]
    rintro rfl
    -- the generator would have repeated the token
    unfold Unrepeated at hun
    rw [issues_append, List.map_append, List.nodup_append] at hun
    exact hun.2.2 _ (List.mem_map.2 ⟨_, ledger_issued hcur, rfl⟩) _
      (List.mem_map.2 ⟨_, mem_issues.2 ⟨l, List.mem_singleton_self l, hissued⟩, rfl⟩) rfl

theorem apply_join_untokened {m : Manager} {env : Env} {appID code token : String}
    {create : Option RoomOptions} {conn : Conn} {ref : Nat} (hlook : m.lookup code = some ref)
    (hno : (m.room ref).opts.allowReconnect = true → (m.room ref).findToken sha256 token = none) :
    m.apply sha256 env (.join appID code token create conn) =
      m.apply sha256 env (.join appID code "" create conn) := by
  have hroom : joinRoom sha256 env appID code token conn ⟨m.room ref, []⟩ =
      joinRoom sha256 env appID code "" conn ⟨m.room ref, []⟩ := by
    unfold joinRoom
    simp only [ne_eq, not_true_eq_false, false_and, if_false]
    by_cases hresume : ¬token = "" ∧
        (Call.activity ⟨m.room ref, []⟩ env.now).room.opts.allowReconnect = true
    · have hfind : (Call.activity ⟨m.room ref, []⟩ env.now).room.findToken sha256 token =
          none := hno hresume.2
      rw [if_pos hresume, hfind]
    · rw [if_neg hresume]
  simp only [Manager.apply, join, hlook, Manager.onRoom, hroom]

/-- Resume tokens are exact: the last token issued for a slot reopens that slot
once, any other one is as good as none. The generator does not fail. -/
theorem resume_exact (sha256 : String → TokenHash) (limits : Limits) (ls : List Label)
    (m m' : Manager) (l : Label) (run : Run (lobby sha256 limits) ls m)
    (hstep : (lobby sha256 limits).step m l m') (appID code token : String)
    (create : Option RoomOptions) (conn : Conn) (ref : Nat)
    (hop : l.op = .join appID code token create conn) (ht : token ≠ "")
    (hlook : m.lookup code = some ref) (happ : (m.room ref).appID = appID)
    (hun : Unrepeated (ls ++ [l])) (hcol : Uncollided sha256 ls token) :
    (∀ i fresh, l.env.token = some fresh → (m.room ref).opts.allowReconnect = true →
      ledger ls ⟨ref, i⟩ = some token → Resumes sha256 ls m l ref i token fresh conn) ∧
    (¬((m.room ref).opts.allowReconnect = true ∧ ∃ i, ledger ls ⟨ref, i⟩ = some token) →
      l.res = m.apply sha256 l.env (.join appID code "" create conn)) ∧
    (∀ sess, (sess, token) ∈ issues ls →
      (∀ other, ledger ls other = some token → other = sess) ∧
      (ledger ls sess ≠ some token → Spent ls token)) := by
  refine ⟨fun i fresh htok hallow hcur =>
    resumes_of_ledger run hstep hop ht hlook happ hun hcol htok hallow hcur, ?_,
    fun sess hissued => ⟨fun other h => hun.left.unique (ledger_issued h) hissued,
      spent_of_issued hissued⟩⟩
  intro hnot
  rw [hstep.1, hop]
  refine apply_join_untokened hlook fun hallow => ?_
  by_contra hsome
  obtain ⟨i, hfind⟩ := Option.ne_none_iff_exists'.1 hsome
  exact hnot ⟨hallow, i, (findToken_ledger (balanced_run run) hun.left hcol ref i).1 hfind⟩

def openedRun : List Label := labels codePoints [(openOp 0, calm 1 "a")] (newManager smallLimits)

def openedRoom : Manager := play codePoints [(openOp 0, calm 1 "a")] (newManager smallLimits)

theorem opened_run : Run (lobby codePoints smallLimits) openedRun openedRoom := run_ops ..

theorem resume_exact_resume : ∃ ls m l m', Run (lobby codePoints smallLimits) ls m ∧
    (lobby codePoints smallLimits).step m l m' ∧ l.op = resumeOp "a" 1 ∧
    Resumes codePoints ls m l 0 0 "a" "b" 1 := by
  have hstep : (lobby codePoints smallLimits).step openedRoom
      ⟨resumeOp "a" 1, calm 2 "b", openedRoom.apply codePoints (calm 2 "b") (resumeOp "a" 1)⟩ _ :=
    ⟨rfl, rfl⟩
  have hcol : Uncollided codePoints openedRun "a" := by
    intro sess issued h _
    obtain h | h := List.mem_cons.1 h
    · exact congrArg Prod.snd h
    · cases h
  refine ⟨_, _, _, _, opened_run, hstep, rfl, ?_⟩
  exact (resume_exact codePoints smallLimits _ _ _ _ opened_run hstep "app" "code" "a" none 1 0
    rfl (by decide) rfl rfl (by decide) hcol).1 0 "b" rfl rfl rfl

end Lobbylink.Server.Tokens
