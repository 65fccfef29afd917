import Mathlib.Data.List.TakeWhile
import Lobbylink.Java.Grammar

/-! The reader accepts the texts of its grammar and no others. -/
namespace Lobbylink.Java.Acceptance
open Json RoundTrip Grammar

variable {D : Type} {lib : JavaLib D}

theorem skipped (s : JString) (pos : Nat) :
    ∃ b, Blank b ∧ s.drop pos = b ++ s.drop (skipWs s pos) := by
  refine ⟨(s.drop pos).takeWhile isWs, fun c hc => List.mem_takeWhile_imp hc, ?_⟩
  obtain ⟨rest, hrest⟩ := List.takeWhile_prefix isWs (l := s.drop pos)
  rw [skipWs_eq, drop_append hrest.symm, hrest]

theorem drop_at {s : JString} {pos : Nat} {c : UInt16} (h : s[pos]? = some c) :
    s.drop pos = c :: s.drop (pos + 1) := by
  obtain ⟨hlt, rfl⟩ := List.getElem?_eq_some_iff.1 h
  exact List.drop_eq_getElem_cons hlt

/-- A value was read that is written there, after white space. -/
def ValueAt (lib : JavaLib D) (s : JString) (pos : Nat) (v : Value D) (q : Nat) : Prop :=
  ∃ b t, Blank b ∧ Text lib v t ∧ s.drop pos = b ++ (t ++ s.drop q)

def ElementsAt (lib : JavaLib D) (acc : List (Value D)) (s : JString) (pos : Nat) (v : Value D)
    (q : Nat) : Prop :=
  ∃ es : List (Element D), es ≠ [] ∧ (∀ e ∈ es, Blank e.before ∧ Blank e.after) ∧
    (∀ e ∈ es, Text lib e.value e.text) ∧ v = .list (acc ++ es.map (·.value)) ∧
    s.drop pos = listing (u ']') (es.map (·.layout)) ++ s.drop q

def MembersAt (lib : JavaLib D) (acc : List (JString × Value D)) (s : JString) (pos : Nat)
    (v : Value D) (q : Nat) : Prop :=
  ∃ ms : List (Member D), ms ≠ [] ∧
    (∀ m ∈ ms, Blank m.before ∧ Blank m.between ∧ Blank m.element.before ∧ Blank m.element.after) ∧
    (∀ m ∈ ms, Spelled (Unescapes lib) m.key m.keyText) ∧
    (∀ m ∈ ms, Text lib m.element.value m.element.text) ∧
    v = .map (ms.foldl (fun acc m => put acc m.key m.element.value) acc) ∧
    s.drop pos = listing (u '}') (ms.map (·.layout)) ++ s.drop q

structure Sound (lib : JavaLib D) (s : JString) (calls : Nat) : Prop where
  value : ∀ pos v q, parseValue lib calls s pos = some (.ok (v, q)) → ValueAt lib s pos v q
  object : ∀ pos v q, s[pos]? = some (u '{') → parseObject lib calls s pos = some (.ok (v, q)) →
    ValueAt lib s pos v q
  members : ∀ acc pos v q, parseMembers lib calls acc s pos = some (.ok (v, q)) →
    MembersAt lib acc s pos v q
  array : ∀ pos v q, s[pos]? = some (u '[') → parseArray lib calls s pos = some (.ok (v, q)) →
    ValueAt lib s pos v q
  elements : ∀ acc pos v q, parseElements lib calls acc s pos = some (.ok (v, q)) →
    ElementsAt lib acc s pos v q

theorem ValueAt.skip {s : JString} {pos q : Nat} {v : Value D}
    (h : ValueAt lib s (skipWs s pos) v q) : ValueAt lib s pos v q := by
  obtain ⟨b, t, hb, ht, hat⟩ := h
  obtain ⟨before, hbefore, hskip⟩ := skipped s pos
  refine ⟨before ++ b, t, fun c hc => (List.mem_append.1 hc).elim (hbefore c) (hb c), ht, ?_⟩
  rw [hskip, hat, List.append_assoc]

theorem ValueAt.text {s t : JString} {pos q : Nat} {v : Value D} (ht : Text lib v t)
    (h : s.drop pos = t ++ s.drop q) : ValueAt lib s pos v q := ⟨[], t, nofun, ht, h⟩

theorem listing_next (close : UInt16) (t : JString) {ts : List JString} (h : ts ≠ []) :
    listing close (t :: ts) = t ++ u ',' :: listing close ts := by
  rw [listing, if_neg h]

theorem array_sound {s : JString} {calls : Nat} (ih : Sound lib s calls) {pos q : Nat}
    {v : Value D} (hopen : s[pos]? = some (u '['))
    (h : parseArray lib (calls + 1) s pos = some (.ok (v, q))) : ValueAt lib s pos v q := by
  obtain ⟨b, hb, hskip⟩ := skipped s (pos + 1)
  rw [parseArray] at h
  split_ifs at h with hclose
  · cases h
    refine .text (.noElements hb) ?_
    rw [drop_at hopen, hskip, drop_at hclose]
    simp
  · obtain ⟨es, hne, hblank, htext, rfl, hat⟩ := ih.elements [] _ v q h
    obtain ⟨e, es, rfl⟩ := List.exists_cons_of_ne_nil hne
    -- The white space that was gone over belongs to the first element.
    have hfirst := hblank e List.mem_cons_self
    refine .text (@Denotes.list _ _ _ ({ e with before := b ++ e.before } :: es)
      (List.cons_ne_nil _ _) ?_ ?_) ?_
    · refine List.forall_mem_cons.2 ⟨⟨fun c hc => ?_, hfirst.2⟩,
        fun e' he' => hblank e' (List.mem_cons_of_mem _ he')⟩
      exact (List.mem_append.1 hc).elim (hb c) (hfirst.1 c)
    · exact List.forall_mem_cons.2 ⟨htext e List.mem_cons_self,
        fun e' he' => htext e' (List.mem_cons_of_mem _ he')⟩
    · have hbefore : listing (u ']') (({ e with before := b ++ e.before } :: es).map (·.layout)) =
          b ++ listing (u ']') ((e :: es).map (·.layout)) := by
        rw [List.map_cons, Element.layout, List.append_assoc]
        exact listing_before (u ']') b _ (es.map Element.layout)
      rw [drop_at hopen, hskip, hat, hbefore]
      simp

theorem elements_sound {s : JString} {calls : Nat} (ih : Sound lib s calls)
    {acc : List (Value D)} {pos q : Nat} {v : Value D}
    (h : parseElements lib (calls + 1) acc s pos = some (.ok (v, q))) :
    ElementsAt lib acc s pos v q := by
  rw [parseElements] at h
  cases hv : parseValue lib calls s pos with
  | none => simp [hv] at h
  | some result =>
    cases result with
    | error e => simp [hv] at h
    | ok read =>
      obtain ⟨w, behind⟩ := read
      obtain ⟨b, t, hb, ht, hat⟩ := ih.value pos w behind hv
      obtain ⟨after, hafter, hskip⟩ := skipped s behind
      cases hd : s[skipWs s behind]? with
      | none => simp [hv, hd] at h
      | some d =>
        simp only [hv, hd] at h
        split_ifs at h with hclose hcomma
        · cases h
          refine ⟨[⟨b, t, after, w⟩], List.cons_ne_nil _ _, by simpa using ⟨hb, hafter⟩,
            by simpa using ht, by simp, ?_⟩
          rw [hat, hskip, drop_at hd, hclose]
          simp [listing, Element.layout]
        · cases h
        · obtain ⟨es, hne, hblank, htext, rfl, hrest⟩ := ih.elements _ _ v q h
          refine ⟨⟨b, t, after, w⟩ :: es, List.cons_ne_nil _ _,
            List.forall_mem_cons.2 ⟨⟨hb, hafter⟩, hblank⟩,
            List.forall_mem_cons.2 ⟨ht, htext⟩, by simp, ?_⟩
          rw [hat, hskip, drop_at hd, Decidable.not_not.1 hcomma, hrest, List.map_cons,
            listing_next _ _ (by simpa using hne)]
          simp [Element.layout]

theorem object_sound {s : JString} {calls : Nat} (ih : Sound lib s calls) {pos q : Nat}
    {v : Value D} (hopen : s[pos]? = some (u '{'))
    (h : parseObject lib (calls + 1) s pos = some (.ok (v, q))) : ValueAt lib s pos v q := by
  obtain ⟨b, hb, hskip⟩ := skipped s (pos + 1)
  rw [parseObject] at h
  split_ifs at h with hclose
  · cases h
    refine .text (.noMembers hb) ?_
    rw [drop_at hopen, hskip, drop_at hclose]
    simp
  · obtain ⟨ms, hne, hblank, hkeys, htext, rfl, hat⟩ := ih.members [] _ v q h
    obtain ⟨m, ms, rfl⟩ := List.exists_cons_of_ne_nil hne
    have hfirst := hblank m List.mem_cons_self
    refine .text (@Denotes.map _ _ _ ({ m with before := b ++ m.before } :: ms)
      (List.cons_ne_nil _ _) ?_ ?_ ?_) ?_
    · refine List.forall_mem_cons.2 ⟨⟨fun c hc => ?_, hfirst.2⟩,
        fun m' hm' => hblank m' (List.mem_cons_of_mem _ hm')⟩
      exact (List.mem_append.1 hc).elim (hb c) (hfirst.1 c)
    · exact List.forall_mem_cons.2 ⟨hkeys m List.mem_cons_self,
        fun m' hm' => hkeys m' (List.mem_cons_of_mem _ hm')⟩
    · exact List.forall_mem_cons.2 ⟨htext m List.mem_cons_self,
        fun m' hm' => htext m' (List.mem_cons_of_mem _ hm')⟩
    · have hbefore : listing (u '}') (({ m with before := b ++ m.before } :: ms).map (·.layout)) =
          b ++ listing (u '}') ((m :: ms).map (·.layout)) := by
        rw [List.map_cons, Member.layout, List.append_assoc]
        exact listing_before (u '}') b _ (ms.map Member.layout)
      rw [drop_at hopen, hskip, hat, hbefore]
      simp

theorem members_sound {s : JString} {calls : Nat} (ih : Sound lib s calls)
    {acc : List (JString × Value D)} {pos q : Nat} {v : Value D}
    (h : parseMembers lib (calls + 1) acc s pos = some (.ok (v, q))) :
    MembersAt lib acc s pos v q := by
  obtain ⟨before, hbefore, hskip⟩ := skipped s pos
  rw [parseMembers] at h
  split_ifs at h with hquote
  · cases h
  cases hkey : parseString lib s (skipWs s pos + 1) [] with
  | error e => simp [hkey] at h
  | ok read =>
    obtain ⟨key, behind⟩ := read
    obtain ⟨_, keyText, rfl, hspelled, hkeyAt⟩ := string_sound lib hkey
    obtain ⟨between, hbetween, hcolonAt⟩ := skipped s behind
    simp only [hkey] at h
    split_ifs at h with hcolon
    · cases h
    cases hv : parseValue lib calls s (skipWs s behind + 1) with
    | none => simp [hv] at h
    | some result =>
      cases result with
      | error e => simp [hv] at h
      | ok read =>
        obtain ⟨w, behind'⟩ := read
        obtain ⟨b, t, hb, ht, hat⟩ := ih.value _ w behind' hv
        obtain ⟨after, hafter, hskip'⟩ := skipped s behind'
        have hmember : s.drop pos = (Member.mk before keyText between ⟨b, t, after, w⟩ key).layout ++
            s.drop (skipWs s behind') := by
          rw [hskip, drop_at (Decidable.not_not.1 hquote), hkeyAt, hcolonAt,
            drop_at (Decidable.not_not.1 hcolon), hat, hskip']
          simp [Member.layout, Element.layout]
        cases hd : s[skipWs s behind']? with
        | none => simp [hv, hd] at h
        | some d =>
          simp only [hv, hd] at h
          split_ifs at h with hclose hcomma
          · cases h
            refine ⟨[⟨before, keyText, between, ⟨b, t, after, w⟩, key⟩], List.cons_ne_nil _ _,
              by simpa using ⟨hbefore, hbetween, hb, hafter⟩, by simpa using hspelled,
              by simpa using ht, rfl, ?_⟩
            rw [hmember, drop_at hd, hclose]
            simp [listing]
          · cases h
          · obtain ⟨ms, hne, hblank, hkeys, htext, rfl, hrest⟩ := ih.members _ _ v q h
            refine ⟨⟨before, keyText, between, ⟨b, t, after, w⟩, key⟩ :: ms, List.cons_ne_nil _ _,
              List.forall_mem_cons.2 ⟨⟨hbefore, hbetween, hb, hafter⟩, hblank⟩,
              List.forall_mem_cons.2 ⟨hspelled, hkeys⟩, List.forall_mem_cons.2 ⟨ht, htext⟩, rfl, ?_⟩
            rw [hmember, drop_at hd, Decidable.not_not.1 hcomma, hrest, List.map_cons,
              listing_next _ _ (by simpa using hne)]
            simp

theorem word_sound {s w : JString} {pos q : Nat} {v v' : Value D} (hw : Text lib v w)
    (h : (expect w s pos).map (fun pos => (v, pos)) = .ok (v', q)) : ValueAt lib s pos v' q := by
  unfold expect at h
  split_ifs at h with hprefix
  · cases h
    obtain ⟨rest, hrest⟩ := hprefix
    exact .text hw (by rw [drop_append hrest.symm, hrest])
  · cases h

theorem number_sound {s : JString} {pos q : Nat} {v : Value D}
    (h : parseNumber lib s pos = .ok (v, q)) : ValueAt lib s pos v q := by
  have hread := parseNumber_eq lib s pos
  rw [h] at hread
  obtain ⟨v', hv', heq⟩ := Option.map_eq_some_iff.1 hread.symm
  cases heq
  refine .text (.number ⟨fun c hc => List.mem_takeWhile_imp hc, hv'⟩) ?_
  obtain ⟨rest, hrest⟩ := List.takeWhile_prefix isNumeric (l := s.drop pos)
  rw [drop_append hrest.symm, hrest]

theorem value_sound {s : JString} {calls : Nat} (ih : Sound lib s calls) {pos q : Nat}
    {v : Value D} (h : parseValue lib (calls + 1) s pos = some (.ok (v, q))) :
    ValueAt lib s pos v q := by
  refine .skip ?_
  rw [parseValue] at h
  cases hc : s[skipWs s pos]? with
  | none => simp [hc] at h
  | some c =>
    simp only [hc] at h
    split_ifs at h with hbrace hbracket hquote ht hf hn
    · exact ih.object _ v q (by rw [hc, hbrace]) h
    · exact ih.array _ v q (by rw [hc, hbracket]) h
    · cases hstring : parseString lib s (skipWs s pos + 1) [] with
      | error e => simp [hstring, Except.map] at h
      | ok read =>
        rw [hstring] at h
        cases h
        obtain ⟨str, behind⟩ := read
        obtain ⟨_, t, rfl, hspelled, hat⟩ := string_sound lib hstring
        refine .text (.string hspelled) ?_
        rw [drop_at hc, hat, hquote]
        simp
    · exact word_sound (.bool true) (Option.some.inj h)
    · exact word_sound (.bool false) (Option.some.inj h)
    · exact word_sound .null (Option.some.inj h)
    · exact number_sound (Option.some.inj h)

theorem sound (s : JString) (calls : Nat) : Sound lib s calls := by
  induction calls with
  | zero =>
    refine ⟨?_, ?_, ?_, ?_, ?_⟩
    · exact fun _ _ _ h => by simp [parseValue] at h
    · exact fun _ _ _ _ h => by simp [parseObject] at h
    · exact fun _ _ _ _ h => by simp [parseMembers] at h
    · exact fun _ _ _ _ h => by simp [parseArray] at h
    · exact fun _ _ _ _ h => by simp [parseElements] at h
  | succ calls ih =>
    exact ⟨fun _ _ _ => value_sound ih, fun _ _ _ => object_sound ih,
      fun _ _ _ _ => members_sound ih, fun _ _ _ => array_sound ih,
      fun _ _ _ _ => elements_sound ih⟩

theorem parse_sound {s : JString} {calls : Nat} {v : Value D}
    (h : parse lib calls s = some (.ok v)) : Document (Numeral lib) (Unescapes lib) v s := by
  unfold parse at h
  cases hv : parseValue lib calls s (skipWs s 0) with
  | none => simp [hv] at h
  | some result =>
    cases result with
    | error e => simp [hv] at h
    | ok read =>
      obtain ⟨w, behind⟩ := read
      simp only [hv] at h
      split_ifs at h with htrailing
      · cases h
      cases h
      obtain ⟨b, t, hb, ht, hat⟩ := ((sound s calls).value _ v behind hv).skip
      obtain ⟨after, hafter, hskip⟩ := skipped s behind
      rw [List.drop_eq_nil_of_le (Nat.not_lt.1 htrailing), List.append_nil] at hskip
      refine ⟨b, t, after, ?_, hb, hafter, ht⟩
      rw [← hskip, ← hat]
      rfl

/-- How much of the text is left at a position. -/
def left (s : JString) (pos : Nat) : Nat := s.length - pos

theorem left_skip (s : JString) (pos : Nat) : left s (skipWs s pos) ≤ left s pos := by
  rw [skipWs_eq]
  unfold left
  omega

theorem left_succ {s : JString} {pos : Nat} {c : UInt16} (h : s[pos]? = some c) :
    left s (pos + 1) < left s pos := by
  have hlt := (List.getElem?_eq_some_iff.1 h).1
  unfold left
  omega

theorem left_append {s t : JString} {pos q : Nat} (h : s.drop pos = t ++ s.drop q) :
    left s pos = t.length + left s q := by
  have hlen := congrArg List.length h
  rwa [List.length_append, List.length_drop, List.length_drop] at hlen

theorem ValueAt.left {s : JString} {pos q : Nat} {v : Value D} (h : ValueAt lib s pos v q) :
    left s q < left s pos := by
  obtain ⟨b, t, -, ht, hat⟩ := h
  obtain ⟨c, rest, rfl, -⟩ := text_starts ht
  rw [← List.append_assoc] at hat
  rw [left_append hat, List.length_append, List.length_cons]
  omega

/-- The calls that are enough, by what is left of the text. -/
structure Ends (lib : JavaLib D) (s : JString) (calls : Nat) : Prop where
  value : ∀ pos, 4 * left s pos + 3 ≤ calls → parseValue lib calls s pos ≠ none
  object : ∀ pos, s[pos]? = some (u '{') → 4 * left s pos + 2 ≤ calls →
    parseObject lib calls s pos ≠ none
  members : ∀ acc pos, 4 * left s pos + 4 ≤ calls → parseMembers lib calls acc s pos ≠ none
  array : ∀ pos, s[pos]? = some (u '[') → 4 * left s pos + 2 ≤ calls →
    parseArray lib calls s pos ≠ none
  elements : ∀ acc pos, 4 * left s pos + 4 ≤ calls → parseElements lib calls acc s pos ≠ none

theorem value_ends {s : JString} {calls : Nat} (ih : Ends lib s calls) {pos : Nat}
    (h : 4 * left s pos + 3 ≤ calls + 1) : parseValue lib (calls + 1) s pos ≠ none := by
  have hskip := left_skip s pos
  rw [parseValue]
  cases hc : s[skipWs s pos]? with
  | none => simp
  | some c =>
    simp only
    split_ifs with hbrace hbracket
    · exact ih.object _ (by rw [hc, hbrace]) (by omega)
    · exact ih.array _ (by rw [hc, hbracket]) (by omega)
    all_goals simp

theorem object_ends {s : JString} {calls : Nat} (ih : Ends lib s calls) {pos : Nat}
    (hopen : s[pos]? = some (u '{')) (h : 4 * left s pos + 2 ≤ calls + 1) :
    parseObject lib (calls + 1) s pos ≠ none := by
  have hskip := left_skip s (pos + 1)
  have hsucc := left_succ hopen
  rw [parseObject]
  split_ifs
  · simp
  · exact ih.members _ _ (by omega)

theorem array_ends {s : JString} {calls : Nat} (ih : Ends lib s calls) {pos : Nat}
    (hopen : s[pos]? = some (u '[')) (h : 4 * left s pos + 2 ≤ calls + 1) :
    parseArray lib (calls + 1) s pos ≠ none := by
  have hskip := left_skip s (pos + 1)
  have hsucc := left_succ hopen
  rw [parseArray]
  split_ifs
  · simp
  · exact ih.elements _ _ (by omega)

theorem elements_ends {s : JString} {calls : Nat} (ih : Ends lib s calls)
    {acc : List (Value D)} {pos : Nat} (h : 4 * left s pos + 4 ≤ calls + 1) :
    parseElements lib (calls + 1) acc s pos ≠ none := by
  rw [parseElements]
  cases hv : parseValue lib calls s pos with
  | none => exact absurd hv (ih.value pos (by omega))
  | some result =>
    cases result with
    | error e => simp
    | ok read =>
      obtain ⟨v, behind⟩ := read
      have hleft := ((sound s calls).value pos v behind hv).left
      have hskip := left_skip s behind
      cases hd : s[skipWs s behind]? with
      | none => simp [hd]
      | some d =>
        have hsucc := left_succ hd
        simp only [hd]
        split_ifs
        · simp
        · simp
        · exact ih.elements _ _ (by omega)

theorem members_ends {s : JString} {calls : Nat} (ih : Ends lib s calls)
    {acc : List (JString × Value D)} {pos : Nat} (h : 4 * left s pos + 4 ≤ calls + 1) :
    parseMembers lib (calls + 1) acc s pos ≠ none := by
  have hskip := left_skip s pos
  rw [parseMembers]
  split_ifs with hquote
  · simp
  have hopen := left_succ (Decidable.not_not.1 hquote)
  cases hkey : parseString lib s (skipWs s pos + 1) [] with
  | error e => simp
  | ok read =>
    obtain ⟨key, behind⟩ := read
    obtain ⟨_, keyText, -, -, hat⟩ := string_sound lib hkey
    have hkeyLeft : left s (skipWs s pos + 1) = (keyText ++ [u '"']).length + left s behind :=
      left_append (by rw [hat, List.append_assoc]; rfl)
    have hbehind := left_skip s behind
    simp only
    split_ifs with hcolon
    · simp
    have hvalue := left_succ (Decidable.not_not.1 hcolon)
    cases hv : parseValue lib calls s (skipWs s behind + 1) with
    | none => exact absurd hv (ih.value _ (by omega))
    | some result =>
      cases result with
      | error e => simp
      | ok read =>
        obtain ⟨v, behind'⟩ := read
        have hleft := ((sound s calls).value _ v behind' hv).left
        have hskip' := left_skip s behind'
        cases hd : s[skipWs s behind']? with
        | none => simp [hd]
        | some d =>
          have hsucc := left_succ hd
          simp only [hd]
          split_ifs
          · simp
          · simp
          · exact ih.members _ _ (by omega)

theorem ends (s : JString) (calls : Nat) : Ends lib s calls := by
  induction calls with
  | zero =>
    refine ⟨?_, ?_, ?_, ?_, ?_⟩
    · exact fun _ h => absurd h (by omega)
    · exact fun _ _ h => absurd h (by omega)
    · exact fun _ _ h => absurd h (by omega)
    · exact fun _ _ h => absurd h (by omega)
    · exact fun _ _ h => absurd h (by omega)
  | succ calls ih =>
    exact ⟨fun _ => value_ends ih, fun _ => object_ends ih, fun _ _ => members_ends ih,
      fun _ => array_ends ih, fun _ _ => elements_ends ih⟩

theorem parse_ends {s : JString} {calls : Nat} (h : 4 * s.length + 3 ≤ calls) :
    parse lib calls s ≠ none := by
  have hskip := left_skip s 0
  unfold parse
  cases hv : parseValue lib calls s (skipWs s 0) with
  | none => exact absurd hv ((ends s calls).value _ (by simp only [left] at *; omega))
  | some result =>
    cases result with
    | error e => simp
    | ok read =>
      simp only
      split_ifs <;> simp

/-- The reader decides its grammar: with a stack that is large enough it reads each text of the
grammar as the value that the text denotes, and throws on every other text. -/
theorem parse_decides (lib : JavaLib D) (s : JString) : ∃ n, ∀ calls ≥ n,
    (∃ v, parse lib calls s = some (.ok v) ∧
      ∀ v', Document (Numeral lib) (Unescapes lib) v' s ↔ v' = v) ∨
    ∃ e, parse lib calls s = some (.error e) ∧
      ∀ v, ¬Document (Numeral lib) (Unescapes lib) v s := by
  by_cases hdoc : ∃ v, Document (Numeral lib) (Unescapes lib) v s
  · obtain ⟨v, hv⟩ := hdoc
    obtain ⟨n, hn⟩ := document_read hv
    refine ⟨n, fun calls hcalls => .inl ⟨v, hn calls hcalls, fun v' => ⟨fun hv' => ?_, ?_⟩⟩⟩
    · obtain ⟨n', hn'⟩ := document_read hv'
      have hread := (hn (max n n') (Nat.le_max_left n n')).symm.trans
        (hn' (max n n') (Nat.le_max_right n n'))
      cases hread
      rfl
    · rintro rfl
      exact hv
  · refine ⟨4 * s.length + 3, fun calls hcalls => .inr ?_⟩
    cases hread : parse lib calls s with
    | none => exact absurd hread (parse_ends hcalls)
    | some result =>
      cases result with
      | ok v => exact absurd ⟨v, parse_sound hread⟩ hdoc
      | error e => exact ⟨e, rfl, fun v hv => hdoc ⟨v, hv⟩⟩

end Lobbylink.Java.Acceptance
