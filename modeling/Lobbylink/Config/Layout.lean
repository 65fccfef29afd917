import Lobbylink.Config.Toml

/-! How the subset is written: strings with their escapes, and arrays laid out over lines.
Scanning such text tells what is inside its strings. -/
namespace Lobbylink.Config.Layout
open Lib.Trim Toml

/-- The ways of writing a character in a basic string. -/
inductive Writes : Char → Text → Prop where
  | plain {c : Char} (h : c ≠ '"' ∧ c ≠ '\\' ∧ c ≠ '\n') : Writes c [c]
  | newline : Writes '\n' ['\\', 'n']
  | tab : Writes '\t' ['\\', 't']
  | carriageReturn : Writes '\r' ['\\', 'r']
  | quote : Writes '"' ['\\', '"']
  | backslash : Writes '\\' ['\\', '\\']
  | short {c : Char} {digits : Text} (hlength : digits.length = 4)
      (hvalue : parseHex digits = some c.toNat) : Writes c ('\\' :: 'u' :: digits)
  | long {c : Char} {digits : Text} (hlength : digits.length = 8)
      (hvalue : parseHex digits = some c.toNat) : Writes c ('\\' :: 'U' :: digits)

inductive Inner : Text → Text → Prop where
  | nil : Inner [] []
  | cons {c : Char} {w v t : Text} : Writes c w → Inner v t → Inner (c :: v) (w ++ t)

inductive Literal : Text → Text → Prop where
  | mk {v t : Text} : Inner v t → Literal v ('"' :: (t ++ ['"']))

def isBlank (c : Char) : Bool := isSpace c && c != '\n'

/-- What may follow a value on its line: white space and a comment. -/
inductive Trailer : Text → Prop where
  | blank {b : Text} (hb : All isBlank b) : Trailer b
  | comment {b c : Text} (hb : All isBlank b) (hc : '\n' ∉ c) : Trailer (b ++ '#' :: c)

/-- The text of an array after its opening bracket, up to the end of the line of the
closing one. The flag tells that an element must be followed by a comma. -/
inductive Elements : Bool → List Text → Text → Prop where
  | blank {b : Bool} {vs : List Text} {c : Char} {t : Text} (hc : isBlank c = true) :
      Elements b vs t → Elements b vs (c :: t)
  | newline {b : Bool} {vs : List Text} {t : Text} : Elements b vs t → Elements b vs ('\n' :: t)
  | comment {b : Bool} {vs : List Text} {c t : Text} (hc : '\n' ∉ c) :
      Elements b vs t → Elements b vs ('#' :: (c ++ '\n' :: t))
  | element {vs : List Text} {v l t : Text} :
      Literal v l → Elements true vs t → Elements false (v :: vs) (l ++ t)
  | comma {vs : List Text} {t : Text} : Elements false vs t → Elements true vs (',' :: t)
  | close {b : Bool} {t : Text} : Trailer t → Elements b [] (']' :: t)

inductive Flat : Bool → List Text → Text → Prop where
  | blank {b : Bool} {vs : List Text} {c : Char} {t : Text} (hc : isSpace c = true) :
      Flat b vs t → Flat b vs (c :: t)
  | element {vs : List Text} {v l t : Text} :
      Literal v l → Flat true vs t → Flat false (v :: vs) (l ++ t)
  | comma {vs : List Text} {t : Text} : Flat false vs t → Flat true vs (',' :: t)
  | close {b : Bool} {t : Text} (ht : All isSpace t) : Flat b [] (']' :: t)

variable {q : Quote} {a b s t v w : Text} {c : Char} {vs : List Text}

def Quote.after (q : Quote) (s : Text) : Quote := s.foldl Quote.next q

@[simp] theorem after_nil (q : Quote) : Quote.after q [] = q := rfl

@[simp] theorem after_cons (q : Quote) (c : Char) (s : Text) :
    Quote.after q (c :: s) = Quote.after (q.next c) s := rfl

theorem after_append (q : Quote) (a b : Text) :
    Quote.after q (a ++ b) = Quote.after (Quote.after q a) b := List.foldl_append

/-- No comment starts and no bracket stands outside the strings. -/
def Bare : Quote → Text → Prop
  | _, [] => True
  | q, c :: rest => (q = .outside → c ≠ '#' ∧ c ≠ ']') ∧ Bare (q.next c) rest

theorem bare_append : Bare q (a ++ b) ↔ Bare q a ∧ Bare (Quote.after q a) b := by
  induction a generalizing q with
  | nil => simp [Bare]
  | cons c rest ih => simp only [List.cons_append, Bare, ih, after_cons, and_assoc]

/-- Scanning from outside it ends outside, and has met neither. -/
structure Quiet (s : Text) : Prop where
  bare : Bare .outside s
  after : Quote.after .outside s = .outside

theorem Quiet.append (ha : Quiet a) (hb : Quiet b) : Quiet (a ++ b) where
  bare := bare_append.2 ⟨ha.bare, ha.after.symm ▸ hb.bare⟩
  after := by rw [after_append, ha.after, hb.after]

theorem quiet_nil : Quiet [] := ⟨trivial, rfl⟩

theorem quiet_cons (hquote : c ≠ '"') (hhash : c ≠ '#') (hbracket : c ≠ ']') (hs : Quiet s) :
    Quiet (c :: s) := by
  have hnext : Quote.next .outside c = .outside := if_neg hquote
  exact ⟨⟨fun _ => ⟨hhash, hbracket⟩, hnext.symm ▸ hs.bare⟩, by rw [after_cons, hnext, hs.after]⟩

theorem not_space_of_quiet {d : Char} (hd : isSpace d = false) (hc : isSpace c = true) : c ≠ d := by
  rintro rfl
  rw [hd] at hc
  cases hc

theorem quiet_of_space (h : All isSpace s) : Quiet s := by
  induction s with
  | nil => exact quiet_nil
  | cons c rest ih =>
    obtain ⟨hc, hrest⟩ := all_cons.1 h
    exact quiet_cons (not_space_of_quiet rfl hc) (not_space_of_quiet rfl hc)
      (not_space_of_quiet rfl hc) (ih hrest)

theorem isSpace_of_blank (h : isBlank c = true) : isSpace c = true := by
  unfold isBlank at h
  exact (Bool.and_eq_true_iff.1 h).1

theorem all_space_of_blank (h : All isBlank s) : All isSpace s :=
  fun c hc => isSpace_of_blank (h c hc)

theorem not_newline_of_blank (h : All isBlank s) : '\n' ∉ s := by
  intro hmem
  have hnewline := h _ hmem
  cases hnewline

theorem hexDigit_plain {n : Nat} (h : hexDigit c = some n) : c ≠ '"' ∧ c ≠ '\\' ∧ c ≠ '\n' := by
  refine ⟨?_, ?_, ?_⟩ <;>
  · rintro rfl
    cases h

theorem parseHex_digits {n m : Nat}
    (h : s.foldlM (fun n c => (hexDigit c).map (16 * n + ·)) n = some m) :
    ∀ c ∈ s, ∃ d, hexDigit c = some d := by
  induction s generalizing n with
  | nil => exact fun _ hc => absurd hc List.not_mem_nil
  | cons c rest ih =>
    rw [List.foldlM_cons] at h
    obtain ⟨k, hk, hrest⟩ := Option.bind_eq_some_iff.1 h
    obtain ⟨d, hd, -⟩ := Option.map_eq_some_iff.1 hk
    intro e he
    rcases List.mem_cons.1 he with rfl | he
    · exact ⟨d, hd⟩
    · exact ih hrest e he

theorem inside_next (hc : c ≠ '"' ∧ c ≠ '\\' ∧ c ≠ '\n') :
    Quote.next .inside c = .inside :=
  (if_neg hc.1).trans (if_neg hc.2.1)

def Within : Quote → Text → Prop
  | q, [] => q ≠ .outside
  | q, c :: rest => q ≠ .outside ∧ Within (q.next c) rest

theorem Within.start (h : Within q s) : q ≠ .outside := by
  cases s with
  | nil => exact h
  | cons c rest => exact h.1

theorem within_append (ha : Within q a) (hb : Within (Quote.after q a) b) : Within q (a ++ b) := by
  induction a generalizing q with
  | nil => exact hb
  | cons c rest ih => exact ⟨ha.1, ih ha.2 hb⟩

theorem Within.upTo (h : Within q (a ++ b)) : Quote.after q a ≠ .outside := by
  induction a generalizing q with
  | nil => exact h.start
  | cons c rest ih => exact ih h.2

theorem Within.bare (h : Within q s) : Bare q s := by
  induction s generalizing q with
  | nil => trivial
  | cons c rest ih => exact ⟨fun hq => absurd hq h.1, ih h.2⟩

theorem inside_plain (h : ∀ c ∈ s, c ≠ '"' ∧ c ≠ '\\' ∧ c ≠ '\n') :
    Within .inside s ∧ Quote.after .inside s = .inside := by
  induction s with
  | nil => exact ⟨Quote.noConfusion, rfl⟩
  | cons c rest ih =>
    obtain ⟨hc, hrest⟩ := List.forall_mem_cons.1 h
    obtain ⟨hwithin, hafter⟩ := ih hrest
    have hnext := inside_next hc
    exact ⟨⟨Quote.noConfusion, hnext.symm ▸ hwithin⟩, by rw [after_cons, hnext, hafter]⟩

theorem digits_plain {n : Nat} (h : parseHex s = some n) :
    ∀ c ∈ s, c ≠ '"' ∧ c ≠ '\\' ∧ c ≠ '\n' := by
  intro c hc
  obtain ⟨d, hd⟩ := parseHex_digits h c hc
  exact hexDigit_plain hd

/-- A written character stays inside its string and on its line. -/
theorem Writes.inside (h : Writes c w) :
    (Within .inside w ∧ Quote.after .inside w = .inside) ∧ '\n' ∉ w := by
  have hescaped : ∀ e digits, e ≠ '\n' → (∀ d ∈ digits, d ≠ '"' ∧ d ≠ '\\' ∧ d ≠ '\n') →
      (Within .inside ('\\' :: e :: digits) ∧ Quote.after .inside ('\\' :: e :: digits) = .inside) ∧
        '\n' ∉ '\\' :: e :: digits := by
    intro e digits he hdigits
    obtain ⟨hwithin, hafter⟩ := inside_plain hdigits
    refine ⟨⟨⟨Quote.noConfusion, Quote.noConfusion, hwithin⟩, hafter⟩, fun hmem => ?_⟩
    rcases List.mem_cons.1 hmem with h | hmem
    · cases h
    · rcases List.mem_cons.1 hmem with h | hmem
      · exact he h.symm
      · exact (hdigits _ hmem).2.2 rfl
  have hnone : ∀ d ∈ ([] : Text), d ≠ '"' ∧ d ≠ '\\' ∧ d ≠ '\n' := fun d hd =>
    absurd hd List.not_mem_nil
  cases h with
  | plain hc => exact ⟨inside_plain (by simpa using hc), by simpa using hc.2.2.symm⟩
  | newline => exact hescaped _ _ (by decide) hnone
  | tab => exact hescaped _ _ (by decide) hnone
  | carriageReturn => exact hescaped _ _ (by decide) hnone
  | quote => exact hescaped _ _ (by decide) hnone
  | backslash => exact hescaped _ _ (by decide) hnone
  | short hlength hvalue => exact hescaped _ _ (by decide) (digits_plain hvalue)
  | long hlength hvalue => exact hescaped _ _ (by decide) (digits_plain hvalue)

theorem Inner.inside (h : Inner v t) :
    (Within .inside t ∧ Quote.after .inside t = .inside) ∧ '\n' ∉ t := by
  induction h with
  | nil => exact ⟨⟨Quote.noConfusion, rfl⟩, List.not_mem_nil⟩
  | cons hw _ ih =>
    obtain ⟨⟨hwithin, hafter⟩, hline⟩ := hw.inside
    obtain ⟨⟨hwithin', hafter'⟩, hline'⟩ := ih
    refine ⟨⟨within_append hwithin (hafter.symm ▸ hwithin'), ?_⟩, fun hmem => ?_⟩
    · rw [after_append, hafter, hafter']
    · rcases List.mem_append.1 hmem with hmem | hmem
      · exact hline hmem
      · exact hline' hmem

theorem Literal.quiet (h : Literal v s) : Quiet s := by
  obtain ⟨hinner⟩ := h
  obtain ⟨⟨hwithin, hafter⟩, -⟩ := hinner.inside
  have hopen : Quote.next .outside '"' = .inside := rfl
  constructor
  · refine ⟨fun _ => by decide, ?_⟩
    rw [hopen]
    refine bare_append.2 ⟨hwithin.bare, ?_⟩
    rw [hafter]
    exact ⟨fun h => (by cases h), trivial⟩
  · rw [after_cons, hopen, after_append, hafter]
    rfl

theorem Literal.uncut (h : Literal v (a ++ b)) (hne : a ≠ [])
    (hafter : Quote.after .outside a = .outside) : b = [] := by
  generalize htext : a ++ b = s at h
  obtain ⟨hinner⟩ := h
  obtain ⟨⟨hwithin, hinside⟩, -⟩ := hinner.inside
  obtain ⟨first, rest, rfl⟩ := List.exists_cons_of_ne_nil hne
  rw [List.cons_append] at htext
  obtain ⟨rfl, hrest⟩ := List.cons.inj htext
  rcases List.append_eq_append_iff.1 hrest with ⟨m, rfl, -⟩ | ⟨m, rfl, hm⟩
  · exact absurd hafter hwithin.upTo
  · cases m with
    | nil =>
      rw [List.append_nil] at hafter
      exact absurd (hinside.symm.trans hafter) Quote.noConfusion
    | cons c tail => exact (List.append_eq_nil_iff.1 (List.cons.inj hm).2.symm).2

theorem Literal.line (h : Literal v s) : '\n' ∉ s := by
  obtain ⟨hinner⟩ := h
  have hline := hinner.inside.2
  simp [hline]

theorem stripFrom_append (h : Bare q a) :
    stripFrom q (a ++ b) = a ++ stripFrom (Quote.after q a) b := by
  induction a generalizing q with
  | nil => rfl
  | cons c rest ih =>
    obtain ⟨hc, hrest⟩ := h
    rw [List.cons_append, stripFrom, if_neg fun h => (hc h.1).1 h.2, ih hrest]
    rfl

theorem lastBracketFrom_append (h : Bare q a) :
    lastBracketFrom q (a ++ b) =
      (lastBracketFrom (Quote.after q a) b).map fun i => a.length + i := by
  induction a generalizing q with
  | nil => simp
  | cons c rest ih =>
    obtain ⟨hc, hrest⟩ := h
    have hnot : ¬(q = .outside ∧ c = ']') := fun h => (hc h.1).2 h.2
    rw [List.cons_append, lastBracketFrom, ih hrest, after_cons]
    cases lastBracketFrom (Quote.after (q.next c) rest) b with
    | none => simp [hnot]
    | some i =>
      simp only [Option.map_some, List.length_cons]
      congr 1
      omega

theorem Quiet.strip (h : Quiet a) (b : Text) : stripComment (a ++ b) = a ++ stripComment b := by
  unfold stripComment
  rw [stripFrom_append h.bare, h.after]

theorem Quiet.closed (h : Quiet a) (b : Text) : arrayClosed (a ++ b) = arrayClosed b := by
  unfold arrayClosed lastBracketOutsideString
  rw [lastBracketFrom_append h.bare, h.after, Option.isSome_map]

theorem Quiet.not_closed (h : Quiet a) : arrayClosed a = false := by
  have hclosed := h.closed []
  rw [List.append_nil] at hclosed
  exact hclosed

theorem lastBracket_space (h : All isSpace s) (ha : Quiet a) :
    lastBracketOutsideString (a ++ ']' :: s) = some a.length := by
  have hs := (quiet_of_space h)
  unfold lastBracketOutsideString
  rw [lastBracketFrom_append ha.bare, ha.after, lastBracketFrom]
  have hnone : lastBracketFrom (Quote.next .outside ']') s = none := by
    have hsome := hs.not_closed
    have houtside : Quote.next .outside ']' = .outside := rfl
    unfold arrayClosed lastBracketOutsideString at hsome
    rw [houtside]
    simpa using hsome
  rw [hnone]
  simp

theorem Trailer.strip (h : Trailer t) : All isSpace (stripComment t) ∧ '\n' ∉ t := by
  cases h with
  | blank hb =>
    have hspace := all_space_of_blank hb
    have hstrip := (quiet_of_space hspace).strip []
    rw [List.append_nil] at hstrip
    refine ⟨?_, not_newline_of_blank hb⟩
    rw [hstrip]
    exact all_append.2 ⟨hspace, .nil⟩
  | comment hb hc =>
    have hspace := all_space_of_blank hb
    refine ⟨?_, fun hmem => ?_⟩
    · rw [(quiet_of_space hspace).strip]
      exact all_append.2 ⟨hspace, .nil⟩
    · rcases List.mem_append.1 hmem with hmem | hmem
      · exact not_newline_of_blank hb hmem
      · rcases List.mem_cons.1 hmem with h | hmem
        · cases h
        · exact hc hmem

end Lobbylink.Config.Layout
