import Lobbylink.Config.Layout

/-! Strings and arrays mean what they say: however they are written and laid out, the
parser returns them and goes on with the next line. -/
namespace Lobbylink.Config.Arrays
open Lib.Scan Lib.Trim Toml Layout

variable {a b l s t v x pre post : Text} {c : Char} {vs : List Text} {ls : List Text} {e : Bool}

theorem lines_newline (t : Text) : lines ('\n' :: t) = [] :: lines t :=
  List.splitOn_append_cons_of_beq [] t (beq_self_eq_true '\n')

theorem lines_cons (t : Text) : ∃ l ls, lines t = l :: ls :=
  List.exists_cons_of_ne_nil (List.splitOn_ne_nil '\n' t)

theorem lines_single (ha : '\n' ∉ a) : lines a = [a] := List.splitOn_eq_singleton ha

theorem lines_append_newline (ha : '\n' ∉ a) (t : Text) : lines (a ++ '\n' :: t) = a :: lines t := by
  unfold lines
  rw [List.splitOn_append_cons_of_beq a t (beq_self_eq_true '\n'), List.splitOn_eq_singleton ha]
  rfl

theorem lines_append (ha : '\n' ∉ a) (ht : lines t = l :: ls) : lines (a ++ t) = (a ++ l) :: ls := by
  unfold lines at ht ⊢
  induction a with
  | nil => exact ht
  | cons c rest ih =>
    have hc : '\n' ≠ c := List.ne_of_not_mem_cons ha
    have hrest : '\n' ∉ rest := List.not_mem_of_not_mem_cons ha
    rw [List.cons_append, List.splitOn_cons_eq_if_modifyHead, if_neg (by simpa using hc.symm),
      ih hrest]
    rfl

theorem newline_of_lines : ∀ l ∈ lines t, '\n' ∉ l := by
  induction t with
  | nil => simp [lines]
  | cons c rest ih =>
    by_cases hc : c = '\n'
    · subst hc
      rw [lines_newline]
      exact List.forall_mem_cons.2 ⟨List.not_mem_nil, ih⟩
    · obtain ⟨l, ls, hrest⟩ := lines_cons rest
      have hline : '\n' ∉ [c] := by simpa using Ne.symm hc
      have hcons : lines ([c] ++ rest) = ([c] ++ l) :: ls := lines_append hline hrest
      rw [List.singleton_append] at hcons
      rw [hrest] at ih
      obtain ⟨hl, hls⟩ := List.forall_mem_cons.1 ih
      rw [hcons]
      exact List.forall_mem_cons.2 ⟨by simp [hl, Ne.symm hc], hls⟩

def joined (ls : List Text) : Text := ls.flatMap fun raw => ' ' :: trimSpace (stripComment raw)

theorem gather_closed (h : arrayClosed a = true) (ls : List Text) : gather a ls = .ok (a, 0) := by
  cases ls <;> simp [gather, h]

theorem gather_next (h : arrayClosed a = false) {raw text : Text} {ahead : Nat}
    (hrest : gather (a ++ ' ' :: trimSpace (stripComment raw)) ls = .ok (text, ahead)) :
    gather a (raw :: ls) = .ok (text, ahead + 1) := by
  simp [gather, h, hrest]

/-- From the rest of a line and the lines below it, cut and trimmed, an array on one line
is gathered. -/
def Gathers (e : Bool) (vs : List Text) (x : Text) (ls : List Text) : Prop :=
  Flat e vs (x ++ joined ls) ∧ ∀ buf following, Quiet buf →
    gather (buf ++ x) (ls ++ following) = .ok (buf ++ x ++ joined ls, ls.length)

theorem Gathers.below (h : Gathers e vs (trimSpace (stripComment l)) ls) :
    Gathers e vs [] (l :: ls) := by
  refine ⟨.blank rfl h.1, fun buf following hbuf => ?_⟩
  have hspace : Quiet [' '] := quiet_of_space (by simp [All, isSpace])
  have hnext := h.2 (buf ++ [' ']) following (hbuf.append hspace)
  rw [List.append_nil]
  refine gather_next hbuf.not_closed ?_
  simpa [joined] using hnext

theorem Gathers.prepend (h : Gathers e vs x ls) (ha : Quiet a) {e' : Bool} {vs' : List Text}
    (hflat : Flat e' vs' (a ++ (x ++ joined ls))) : Gathers e' vs' (a ++ x) ls := by
  refine ⟨by rwa [List.append_assoc], fun buf following hbuf => ?_⟩
  have hnext := h.2 (buf ++ a) following (hbuf.append ha)
  simpa using hnext

theorem tight_literal (h : Literal v s) : Tight isSpace s ∧ s ≠ [] := by
  obtain ⟨hinner⟩ := h
  refine ⟨⟨fun c hc => ?_, fun c hc => ?_⟩, List.cons_ne_nil _ _⟩
  · cases hc
    rfl
  · rw [← List.cons_append, List.getLast?_concat] at hc
    cases hc
    rfl

theorem tight_single (hc : isSpace c = false) : Tight isSpace [c] :=
  ⟨fun d hd => by cases hd; exact hc, fun d hd => by cases hd; exact hc⟩

theorem gathers_below (hstrip : [] = pre ++ x ++ post)
    (ih : ∀ {pre x post}, All isSpace pre → All isSpace post →
      stripComment l = pre ++ x ++ post → Gathers e vs x ls) : Gathers e vs x (l :: ls) := by
  have hx : x = [] := (List.append_eq_nil_iff.1 (List.append_eq_nil_iff.1 hstrip.symm).1).2
  obtain ⟨a, b, ha, hb, heq⟩ := trim_spec isSpace (stripComment l)
  rw [hx]
  exact (ih ha hb heq).below

theorem gathers_token (hquiet : Quiet s) (htight : Tight isSpace s) (hne : s ≠ [])
    (hline : '\n' ∉ s) (hlines : lines (s ++ t) = l :: ls) (hpre : All isSpace pre)
    (hpost : All isSpace post) (hstrip : stripComment l = pre ++ x ++ post)
    (ih : ∀ {l ls pre x post}, lines t = l :: ls → All isSpace pre → All isSpace post →
      stripComment l = pre ++ x ++ post → Gathers e vs x ls) :
    ∃ x', x = s ++ x' ∧ Gathers e vs x' ls := by
  obtain ⟨l', ls', ht⟩ := lines_cons t
  rw [lines_append hline ht] at hlines
  cases hlines
  rw [hquiet.strip] at hstrip
  obtain ⟨-, x', rfl, hrest⟩ := token_split htight hne hpre hpost hstrip.symm
  exact ⟨x', rfl, ih ht All.nil hpost (by simpa using hrest)⟩

/-- Whatever the layout, its lines are gathered into the same elements. -/
theorem elements_gathers (h : Elements e vs t) (hlines : lines t = l :: ls) (hpre : All isSpace pre)
    (hpost : All isSpace post) (hstrip : stripComment l = pre ++ x ++ post) :
    Gathers e vs x ls := by
  induction h generalizing l ls pre x post with
  | @blank e vs c t hc _ ih =>
    obtain ⟨l', ls', ht⟩ := lines_cons t
    have hspace := isSpace_of_blank hc
    have hline : '\n' ∉ [c] := not_newline_of_blank (by simpa [All] using hc)
    have hquiet : Quiet [c] := quiet_of_space (by simpa [All] using hspace)
    rw [← List.singleton_append, lines_append hline ht] at hlines
    cases hlines
    rw [hquiet.strip, List.singleton_append] at hstrip
    cases pre with
    | cons d pre' =>
      rw [List.cons_append, List.cons_append] at hstrip
      exact ih ht (all_cons.1 hpre).2 hpost (List.cons.inj hstrip).2
    | nil =>
      cases x with
      | cons d x' =>
        rw [List.nil_append, List.cons_append] at hstrip
        obtain ⟨rfl, hrest⟩ := List.cons.inj hstrip
        have hnext := ih ht All.nil hpost (by simpa using hrest)
        exact hnext.prepend hquiet (.blank hspace hnext.1)
      | nil =>
        cases post with
        | nil => cases hstrip
        | cons d post' =>
          obtain ⟨rfl, hrest⟩ := List.cons.inj hstrip
          exact ih ht All.nil (all_cons.1 hpost).2 (by simpa using hrest)
  | @newline e vs t _ ih =>
    obtain ⟨l', ls', ht⟩ := lines_cons t
    rw [lines_newline, ht] at hlines
    cases hlines
    exact gathers_below hstrip (ih ht)
  | @comment e vs c t hc _ ih =>
    obtain ⟨l', ls', ht⟩ := lines_cons t
    have hline : '\n' ∉ '#' :: c := by simpa using hc
    rw [← List.cons_append, lines_append_newline hline, ht] at hlines
    cases hlines
    have hnone : stripComment ('#' :: c) = [] := rfl
    rw [hnone] at hstrip
    exact gathers_below hstrip (ih ht)
  | @element vs v s t hliteral _ ih =>
    obtain ⟨htight, hne⟩ := tight_literal hliteral
    obtain ⟨x', rfl, hnext⟩ :=
      gathers_token hliteral.quiet htight hne hliteral.line hlines hpre hpost hstrip ih
    exact hnext.prepend hliteral.quiet (.element hliteral hnext.1)
  | @comma vs t _ ih =>
    have hquiet : Quiet [','] := quiet_cons (by decide) (by decide) (by decide) quiet_nil
    obtain ⟨x', rfl, hnext⟩ := gathers_token hquiet (tight_single rfl) (List.cons_ne_nil _ _)
      (by decide) hlines hpre hpost hstrip ih
    exact hnext.prepend hquiet (.comma hnext.1)
  | @close e t htrailer =>
    obtain ⟨hspace, hline⟩ := htrailer.strip
    rw [lines_single (by simpa using hline)] at hlines
    cases hlines
    have hcut : stripComment (']' :: t) = [']'] ++ stripComment t := rfl
    rw [hcut] at hstrip
    obtain ⟨rfl, x', rfl, hrest⟩ := token_split (tight_single rfl) (List.cons_ne_nil _ _) hpre hpost
      hstrip.symm
    rw [hrest] at hspace
    have hx := (all_append.1 hspace).1
    refine ⟨by simpa [joined] using Flat.close hx, fun buf following hbuf => ?_⟩
    have hclosed : arrayClosed (buf ++ ([']'] ++ x')) = true := by
      unfold arrayClosed
      rw [List.singleton_append, lastBracket_space hx hbuf]
      rfl
    rw [gather_closed hclosed]
    simp [joined]

theorem scan_skip (a r : Text) : scanString a.length (a ++ r) = scanString 0 r := by
  induction a with
  | nil => rfl
  | cons c rest ih => exact ih

theorem scan_escape {decoded : Char} (hescape : escape (a ++ t) = .ok (decoded, a.length))
    (hrest : scanString 0 t = .ok (v, s)) :
    scanString 0 ('\\' :: (a ++ t)) = .ok (decoded :: v, s) := by
  have hquote : ¬ '\\' = '"' := by decide
  rw [scanString, if_neg hquote, if_pos rfl, hescape]
  simp only
  rw [scan_skip, hrest]

theorem unicodeEscape_digits {digits : Text} {width : Nat} (hlength : digits.length = width)
    (hvalue : parseHex digits = some c.toNat) (t : Text) :
    unicodeEscape width (digits ++ t) = .ok (c, width + 1) := by
  have hlong : ¬(digits ++ t).length < width := by
    rw [List.length_append]
    omega
  have htake : (digits ++ t).take width = digits := by rw [← hlength, List.take_left]
  have hvalid : c.toNat.isValidChar := c.valid
  unfold unicodeEscape
  rw [if_neg hlong, htake, hvalue]
  simp only
  rw [if_pos hvalid, Char.ofNat_toNat]

theorem scan_writes {w : Text} (h : Writes c w) (hrest : scanString 0 t = .ok (v, s)) :
    scanString 0 (w ++ t) = .ok (c :: v, s) := by
  cases h with
  | plain hc =>
    rw [List.singleton_append, scanString, if_neg hc.1, if_neg hc.2.1, hrest]
  | newline => exact scan_escape (a := ['n']) rfl hrest
  | tab => exact scan_escape (a := ['t']) rfl hrest
  | carriageReturn => exact scan_escape (a := ['r']) rfl hrest
  | quote => exact scan_escape (a := ['"']) rfl hrest
  | backslash => exact scan_escape (a := ['\\']) rfl hrest
  | @short _ digits hlength hvalue =>
    have hescape : escape (('u' :: digits) ++ t) = .ok (c, ('u' :: digits).length) := by
      rw [List.length_cons, hlength]
      exact unicodeEscape_digits hlength hvalue t
    exact scan_escape hescape hrest
  | @long _ digits hlength hvalue =>
    have hescape : escape (('U' :: digits) ++ t) = .ok (c, ('U' :: digits).length) := by
      rw [List.length_cons, hlength]
      exact unicodeEscape_digits hlength hvalue t
    exact scan_escape hescape hrest

theorem scan_inner (h : Inner v t) (s : Text) : scanString 0 (t ++ '"' :: s) = .ok (v, s) := by
  induction h with
  | nil => rfl
  | cons hw _ ih =>
    rw [List.append_assoc]
    exact scan_writes hw ih

theorem parse_literal (h : Literal v l) (s : Text) : parseBasicString (l ++ s) = .ok (v, s) := by
  obtain ⟨hinner⟩ := h
  have hscan := scan_inner hinner s
  simpa [parseBasicString] using hscan

theorem literal_starts (h : Literal v l) (s : Text) : ['"'] <+: l ++ s := by
  obtain ⟨hinner⟩ := h
  simp

theorem parseElements_nil (fuel : Nat) : parseElements fuel [] = .ok [] := by
  cases fuel <;> rfl

theorem parseElements_literal (h : Literal v l) (fuel : Nat) :
    (trimSpace s = [] → parseElements (fuel + 1) (l ++ s) = .ok [v]) ∧
    ∀ {vs} rest, trimSpace s = ',' :: rest → parseElements fuel (trimSpace rest) = .ok vs →
      parseElements (fuel + 1) (l ++ s) = .ok (v :: vs) := by
  have hne : l ++ s ≠ [] := by
    intro hnil
    exact (tight_literal h).2 (List.append_eq_nil_iff.1 hnil).1
  have hstart : ¬¬['"'] <+: l ++ s := not_not.2 (literal_starts h s)
  constructor
  · intro hs
    rw [parseElements, if_neg hne, if_neg hstart, parse_literal h s]
    simp only [hs, if_true]
  · intro vs rest hs hrest
    have hcomma : ¬¬[','] <+: ',' :: rest := by simp
    rw [parseElements, if_neg hne, if_neg hstart, parse_literal h s]
    simp only [hs, List.cons_ne_nil, if_false, if_neg hcomma, List.drop_one, List.tail_cons, hrest]

/-- The text of the elements, by what is due first: an element, or a comma. -/
def Parses (e : Bool) (vs : List Text) (s : Text) : Prop :=
  match e with
  | false => ∀ fuel, (trimSpace s).length ≤ fuel → parseElements fuel (trimSpace s) = .ok vs
  | true => (trimSpace s = [] ∧ vs = []) ∨ ∃ rest, trimSpace s = ',' :: rest ∧
      ∀ fuel, (trimSpace rest).length ≤ fuel → parseElements fuel (trimSpace rest) = .ok vs

theorem Parses.of_trim (h : Parses e vs s) (heq : trimSpace t = trimSpace s) : Parses e vs t := by
  unfold Parses at h ⊢
  rwa [heq]

theorem flat_parses (h : Flat e vs t) :
    ∃ s tail, t = s ++ ']' :: tail ∧ Quiet s ∧ All isSpace tail ∧ Parses e vs s := by
  induction h with
  | @blank e vs c t hc _ ih =>
    obtain ⟨s, tail, rfl, hquiet, htail, hparses⟩ := ih
    have hspace : All isSpace [c] := by simpa [All] using hc
    exact ⟨c :: s, tail, rfl, (quiet_of_space hspace).append hquiet, htail,
      hparses.of_trim (trim_left hspace s)⟩
  | @element vs v l t hliteral _ ih =>
    obtain ⟨s, tail, rfl, hquiet, htail, hparses⟩ := ih
    refine ⟨l ++ s, tail, by simp, hliteral.quiet.append hquiet, htail, ?_⟩
    obtain ⟨htight, hne⟩ := tight_literal hliteral
    have htrim : trimSpace (l ++ s) = l ++ s.rdropWhile isSpace := trim_token htight hne s
    have hsame : trimSpace (s.rdropWhile isSpace) = trimSpace s := trim_rdropWhile isSpace s
    intro fuel hfuel
    rw [htrim, List.length_append] at hfuel
    have hpos := List.length_pos_iff.2 hne
    obtain ⟨k, rfl⟩ : ∃ k, fuel = k + 1 := ⟨fuel - 1, by omega⟩
    obtain ⟨hlast, hmore⟩ := parseElements_literal (s := s.rdropWhile isSpace) hliteral k
    rw [hsame] at hlast hmore
    rw [htrim]
    rcases hparses with ⟨hnil, rfl⟩ | ⟨rest, hrest, hparses⟩
    · exact hlast hnil
    · refine hmore rest hrest (hparses k ?_)
      have hlength := trim_length_le isSpace (s.rdropWhile isSpace)
      have hshort := trim_length_le isSpace rest
      have hcons := congrArg List.length (hsame.trans hrest)
      rw [List.length_cons] at hcons
      unfold trimSpace at hcons ⊢
      omega
  | @comma vs t _ ih =>
    obtain ⟨s, tail, rfl, hquiet, htail, hparses⟩ := ih
    have hcomma : Quiet [','] := quiet_cons (by decide) (by decide) (by decide) quiet_nil
    have htrim : trimSpace (',' :: s) = ',' :: s.rdropWhile isSpace :=
      trim_token (tight_single rfl) (List.cons_ne_nil _ _) s
    have hsame : trimSpace (s.rdropWhile isSpace) = trimSpace s := trim_rdropWhile isSpace s
    exact ⟨',' :: s, tail, rfl, hcomma.append hquiet, htail,
      .inr ⟨s.rdropWhile isSpace, htrim, hsame.symm ▸ hparses⟩⟩
  | @close e t ht =>
    refine ⟨[], t, rfl, quiet_nil, ht, ?_⟩
    cases e with
    | false => exact fun fuel _ => parseElements_nil fuel
    | true => exact .inl ⟨rfl, rfl⟩

theorem parseArrayText_flat (h : Flat false vs t) : parseArrayText ('[' :: t) = .ok vs := by
  obtain ⟨s, tail, rfl, hquiet, htail, hparses⟩ := flat_parses h
  have htight : Tight isSpace ('[' :: s ++ [']']) :=
    tight_append (fun c hc => by cases hc; rfl) (List.cons_ne_nil _ _) rfl
  have htrim : trimSpace ('[' :: (s ++ ']' :: tail)) = '[' :: (s ++ [']']) := by
    have happend := trim_append All.nil htight htail
    simpa [trimSpace] using happend
  have hopen : ['['] <+: '[' :: (s ++ [']']) := by simp
  have hlast : lastBracketOutsideString (s ++ [']']) = some s.length :=
    lastBracket_space All.nil hquiet
  have hnone : trimSpace ((s ++ [']']).drop (s.length + 1)) = [] := by
    rw [List.drop_of_length_le (by simp)]
    rfl
  unfold parseArrayText
  simp only [htrim, if_pos hopen, List.drop_one, List.tail_cons, hlast, hnone, ne_eq,
    not_true_eq_false, if_false, List.take_left]
  exact hparses _ (Nat.le_refl _)

inductive Opens (key : Text) : Text → Prop where
  | mk {indent before after : Text} (hkey : validTOMLKey key = true) (hindent : All isBlank indent)
      (hbefore : All isBlank before) (hafter : All isBlank after) :
      Opens key (indent ++ (key ++ (before ++ '=' :: after)))

theorem isKeyChar_range (h : isKeyChar c = true) : 45 ≤ c.toNat ∧ c.toNat ≤ 122 := by
  unfold isKeyChar isDigit at h
  simp only [Bool.or_eq_true, Bool.and_eq_true, decide_eq_true_eq, beq_iff_eq] at h
  rcases h with (((⟨hlow, hhigh⟩ | ⟨hlow, hhigh⟩) | ⟨hlow, hhigh⟩) | rfl) | rfl
  · have hlow : 97 ≤ c.toNat := hlow
    have hhigh : c.toNat ≤ 122 := hhigh
    omega
  · have hlow : 65 ≤ c.toNat := hlow
    have hhigh : c.toNat ≤ 90 := hhigh
    omega
  · have hlow : 48 ≤ c.toNat := hlow
    have hhigh : c.toNat ≤ 57 := hhigh
    omega
  · decide
  · decide

theorem not_space_of_range (h : 45 ≤ c.toNat ∧ c.toNat ≤ 122) : isSpace c = false := by
  have hblank : c ≠ ' ' := by
    rintro rfl
    exact absurd h.1 (by decide)
  unfold isSpace
  simp only [Bool.or_eq_false_iff, Bool.and_eq_false_iff, beq_eq_false_iff_ne, decide_eq_false_iff_not,
    ne_eq, hblank, not_false_eq_true, true_and]
  omega

theorem isKeyChar_plain (h : isKeyChar c = true) :
    isSpace c = false ∧ c ≠ '"' ∧ c ≠ '#' ∧ c ≠ ']' ∧ c ≠ '[' ∧ c ≠ '=' ∧ c ≠ '\n' := by
  refine ⟨not_space_of_range (isKeyChar_range h), ?_, ?_, ?_, ?_, ?_, ?_⟩ <;>
  · rintro rfl
    cases h

theorem validTOMLKey_iff : validTOMLKey s = true ↔ s ≠ [] ∧ ∀ c ∈ s, isKeyChar c = true := by
  unfold validTOMLKey
  simp [List.all_eq_true]

theorem tight_key (h : validTOMLKey s = true) : Tight isSpace s := by
  obtain ⟨-, hchars⟩ := validTOMLKey_iff.1 h
  exact ⟨fun c hc => (isKeyChar_plain (hchars c (List.mem_of_mem_head? hc))).1,
    fun c hc => (isKeyChar_plain (hchars c (List.mem_of_mem_getLast? hc))).1⟩

theorem quiet_of_plain (h : ∀ c ∈ s, c ≠ '"' ∧ c ≠ '#' ∧ c ≠ ']') : Quiet s := by
  induction s with
  | nil => exact quiet_nil
  | cons c rest ih =>
    obtain ⟨⟨hquote, hhash, hbracket⟩, hrest⟩ := List.forall_mem_cons.1 h
    exact quiet_cons hquote hhash hbracket (ih hrest)

theorem quiet_key (h : ∀ c ∈ s, isKeyChar c = true) : Quiet s := by
  refine quiet_of_plain fun c hc => ?_
  obtain ⟨-, hquote, hhash, hbracket, -⟩ := isKeyChar_plain (h c hc)
  exact ⟨hquote, hhash, hbracket⟩

theorem quiet_blank (h : All isBlank s) : Quiet s := quiet_of_space (all_space_of_blank h)

theorem Opens.quiet {key o : Text} (h : Opens key o) : Quiet o := by
  obtain ⟨hkey, hindent, hbefore, hafter⟩ := h
  have hequals : Quiet ('=' :: _) :=
    quiet_cons (by decide) (by decide) (by decide) (quiet_blank hafter)
  exact (quiet_blank hindent).append
    ((quiet_key (validTOMLKey_iff.1 hkey).2).append ((quiet_blank hbefore).append hequals))

theorem Opens.line {key o : Text} (h : Opens key o) : '\n' ∉ o := by
  obtain ⟨hkey, hindent, hbefore, hafter⟩ := h
  have hchars : '\n' ∉ key := fun hmem =>
    (isKeyChar_plain ((validTOMLKey_iff.1 hkey).2 _ hmem)).2.2.2.2.2.2 rfl
  simp [not_newline_of_blank hindent, hchars, not_newline_of_blank hbefore,
    not_newline_of_blank hafter]

/-- What the parser makes of the value after a key. -/
def parseValue (rest : Text) (following : List Text) : Except (Nat × Fault) (Value × Nat) :=
  if ['['] <+: rest then
    match parseArray rest following with
    | .error e => .error e
    | .ok (out, ahead) => .ok (.strs out, ahead)
  else
    match parseScalar rest with
    | .error fault => .error (0, fault)
    | .ok value => .ok (value, 0)

theorem splitOnce_key {key before : Text} (hkey : validTOMLKey key = true)
    (hbefore : All isSpace before) (rest : Text) :
    splitOnce ['='] (key ++ (before ++ '=' :: rest)) = some (key ++ before, rest) := by
  have hnot : '=' ∉ key ++ before := by
    intro hmem
    rcases List.mem_append.1 hmem with hmem | hmem
    · exact (isKeyChar_plain ((validTOMLKey_iff.1 hkey).2 _ hmem)).2.2.2.2.2.1 rfl
    · have hspace := hbefore _ hmem
      cases hspace
  have hsplit : splitOnce ['='] (key ++ before ++ ['='] ++ rest) = some (key ++ before, rest) :=
    splitOnce_append hnot rest
  simpa using hsplit

/-- What the parser makes of a line without its comment: a key, and the text of a value. -/
structure Assigns (key y line : Text) : Prop where
  valid : validTOMLKey key = true
  opened : ¬['['] <+: line
  split : ∃ before after, splitOnce ['='] line = some (before, after) ∧
    trimSpace before = key ∧ trimSpace after = y

theorem opens_assigns {key o y : Text} (hopens : Opens key o) (hy : Tight isSpace y) (hne : y ≠ [])
    (hpost : All isSpace post) (hstrip : stripComment l = y ++ post) :
    Assigns key y (trimSpace (stripComment (o ++ l))) := by
  have hquiet := hopens.quiet
  obtain ⟨hkey, hindent, hbefore, hafter⟩ := hopens
  rename_i indent before after
  have hspace := all_space_of_blank hindent
  have htight : Tight isSpace (key ++ (before ++ '=' :: (after ++ y))) := by
    obtain ⟨hne', -⟩ := validTOMLKey_iff.1 hkey
    constructor
    · intro c hc
      rw [List.head?_append_of_ne_nil key hne'] at hc
      exact (tight_key hkey).first c hc
    · intro c hc
      have hend : key ++ (before ++ '=' :: (after ++ y)) = (key ++ (before ++ '=' :: after)) ++ y := by
        simp
      rw [hend, List.getLast?_append_of_ne_nil _ hne] at hc
      exact hy.last c hc
  have hline : trimSpace (stripComment ((indent ++ (key ++ (before ++ '=' :: after))) ++ l)) =
      key ++ (before ++ '=' :: (after ++ y)) := by
    rw [hquiet.strip, hstrip]
    have htrim := trim_append hspace htight hpost
    simpa [trimSpace] using htrim
  obtain ⟨first, tail, hfirst⟩ := List.exists_cons_of_ne_nil (validTOMLKey_iff.1 hkey).1
  have hbracket : first ≠ '[' :=
    (isKeyChar_plain ((validTOMLKey_iff.1 hkey).2 first (by simp [hfirst]))).2.2.2.2.1
  have hkeytrim : trimSpace (key ++ before) = key := by
    have htrim := trim_append All.nil (tight_key hkey) (all_space_of_blank hbefore)
    simpa [trimSpace] using htrim
  have hvaluetrim : trimSpace (after ++ y) = y := by
    have htrim := trim_append (all_space_of_blank hafter) hy All.nil
    simpa [trimSpace] using htrim
  rw [hline]
  refine ⟨hkey, ?_, key ++ before, after ++ y, splitOnce_key hkey (all_space_of_blank hbefore) _,
    hkeytrim, hvaluetrim⟩
  rw [hfirst, List.cons_append, List.cons_prefix_cons]
  exact fun h => hbracket h.1.symm

theorem Assigns.ne {key y line : Text} (h : Assigns key y line) : line ≠ [] := by
  rintro rfl
  obtain ⟨before, after, hsplit, -⟩ := h.split
  cases hsplit

theorem parseKeyValue_assigns {key y line : Text} {value : Value} {ahead : Nat}
    (h : Assigns key y line) (hne : y ≠ []) (hvalue : parseValue y ls = .ok (value, ahead)) :
    parseKeyValue line ls = .ok (key, value, ahead) := by
  obtain ⟨hkey, -, before, after, hsplit, hbefore, hafter⟩ := h
  unfold parseKeyValue
  rw [hsplit]
  simp only [hbefore, hkey, Bool.not_true, Bool.false_eq_true, if_false, hafter, if_neg hne]
  unfold parseValue at hvalue
  split_ifs at hvalue ⊢ with harray
  · cases hresult : parseArray y ls with
    | error e =>
      rw [hresult] at hvalue
      cases hvalue
    | ok result =>
      rw [hresult] at hvalue
      cases hvalue
      rfl
  · cases hresult : parseScalar y with
    | error e =>
      rw [hresult] at hvalue
      cases hvalue
    | ok result =>
      rw [hresult] at hvalue
      cases hvalue
      rfl

theorem takeLine_opens {key o y : Text} {value : Value} {ahead : Nat} {p : Parser}
    (hopens : Opens key o) (hy : Tight isSpace y) (hne : y ≠ []) (hpost : All isSpace post)
    (hstrip : stripComment l = y ++ post) (hvalue : parseValue y ls = .ok (value, ahead))
    (hnew : p.dest.lookup key = none) :
    p.takeLine (o ++ l) ls = .ok (p.addKey key value, ahead) := by
  have hassigns := opens_assigns hopens hy hne hpost hstrip
  have hone := hassigns.opened
  have htwo : ¬['[', '['] <+: trimSpace (stripComment (o ++ l)) := fun h =>
    hone (List.IsPrefix.trans (by simp) h)
  unfold Parser.takeLine
  simp only [if_neg hassigns.ne, if_neg hone, if_neg htwo, parseKeyValue_assigns hassigns hne hvalue,
    hnew, Option.isSome_none, Bool.false_eq_true, if_false]

theorem parseLines_skip (line : Nat) (p : Parser) (ls following : List Text) :
    parseLines ls.length line p (ls ++ following) =
      parseLines 0 (line + ls.length) p following := by
  induction ls generalizing line with
  | nil => rfl
  | cons l rest ih =>
    rw [List.length_cons, List.cons_append, parseLines, ih, Nat.add_right_comm, Nat.add_assoc]

theorem parseLines_line {p p' : Parser} {line ahead : Nat} (h : p.takeLine l ls = .ok (p', ahead)) :
    parseLines 0 line p (l :: ls) = parseLines ahead (line + 1) p' ls := by
  rw [parseLines, h]

theorem strip_array (l : Text) :
    ∃ post, All isSpace post ∧
      stripComment ('[' :: l) = ('[' :: (stripComment l).rdropWhile isSpace) ++ post ∧
      Tight isSpace ('[' :: (stripComment l).rdropWhile isSpace) := by
  obtain ⟨post, hpost, hrest⟩ := rdropWhile_spec isSpace (stripComment l)
  have hopen : Quiet ['['] := quiet_cons (by decide) (by decide) (by decide) quiet_nil
  refine ⟨post, hpost, ?_, ?_⟩
  · rw [List.cons_append, ← hrest]
    exact hopen.strip l
  · have htrim := trim_token (tight_single (c := '[') rfl) (List.cons_ne_nil _ _) (stripComment l)
    rw [← List.singleton_append, ← htrim]
    exact trim_tight _ _

theorem lines_array {key o : Text} (ho : Opens key o) (hlines : lines t = l :: ls) :
    lines (o ++ '[' :: t) = (o ++ '[' :: l) :: ls := by
  have hopenline : '\n' ∉ o ++ ['['] := by simpa using ho.line
  have happend := lines_append hopenline hlines
  simpa using happend

/-- However an array is laid out, its key has its elements, and the parser goes on below it. -/
theorem array_read {key o : Text} {p : Parser} (hopens : Opens key o) (h : Elements false vs t)
    (hnew : p.dest.lookup key = none) (line : Nat) (following : List Text) :
    parseLines 0 line p (lines (o ++ '[' :: t) ++ following) =
      parseLines 0 (line + (lines t).length) (p.addKey key (.strs vs)) following := by
  obtain ⟨l, ls, hlines⟩ := lines_cons t
  obtain ⟨post, hpost, hstrip, htight⟩ := strip_array l
  have hopen : Quiet ['['] := quiet_cons (by decide) (by decide) (by decide) quiet_nil
  have hparts : stripComment l = [] ++ (stripComment l).rdropWhile isSpace ++ post :=
    (List.cons.inj ((hopen.strip l).symm.trans hstrip)).2
  have hgathers := elements_gathers h hlines All.nil hpost hparts
  have hgather := hgathers.2 ['['] following hopen
  have hvalue : parseValue ('[' :: (stripComment l).rdropWhile isSpace) (ls ++ following) =
      .ok (.strs vs, ls.length) := by
    have hbracket : ['['] <+: '[' :: (stripComment l).rdropWhile isSpace := by simp
    unfold parseValue parseArray
    rw [if_pos hbracket]
    rw [List.singleton_append] at hgather
    rw [hgather]
    simp only [List.cons_append, parseArrayText_flat hgathers.1]
  have htake := takeLine_opens hopens htight (List.cons_ne_nil _ _) hpost hstrip hvalue hnew
  rw [lines_array hopens hlines, List.cons_append, parseLines_line htake, parseLines_skip, hlines, List.length_cons,
    Nat.add_assoc, Nat.add_comm 1]

theorem string_read {key o : Text} {p : Parser} (hopens : Opens key o) (h : Literal v s)
    (htrailer : Trailer t) (hnew : p.dest.lookup key = none) (line : Nat) (following : List Text) :
    parseLines 0 line p (lines (o ++ (s ++ t)) ++ following) =
      parseLines 0 (line + 1) (p.addKey key (.str v)) following := by
  obtain ⟨hspace, hline⟩ := htrailer.strip
  obtain ⟨htight, hne⟩ := tight_literal h
  have hvalue : parseValue s following = .ok (.str v, 0) := by
    have hquote := literal_starts h []
    have hparse := parse_literal h []
    rw [List.append_nil] at hquote hparse
    have hbracket : ¬['['] <+: s := by
      obtain ⟨hinner⟩ := h
      simp
    unfold parseValue parseScalar
    rw [if_neg hbracket, if_pos hquote, hparse]
    rfl
  have htake := takeLine_opens hopens htight hne hspace (h.quiet.strip t) hvalue hnew
  have hall : lines (o ++ (s ++ t)) = [o ++ (s ++ t)] :=
    lines_single (by simp [hopens.line, h.line, hline])
  rw [hall, List.singleton_append, parseLines_line htake]

/-- An array is read as its elements and a string as its text, whatever stands in them and
however they are laid out, and the parser goes on with the line below. -/
theorem strings_exact :
    (∀ key o vs t p line following, Opens key o → Elements false vs t → p.dest.lookup key = none →
      parseLines 0 line p (lines (o ++ '[' :: t) ++ following) =
        parseLines 0 (line + (lines t).length) (p.addKey key (.strs vs)) following) ∧
    (∀ key o v s t p line following, Opens key o → Literal v s → Trailer t →
      p.dest.lookup key = none →
      parseLines 0 line p (lines (o ++ (s ++ t)) ++ following) =
        parseLines 0 (line + 1) (p.addKey key (.str v)) following) ∧
    (∀ key o vs t, Opens key o → Elements false vs t →
      parseTOML (o ++ '[' :: t) = .ok ⟨[([], [(key, .strs vs)])], []⟩) ∧
    ∀ key o v s t, Opens key o → Literal v s → Trailer t →
      parseTOML (o ++ (s ++ t)) = .ok ⟨[([], [(key, .str v)])], []⟩ := by
  refine ⟨fun key o vs t p line following hopens h hnew =>
      array_read hopens h hnew line following,
    fun key o v s t p line following hopens h htrailer hnew =>
      string_read hopens h htrailer hnew line following,
    fun key o vs t hopens h => ?_, fun key o v s t hopens h htrailer => ?_⟩
  · have hread := array_read (p := .new) hopens h rfl 1 []
    rw [List.append_nil] at hread
    exact hread
  · have hread := string_read (p := .new) hopens h htrailer rfl 1 []
    rw [List.append_nil] at hread
    exact hread

/-- `"#",  # "]`, an empty line and `"]" ]`. -/
theorem strings_exact_hash :
    parseTOML ['k', '=', '[', '"', '#', '"', ',', ' ', '#', ' ', '"', ']', '\n', '\n', '"', ']', '"',
      ' ', ']'] = .ok ⟨[([], [(['k'], .strs [['#'], [']']])])], []⟩ := by
  have hopens : Opens ['k'] (([] : Text) ++ (['k'] ++ ([] ++ '=' :: []))) :=
    .mk rfl All.nil All.nil All.nil
  have hash : Literal ['#'] ['"', '#', '"'] := .mk (.cons (.plain (by decide)) .nil)
  have bracket : Literal [']'] ['"', ']', '"'] := .mk (.cons (.plain (by decide)) .nil)
  have hcomment : '\n' ∉ [' ', '"', ']'] := by decide
  have hlayout := Elements.element hash (.comma (.blank (c := ' ') rfl (.comment hcomment
    (.newline (.element bracket (.blank (c := ' ') rfl (.close (.blank All.nil))))))))
  exact strings_exact.2.2.1 _ _ _ _ hopens hlayout

end Lobbylink.Config.Arrays
