import Lobbylink.Config.Reading

/-! The subset of TOML as a grammar of lines, and what each line of such a text looks like
to the parser. -/
namespace Lobbylink.Config.Grammar
open Lib.Scan Lib.Trim Toml Layout Arrays Reading

variable {a b d l o s t name key post : Text} {c : Char} {vs : List Text} {ls : List Text} {e : Bool}

inductive Digits : Text → Prop where
  | one {c : Char} (hc : isDigit c = true) : Digits [c]
  | more {c : Char} {d : Text} (hc : isDigit c = true) : Digits d → Digits (c :: d)
  | group {c : Char} {d : Text} (hc : isDigit c = true) : Digits d → Digits (c :: '_' :: d)

/-- An optional sign and digits, of which the first is zero only if it is the only one. -/
inductive Decimal : Text → Prop where
  | mk {sign d : Text} (hsign : sign = [] ∨ sign = ['-'] ∨ sign = ['+']) (hd : Digits d)
      (hzero : ['0'] <+: d → d = ['0']) : Decimal (sign ++ d)

inductive Scalar : Text → Prop where
  | string {v s : Text} : Literal v s → Scalar s
  | integer {s : Text} : Decimal s → Scalar s
  | yes : Scalar ['t', 'r', 'u', 'e']
  | no : Scalar ['f', 'a', 'l', 's', 'e']

/-- What a document defines: a table, an entry of an array of tables, or a key. -/
inductive Item where
  | table (name : Text)
  | entry (name : Text)
  | key (name : Text)
  deriving DecidableEq, Repr

inductive Header : Item → Text → Prop where
  | table {name indent before after t : Text} (hname : validTOMLKey name = true)
      (hindent : All isBlank indent) (hbefore : All isBlank before) (hafter : All isBlank after)
      (ht : Trailer t) :
      Header (.table name) (indent ++ '[' :: (before ++ (name ++ (after ++ ']' :: t))))
  | entry {name indent before after t : Text} (hname : validTOMLKey name = true)
      (hindent : All isBlank indent) (hbefore : All isBlank before) (hafter : All isBlank after)
      (ht : Trailer t) :
      Header (.entry name) (indent ++ '[' :: '[' :: (before ++ (name ++ (after ++ ']' :: ']' :: t))))

inductive Document : List Text → List Item → Prop where
  | nil : Document [] []
  | blank {l : Text} {ls : List Text} {items : List Item} (hl : Trailer l) :
      Document ls items → Document (l :: ls) items
  | header {l : Text} {ls : List Text} {item : Item} {items : List Item} (hl : Header item l) :
      Document ls items → Document (l :: ls) (item :: items)
  | scalar {key o s t : Text} {ls : List Text} {items : List Item} (ho : Opens key o)
      (hs : Scalar s) (ht : Trailer t) :
      Document ls items → Document ((o ++ (s ++ t)) :: ls) (.key key :: items)
  | array {key o t : Text} {vs : List Text} {ls : List Text} {items : List Item} (ho : Opens key o)
      (ht : Elements false vs t) :
      Document ls items → Document (lines (o ++ '[' :: t) ++ ls) (.key key :: items)

/-- No table is defined twice, and no key in a section; the first arguments are what is
defined so far. -/
def Once : List Text → List Text → List Item → Prop
  | _, _, [] => True
  | tables, _, .table name :: items => name ∉ tables ∧ Once (name :: tables) [] items
  | tables, _, .entry _ :: items => Once tables [] items
  | tables, keys, .key key :: items => key ∉ keys ∧ Once tables (key :: keys) items

def top : List Item → List Text
  | .key key :: items => key :: top items
  | _ => []

/-- A name is that of a table, of an array of tables or of a key of the top level, and of
one of them only. -/
structure Apart (items : List Item) : Prop where
  arrays : ∀ name, .table name ∈ items → .entry name ∉ items
  keys : ∀ key ∈ top items, .table key ∉ items ∧ .entry key ∉ items

def isControl (c : Char) : Bool := c.toNat < 32 || c.toNat == 127

/-- The characters of a TOML text: of the control characters only a tab and the ends of
lines, and only ASCII outside strings and comments. -/
structure Characters (src : Text) : Prop where
  control : ∀ c ∈ src, isControl c = true → c = '\t' ∨ c = '\n' ∨ c = '\r'
  lineEnd : ∀ a b, src = a ++ '\r' :: b → ['\n'] <+: b
  ascii : ∀ l ∈ lines src, ∀ a c b, stripComment l = a ++ c :: b →
    Quote.after .outside a = .outside → c.toNat < 128

def Subset (src : Text) : Prop :=
  Characters src ∧ ∃ items, Document (lines src) items ∧ Once [] [] items ∧ Apart items

/-- How a text is not repaired by taking its underscores out. -/
structure Spelled (s : Text) : Prop where
  first : ¬['_'] <+: (splitSign s).2
  last : ¬['_'] <:+ (splitSign s).2
  single : ¬['_', '_'] <:+: (splitSign s).2
  zero : ['0'] <+: (splitSign s).2 → (splitSign s).2 = ['0']

theorem isDigit_plain (hc : isDigit c = true) : c ≠ '-' ∧ c ≠ '+' ∧ c ≠ '_' ∧ isKeyChar c = true := by
  refine ⟨?_, ?_, ?_, ?_⟩
  · rintro rfl
    cases hc
  · rintro rfl
    cases hc
  · rintro rfl
    cases hc
  · simp [isKeyChar, hc]

theorem Digits.head (h : Digits d) : ∃ c rest, d = c :: rest ∧ isDigit c = true := by
  cases h with
  | one hc => exact ⟨_, _, rfl, hc⟩
  | more hc _ => exact ⟨_, _, rfl, hc⟩
  | group hc _ => exact ⟨_, _, rfl, hc⟩

theorem Digits.chars (h : Digits d) : ∀ c ∈ d, isKeyChar c = true := by
  induction h with
  | one hc => simpa using (isDigit_plain hc).2.2.2
  | more hc _ ih => exact List.forall_mem_cons.2 ⟨(isDigit_plain hc).2.2.2, ih⟩
  | group hc _ ih =>
    exact List.forall_mem_cons.2 ⟨(isDigit_plain hc).2.2.2, List.forall_mem_cons.2 ⟨by decide, ih⟩⟩

theorem Digits.first (h : Digits d) : ¬['_'] <+: d := by
  obtain ⟨c, rest, rfl, hc⟩ := h.head
  rw [List.cons_prefix_cons]
  exact fun h => (isDigit_plain hc).2.2.1 h.1.symm

theorem Digits.last (h : Digits d) : ¬['_'] <:+ d := by
  have hcons : ∀ {c : Char} {d : Text}, c ≠ '_' → ¬['_'] <:+ d → ¬['_'] <:+ c :: d := by
    intro c d hc hd hsuffix
    rcases List.suffix_cons_iff.1 hsuffix with heq | hsuffix
    · exact hc (List.cons.inj heq).1.symm
    · exact hd hsuffix
  induction h with
  | one hc => exact hcons (isDigit_plain hc).2.2.1 (by simp)
  | more hc _ ih => exact hcons (isDigit_plain hc).2.2.1 ih
  | group hc hd ih =>
    refine hcons (isDigit_plain hc).2.2.1 fun hsuffix => ?_
    rcases List.suffix_cons_iff.1 hsuffix with heq | hsuffix
    · obtain ⟨c, rest, rfl, -⟩ := hd.head
      cases heq
    · exact ih hsuffix

theorem Digits.single (h : Digits d) : ¬['_', '_'] <:+: d := by
  have hcons : ∀ {c : Char} {d : Text}, c ≠ '_' → ¬['_', '_'] <:+: d → ¬['_', '_'] <:+: c :: d := by
    intro c d hc hd hinfix
    rcases List.infix_cons_iff.1 hinfix with hprefix | hinfix
    · exact hc (List.cons_prefix_cons.1 hprefix).1.symm
    · exact hd hinfix
  induction h with
  | one hc => exact hcons (isDigit_plain hc).2.2.1 (by simp)
  | more hc _ ih => exact hcons (isDigit_plain hc).2.2.1 ih
  | group hc hd ih =>
    refine hcons (isDigit_plain hc).2.2.1 fun hinfix => ?_
    rcases List.infix_cons_iff.1 hinfix with hprefix | hinfix
    · exact hd.first (List.cons_prefix_cons.1 hprefix).2
    · exact ih hinfix

/-- Underscores that are neither first nor last nor next to each other stand between digits. -/
theorem digits_of_single (hchars : ∀ c ∈ d, isDigit c = true ∨ c = '_') (hne : d ≠ [])
    (hfirst : ¬['_'] <+: d) (hlast : ¬['_'] <:+ d) (hsingle : ¬['_', '_'] <:+: d) : Digits d := by
  generalize hn : d.length = n
  induction n using Nat.strongRecOn generalizing d with
  | ind n ih =>
    subst hn
    obtain ⟨c, rest, rfl⟩ := List.exists_cons_of_ne_nil hne
    obtain ⟨hc, hrest⟩ := List.forall_mem_cons.1 hchars
    have hdigit : isDigit c = true := hc.resolve_right fun heq => hfirst (by simp [heq])
    have hlast' : ¬['_'] <:+ rest := fun h => hlast (h.trans (List.suffix_cons c rest))
    have hsingle' : ¬['_', '_'] <:+: rest := fun h =>
      hsingle (h.trans (List.suffix_cons c rest).isInfix)
    by_cases hempty : rest = []
    · subst hempty
      exact .one hdigit
    · obtain ⟨next, more, rfl⟩ := List.exists_cons_of_ne_nil hempty
      by_cases hnext : next = '_'
      · subst hnext
        have hmore : more ≠ [] := by
          rintro rfl
          exact hlast' (List.suffix_refl _)
        refine .group hdigit (ih _ ?_ (List.forall_mem_cons.1 hrest).2 hmore (fun h => ?_)
          (fun h => ?_) (fun h => ?_) rfl)
        · simp only [List.length_cons]
          omega
        · exact hsingle' (List.infix_cons_iff.2 (.inl (List.cons_prefix_cons.2 ⟨rfl, h⟩)))
        · exact hlast' (h.trans (List.suffix_cons _ more))
        · exact hsingle' (h.trans (List.suffix_cons _ more).isInfix)
      · have hfirst' : ¬['_'] <+: next :: more := fun h =>
          hnext (List.cons_prefix_cons.1 h).1.symm
        exact .more hdigit (ih _ (Nat.lt_succ_self _) hrest hempty hfirst' hlast' hsingle' rfl)

theorem splitSign_of_plain (hc : c ≠ '-' ∧ c ≠ '+') (t : Text) :
    splitSign (c :: t) = (false, c :: t) := by
  rw [splitSign, if_neg hc.1, if_neg hc.2]

theorem Decimal.parts (h : Decimal s) :
    (∀ c ∈ s, isKeyChar c = true ∨ c = '+') ∧ s ≠ [] ∧ Spelled s := by
  obtain ⟨hsign, hd, hzero⟩ := h
  rename_i sign d
  obtain ⟨c, rest, rfl, hc⟩ := hd.head
  have hplain := isDigit_plain hc
  have hsplit : (splitSign (sign ++ c :: rest)).2 = c :: rest := by
    rcases hsign with rfl | rfl | rfl
    · rw [List.nil_append, splitSign_of_plain ⟨hplain.1, hplain.2.1⟩]
    · rfl
    · rfl
  refine ⟨fun e he => ?_, by simp, ⟨?_, ?_, ?_, ?_⟩⟩
  · rcases List.mem_append.1 he with he | he
    · rcases hsign with rfl | rfl | rfl
      · cases he
      · rw [List.mem_singleton.1 he]
        exact .inl rfl
      · exact .inr (List.mem_singleton.1 he)
    · exact .inl (hd.chars e he)
  · rw [hsplit]
    exact hd.first
  · rw [hsplit]
    exact hd.last
  · rw [hsplit]
    exact hd.single
  · rw [hsplit]
    exact hzero

theorem parseDigits_some (h : (parseDigits d).isSome) : d ≠ [] ∧ ∀ c ∈ d, isDigit c = true := by
  unfold parseDigits at h
  split_ifs at h with hne
  · cases h
  refine ⟨hne, ?_⟩
  clear hne
  generalize 0 = n at h
  induction d generalizing n with
  | nil => exact fun _ hc => absurd hc List.not_mem_nil
  | cons c rest ih =>
    rw [List.foldlM_cons] at h
    split_ifs at h with hc
    · exact List.forall_mem_cons.2 ⟨hc, ih _ h⟩
    · cases h

theorem parseInt_digits (h : (parseInt s).isSome) :
    (splitSign s).2 ≠ [] ∧ ∀ c ∈ (splitSign s).2, isDigit c = true := by
  refine parseDigits_some ?_
  unfold parseInt at h
  simp only at h
  obtain ⟨n, hn⟩ := Option.isSome_iff_exists.1 h
  obtain ⟨hmap, -⟩ := Option.filter_eq_some_iff.1 hn
  obtain ⟨m, hm, -⟩ := Option.map_eq_some_iff.1 hmap
  rw [hm]
  rfl

theorem decimal_of_spelled (h : (parseInt (s.filter (· ≠ '_'))).isSome) (hspelled : Spelled s) :
    Decimal s := by
  have hsign : ∃ sign, (sign = [] ∨ sign = ['-'] ∨ sign = ['+']) ∧ s = sign ++ (splitSign s).2 ∧
      (splitSign (s.filter (· ≠ '_'))).2 = (splitSign s).2.filter (· ≠ '_') := by
    cases s with
    | nil => exact ⟨[], .inl rfl, rfl, rfl⟩
    | cons c rest =>
      by_cases hminus : c = '-'
      · subst hminus
        exact ⟨['-'], .inr (.inl rfl), rfl, rfl⟩
      · by_cases hplus : c = '+'
        · subst hplus
          exact ⟨['+'], .inr (.inr rfl), rfl, rfl⟩
        · have hsplit := splitSign_of_plain ⟨hminus, hplus⟩
          have hunder : c ≠ '_' := by
            rintro rfl
            have hfirst := hspelled.first
            rw [hsplit] at hfirst
            exact hfirst (by simp)
          refine ⟨[], .inl rfl, by rw [hsplit]; rfl, ?_⟩
          rw [List.filter_cons_of_pos (by simpa using hunder), hsplit, hsplit,
            List.filter_cons_of_pos (by simpa using hunder)]
  obtain ⟨sign, hsign, heq, hfilter⟩ := hsign
  obtain ⟨hne, hdigits⟩ := parseInt_digits h
  rw [hfilter] at hne hdigits
  rw [heq]
  refine .mk hsign (digits_of_single (fun c hc => ?_) ?_ hspelled.first hspelled.last
    hspelled.single) hspelled.zero
  · by_cases hunder : c = '_'
    · exact .inr hunder
    · exact .inl (hdigits c (List.mem_filter.2 ⟨hc, by simpa using hunder⟩))
  · intro hnil
    rw [hnil] at hne
    exact hne rfl

/-- The key of a line and the text of its value. -/
def assigned (l : Text) : Option (Text × Text) :=
  match splitOnce ['='] (trimSpace (stripComment l)) with
  | none => none
  | some (before, after) =>
    if validTOMLKey (trimSpace before) then some (trimSpace before, trimSpace after) else none

def mark (l : Text) : Option Item :=
  let line := trimSpace (stripComment l)
  if ['[', '['] <+: line then some (.entry (trimSpace (between 2 line)))
  else if ['['] <+: line then some (.table (trimSpace (between 1 line)))
  else (assigned l).map fun e => .key e.1

/-- The strings of a line end on it, and its value is not repaired into an integer. -/
structure Clean (l : Text) : Prop where
  ends : Quote.after .outside (stripComment l) = .outside
  integer : ∀ key value, assigned l = some (key, value) →
    (parseInt (value.filter (· ≠ '_'))).isSome → Spelled value

theorem assigned_none (h : splitOnce ['='] (trimSpace (stripComment l)) = none) :
    assigned l = none := by
  unfold assigned
  rw [h]

theorem clean_of_none (hends : Quote.after .outside (stripComment l) = .outside)
    (hnone : assigned l = none) : Clean l := by
  refine ⟨hends, fun key value h => ?_⟩
  rw [hnone] at h
  cases h

theorem assigns_assigned {y : Text} (h : Assigns key y (trimSpace (stripComment l))) :
    assigned l = some (key, y) ∧ mark l = some (.key key) := by
  obtain ⟨before, after, hsplit, hbefore, hafter⟩ := h.split
  have hassigned : assigned l = some (key, y) := by
    unfold assigned
    rw [hsplit]
    simp only [hbefore, hafter, h.valid, if_true]
  have htwo : ¬['[', '['] <+: trimSpace (stripComment l) := fun hp =>
    h.opened (List.IsPrefix.trans (by simp) hp)
  refine ⟨hassigned, ?_⟩
  unfold mark
  simp only [if_neg htwo, if_neg h.opened, hassigned, Option.map_some]

theorem tight_of_all {p : Char → Bool} (h : ∀ c ∈ s, p c = false) : Tight p s :=
  ⟨fun c hc => h c (List.mem_of_mem_head? hc), fun c hc => h c (List.mem_of_mem_getLast? hc)⟩

theorem parseInt_head (hc : isDigit c = false) (hminus : c ≠ '-') (hplus : c ≠ '+') (t : Text) :
    ¬(parseInt (c :: t)).isSome := by
  intro h
  have hdigits := (parseInt_digits h).2
  rw [splitSign_of_plain ⟨hminus, hplus⟩] at hdigits
  have hdigit := hdigits c List.mem_cons_self
  rw [hc] at hdigit
  cases hdigit

structure ScalarParts (s : Text) : Prop where
  quiet : Quiet s
  tight : Tight isSpace s
  ne : s ≠ []
  integer : (parseInt (s.filter (· ≠ '_'))).isSome → Spelled s

theorem Scalar.parts (h : Scalar s) : ScalarParts s := by
  cases h with
  | string hliteral =>
    refine ⟨hliteral.quiet, (tight_literal hliteral).1, (tight_literal hliteral).2, fun h => ?_⟩
    obtain ⟨hinner⟩ := hliteral
    rw [List.filter_cons_of_pos (by decide)] at h
    exact absurd h (parseInt_head rfl (by decide) (by decide) _)
  | integer hdecimal =>
    obtain ⟨hchars, hne, hspelled⟩ := hdecimal.parts
    have hplain : ∀ c ∈ s, isSpace c = false ∧ c ≠ '"' ∧ c ≠ '#' ∧ c ≠ ']' := by
      intro c hc
      rcases hchars c hc with hkey | rfl
      · obtain ⟨hspace, hquote, hhash, hbracket, -⟩ := isKeyChar_plain hkey
        exact ⟨hspace, hquote, hhash, hbracket⟩
      · exact ⟨rfl, by decide, by decide, by decide⟩
    exact ⟨quiet_of_plain fun c hc => (hplain c hc).2, tight_of_all fun c hc => (hplain c hc).1, hne,
      fun _ => hspelled⟩
  | yes =>
    refine ⟨quiet_of_plain (by simp), tight_of_all (by simp [isSpace]), List.cons_ne_nil _ _,
      fun h => ?_⟩
    exact absurd h (parseInt_head rfl (by decide) (by decide) _)
  | no =>
    refine ⟨quiet_of_plain (by simp), tight_of_all (by simp [isSpace]), List.cons_ne_nil _ _,
      fun h => ?_⟩
    exact absurd h (parseInt_head rfl (by decide) (by decide) _)

theorem scalar_clean (ho : Opens key o) (hs : Scalar s) (ht : Trailer t) :
    Clean (o ++ (s ++ t)) ∧ mark (o ++ (s ++ t)) = some (.key key) := by
  obtain ⟨hquiet, htight, hne, hinteger⟩ := hs.parts
  obtain ⟨hspace, -⟩ := ht.strip
  have hstrip := hquiet.strip t
  obtain ⟨hassigned, hmark⟩ :=
    assigns_assigned (opens_assigns ho htight hne hspace hstrip)
  refine ⟨⟨?_, fun key' value h hint => ?_⟩, hmark⟩
  · rw [ho.quiet.strip, hstrip, after_append, ho.quiet.after, after_append, hquiet.after,
      (quiet_of_space hspace).after]
  · rw [hassigned] at h
    cases h
    exact hinteger hint

theorem after_unquoted (h : '"' ∉ s) : Quote.after .outside s = .outside := by
  induction s with
  | nil => rfl
  | cons c rest ih =>
    have hc : c ≠ '"' := (List.ne_of_not_mem_cons h).symm
    have hnext : Quote.next .outside c = .outside := if_neg hc
    rw [after_cons, hnext, ih (List.not_mem_of_not_mem_cons h)]

theorem strip_unquoted (h : '"' ∉ a) (hhash : '#' ∉ a) (b : Text) :
    stripComment (a ++ b) = a ++ stripComment b := by
  induction a with
  | nil => rfl
  | cons c rest ih =>
    have hc : c ≠ '"' := (List.ne_of_not_mem_cons h).symm
    have hc' : c ≠ '#' := (List.ne_of_not_mem_cons hhash).symm
    have hnext : Quote.next .outside c = .outside := if_neg hc
    have hrest := ih (List.not_mem_of_not_mem_cons h) (List.not_mem_of_not_mem_cons hhash)
    unfold stripComment at hrest ⊢
    rw [List.cons_append, stripFrom, if_neg fun h => hc' h.2, hnext, hrest]
    rfl

theorem between_append {n : Nat} {p k : Text} (hp : p.length = n) (hs : s.length = n) :
    between n (p ++ (k ++ s)) = k := by
  unfold between
  have htake : (p ++ (k ++ s)).length - n = (p ++ k).length := by
    simp only [List.length_append]
    omega
  rw [htake, ← List.append_assoc, List.take_left, ← hp, List.drop_left]

theorem name_plain {before after : Text} (hname : validTOMLKey name = true)
    (hbefore : All isBlank before) (hafter : All isBlank after) :
    ∀ c ∈ before ++ (name ++ after), c ≠ '"' ∧ c ≠ '#' ∧ c ≠ '=' ∧ c ≠ '[' := by
  have hblank : ∀ {b : Text}, All isBlank b → ∀ c ∈ b, c ≠ '"' ∧ c ≠ '#' ∧ c ≠ '=' ∧ c ≠ '[' := by
    intro b hb c hc
    have hspace := isSpace_of_blank (hb c hc)
    exact ⟨not_space_of_quiet rfl hspace, not_space_of_quiet rfl hspace,
      not_space_of_quiet rfl hspace, not_space_of_quiet rfl hspace⟩
  intro c hc
  rcases List.mem_append.1 hc with hc | hc
  · exact hblank hbefore c hc
  · rcases List.mem_append.1 hc with hc | hc
    · obtain ⟨-, hquote, hhash, -, hopen, hequals, -⟩ :=
        isKeyChar_plain ((validTOMLKey_iff.1 hname).2 c hc)
      exact ⟨hquote, hhash, hequals, hopen⟩
    · exact hblank hafter c hc

theorem bracket_clean (n : Nat) {k : Text} (hk : ∀ c ∈ k, c ≠ '"' ∧ c ≠ '#' ∧ c ≠ '=' ∧ c ≠ '[')
    (ha : All isBlank a) (ht : Trailer t) {p s : Text} (hp : p = List.replicate (n + 1) '[')
    (hs : s = List.replicate (n + 1) ']') :
    Clean (a ++ (p ++ (k ++ s) ++ t)) ∧
      trimSpace (stripComment (a ++ (p ++ (k ++ s) ++ t))) = p ++ (k ++ s) := by
  obtain ⟨hspace, -⟩ := ht.strip
  have hplain : ∀ c ∈ p ++ (k ++ s), c ≠ '"' ∧ c ≠ '#' ∧ c ≠ '=' := by
    intro c hc
    rcases List.mem_append.1 hc with hc | hc
    · rw [hp] at hc
      rw [List.eq_of_mem_replicate hc]
      decide
    · rcases List.mem_append.1 hc with hc | hc
      · obtain ⟨hquote, hhash, hequals, -⟩ := hk c hc
        exact ⟨hquote, hhash, hequals⟩
      · rw [hs] at hc
        rw [List.eq_of_mem_replicate hc]
        decide
  have hquote : '"' ∉ p ++ (k ++ s) := fun hmem => (hplain _ hmem).1 rfl
  have hhash : '#' ∉ p ++ (k ++ s) := fun hmem => (hplain _ hmem).2.1 rfl
  have hequals : '=' ∉ p ++ (k ++ s) := fun hmem => (hplain _ hmem).2.2 rfl
  have hstrip : stripComment (a ++ (p ++ (k ++ s) ++ t)) = a ++ (p ++ (k ++ s)) ++ stripComment t := by
    rw [(quiet_blank ha).strip, strip_unquoted hquote hhash, List.append_assoc a]
  have htight : Tight isSpace (p ++ (k ++ s)) := by
    rw [hs, List.replicate_succ', ← List.append_assoc, ← List.append_assoc]
    refine tight_append (fun c hc => ?_) ?_ rfl
    · rw [hp, List.replicate_succ] at hc
      cases hc
      rfl
    · rw [hp, List.replicate_succ]
      exact List.cons_ne_nil _ _
  have htrim : trimSpace (stripComment (a ++ (p ++ (k ++ s) ++ t))) = p ++ (k ++ s) := by
    rw [hstrip]
    exact trim_append (all_space_of_blank ha) htight hspace
  refine ⟨clean_of_none ?_ (assigned_none ?_), htrim⟩
  · rw [hstrip, after_append, after_append, (quiet_blank ha).after, after_unquoted hquote,
      (quiet_of_space hspace).after]
  · rw [htrim]
    exact splitOnce_none hequals

theorem header_clean {item : Item} (h : Header item l) : Clean l ∧ mark l = some item := by
  have htrimmed : ∀ {before name after : Text}, validTOMLKey name = true → All isBlank before →
      All isBlank after → trimSpace (before ++ (name ++ after)) = name := by
    intro before name after hname hbefore hafter
    rw [← List.append_assoc]
    exact trim_append (all_space_of_blank hbefore) (tight_key hname) (all_space_of_blank hafter)
  cases h with
  | table hname hindent hbefore hafter ht =>
    rename_i name indent before after t
    have hplain := name_plain hname hbefore hafter
    have htext : indent ++ '[' :: (before ++ (name ++ (after ++ ']' :: t))) =
        indent ++ (['['] ++ ((before ++ (name ++ after)) ++ [']']) ++ t) := by
      simp
    obtain ⟨hclean, hline⟩ := bracket_clean 0 hplain hindent ht (p := ['[']) (s := [']']) rfl rfl
    have htwo : ¬['[', '['] <+: ['['] ++ ((before ++ (name ++ after)) ++ [']']) := by
      rintro ⟨m, hm⟩
      obtain ⟨c, rest, hk⟩ : ∃ c rest, before ++ (name ++ after) = c :: rest :=
        List.exists_cons_of_ne_nil (by simp [(validTOMLKey_iff.1 hname).1])
      rw [hk] at hm hplain
      exact (hplain c List.mem_cons_self).2.2.2 (List.cons.inj (List.cons.inj hm).2).1.symm
    rw [htext]
    refine ⟨hclean, ?_⟩
    unfold mark
    simp only [hline, if_neg htwo, List.prefix_append, if_true]
    have hbetween : between 1 (['['] ++ ((before ++ (name ++ after)) ++ [']'])) = _ :=
      between_append rfl rfl
    rw [hbetween, htrimmed hname hbefore hafter]
  | entry hname hindent hbefore hafter ht =>
    rename_i name indent before after t
    have hplain := name_plain hname hbefore hafter
    have htext : indent ++ '[' :: '[' :: (before ++ (name ++ (after ++ ']' :: ']' :: t))) =
        indent ++ (['[', '['] ++ ((before ++ (name ++ after)) ++ [']', ']']) ++ t) := by
      simp
    obtain ⟨hclean, hline⟩ :=
      bracket_clean 1 hplain hindent ht (p := ['[', '[']) (s := [']', ']']) rfl rfl
    rw [htext]
    refine ⟨hclean, ?_⟩
    unfold mark
    simp only [hline, List.prefix_append, if_true]
    have hbetween : between 2 (['[', '['] ++ ((before ++ (name ++ after)) ++ [']', ']'])) = _ :=
      between_append rfl rfl
    rw [hbetween, htrimmed hname hbefore hafter]

theorem trailer_clean (h : Trailer l) : Clean l ∧ mark l = none := by
  obtain ⟨hspace, -⟩ := h.strip
  have hline : trimSpace (stripComment l) = [] := trim_eq_nil hspace
  have hnone : assigned l = none := assigned_none (hline.symm ▸ rfl)
  refine ⟨clean_of_none (quiet_of_space hspace).after hnone, ?_⟩
  unfold mark
  simp only [hline, hnone]
  simp

/-- A line in an array: its strings end on it, and it starts with what no key starts with. -/
structure Interior (l : Text) : Prop where
  ends : Quote.after .outside (stripComment l) = .outside
  start : ∀ c ∈ (trimSpace (stripComment l)).head?, c = '"' ∨ c = ',' ∨ c = ']'

theorem Interior.blank (h : Interior l) (ha : All isBlank a) : Interior (a ++ l) where
  ends := by rw [(quiet_blank ha).strip, after_append, (quiet_blank ha).after, h.ends]
  start := by
    have htrim : trimSpace (a ++ stripComment l) = trimSpace (stripComment l) :=
      trim_left (all_space_of_blank ha) _
    rw [(quiet_blank ha).strip, htrim]
    exact h.start

theorem interior_token (h : Quote.after .outside (stripComment l) = .outside)
    (hstrip : stripComment (c :: a ++ l) = c :: a ++ stripComment l)
    (hafter : Quote.after .outside (c :: a) = .outside) (htight : Tight isSpace (c :: a))
    (hc : c = '"' ∨ c = ',' ∨ c = ']') : Interior (c :: a ++ l) := by
  refine ⟨by rw [hstrip, after_append, hafter, h], fun d hd => ?_⟩
  have htrim : trimSpace (c :: a ++ stripComment l) = _ :=
    trim_token htight (List.cons_ne_nil c a) (stripComment l)
  rw [hstrip, htrim] at hd
  cases hd
  exact hc

theorem interior_trailer (h : Trailer l) : Interior l := by
  obtain ⟨hspace, -⟩ := h.strip
  have hline : trimSpace (stripComment l) = [] := trim_eq_nil hspace
  refine ⟨(quiet_of_space hspace).after, fun c hc => ?_⟩
  rw [hline] at hc
  cases hc

theorem elements_interior (h : Elements e vs t) : ∀ l ∈ lines t, Interior l := by
  induction h with
  | @blank e vs c t hc _ ih =>
    obtain ⟨l, ls, ht⟩ := lines_cons t
    rw [ht] at ih
    obtain ⟨hl, hls⟩ := List.forall_mem_cons.1 ih
    have hblank : All isBlank [c] := by simpa [All] using hc
    have hlines : lines ([c] ++ t) = ([c] ++ l) :: ls :=
      lines_append (not_newline_of_blank hblank) ht
    rw [List.singleton_append] at hlines
    rw [hlines]
    exact List.forall_mem_cons.2 ⟨hl.blank hblank, hls⟩
  | @newline e vs t _ ih =>
    rw [lines_newline]
    exact List.forall_mem_cons.2 ⟨interior_trailer (.blank All.nil), ih⟩
  | @comment e vs c t hc _ ih =>
    have hline : '\n' ∉ '#' :: c := by simpa using hc
    rw [← List.cons_append, lines_append_newline hline]
    exact List.forall_mem_cons.2 ⟨interior_trailer (.comment (b := []) All.nil hc), ih⟩
  | @element vs v s t hliteral _ ih =>
    obtain ⟨l, ls, ht⟩ := lines_cons t
    rw [ht] at ih
    obtain ⟨hl, hls⟩ := List.forall_mem_cons.1 ih
    rw [lines_append hliteral.line ht]
    have hquiet := hliteral.quiet
    have htight := (tight_literal hliteral).1
    obtain ⟨hinner⟩ := hliteral
    exact List.forall_mem_cons.2
      ⟨interior_token hl.ends (hquiet.strip l) hquiet.after htight (.inl rfl), hls⟩
  | @comma vs t _ ih =>
    obtain ⟨l, ls, ht⟩ := lines_cons t
    rw [ht] at ih
    obtain ⟨hl, hls⟩ := List.forall_mem_cons.1 ih
    have hquiet : Quiet [','] := quiet_cons (by decide) (by decide) (by decide) quiet_nil
    have hlines : lines ([','] ++ t) = ([','] ++ l) :: ls := lines_append (by decide) ht
    rw [List.singleton_append] at hlines
    rw [hlines]
    exact List.forall_mem_cons.2
      ⟨interior_token hl.ends (hquiet.strip l) rfl (tight_single rfl) (.inr (.inl rfl)), hls⟩
  | @close e t ht =>
    obtain ⟨hspace, hline⟩ := ht.strip
    rw [lines_single (by simpa using hline)]
    exact List.forall_mem_singleton.2
      (interior_token (quiet_of_space hspace).after rfl rfl (tight_single rfl) (.inr (.inr rfl)))

theorem interior_clean (h : Interior l) : Clean l ∧ mark l = none := by
  have hnone : assigned l = none := by
    unfold assigned
    cases hsplit : splitOnce ['='] (trimSpace (stripComment l)) with
    | none => rfl
    | some halves =>
      obtain ⟨before, after⟩ := halves
      have hline := splitOnce_eq hsplit
      simp only
      split_ifs with hkey
      · exfalso
        obtain ⟨hne, hchars⟩ := validTOMLKey_iff.1 hkey
        obtain ⟨c, key, hcons⟩ := List.exists_cons_of_ne_nil hne
        obtain ⟨a, b, ha, -, hbefore⟩ := trim_spec isSpace before
        have htight := trim_tight isSpace (stripComment l)
        unfold trimSpace at hcons hline
        rw [hcons] at hbefore
        -- the line is trimmed, so the key is at its start
        have hstart : c ∈ (trim isSpace (stripComment l)).head? := by
          cases a with
          | nil =>
            rw [hline, hbefore]
            rfl
          | cons d a =>
            have hspace := (all_cons.1 ha).1
            rw [htight.first d (by rw [hline, hbefore]; rfl)] at hspace
            cases hspace
        have hkeychar := hchars c (by unfold trimSpace; rw [hcons]; exact List.mem_cons_self)
        rcases h.start c hstart with rfl | rfl | rfl
        all_goals cases hkeychar
      · rfl
  refine ⟨clean_of_none h.ends hnone, ?_⟩
  have hopen : ¬['['] <+: trimSpace (stripComment l) := by
    rintro ⟨m, hm⟩
    have hstart := h.start '[' (by rw [← hm]; rfl)
    revert hstart
    decide
  have htwo : ¬['[', '['] <+: trimSpace (stripComment l) := fun h =>
    hopen (List.IsPrefix.trans (by simp) h)
  unfold mark
  simp only [if_neg htwo, if_neg hopen, hnone, Option.map_none]

theorem array_clean (ho : Opens key o) (hends : Quote.after .outside (stripComment l) = .outside) :
    Clean (o ++ '[' :: l) ∧ mark (o ++ '[' :: l) = some (.key key) := by
  obtain ⟨post, hpost, hstrip, htight⟩ := strip_array l
  have hopen : Quiet ['['] := quiet_cons (by decide) (by decide) (by decide) quiet_nil
  have hfirst : stripComment ('[' :: l) = '[' :: stripComment l := hopen.strip l
  obtain ⟨hassigned, hmark⟩ :=
    assigns_assigned (opens_assigns ho htight (List.cons_ne_nil _ _) hpost hstrip)
  refine ⟨⟨?_, fun key' value h hint => ?_⟩, hmark⟩
  · rw [ho.quiet.strip, hfirst, after_append, ho.quiet.after]
    exact hends
  · rw [hassigned] at h
    cases h
    rw [List.filter_cons_of_pos (by decide)] at hint
    exact absurd hint (parseInt_head rfl (by decide) (by decide) _)

/-- The lines of a document are clean, and define what the document does. -/
theorem Document.clean {items : List Item} (h : Document ls items) :
    (∀ l ∈ ls, Clean l) ∧ ls.filterMap mark = items := by
  induction h with
  | nil => exact ⟨fun _ hl => absurd hl List.not_mem_nil, rfl⟩
  | blank hl _ ih =>
    obtain ⟨hclean, hmark⟩ := trailer_clean hl
    exact ⟨List.forall_mem_cons.2 ⟨hclean, ih.1⟩, by rw [List.filterMap_cons_none hmark, ih.2]⟩
  | header hl _ ih =>
    obtain ⟨hclean, hmark⟩ := header_clean hl
    exact ⟨List.forall_mem_cons.2 ⟨hclean, ih.1⟩, by rw [List.filterMap_cons_some hmark, ih.2]⟩
  | scalar ho hs ht _ ih =>
    obtain ⟨hclean, hmark⟩ := scalar_clean ho hs ht
    exact ⟨List.forall_mem_cons.2 ⟨hclean, ih.1⟩, by rw [List.filterMap_cons_some hmark, ih.2]⟩
  | array ho ht _ ih =>
    rename_i key o t vs ls items _
    have hinterior := elements_interior ht
    obtain ⟨l, rest, hlines⟩ := lines_cons t
    rw [hlines] at hinterior
    obtain ⟨hl, hrest⟩ := List.forall_mem_cons.1 hinterior
    obtain ⟨hclean, hmark⟩ := array_clean ho hl.ends
    have hnone : rest.filterMap mark = [] :=
      List.filterMap_eq_nil_iff.2 fun m hm => (interior_clean (hrest m hm)).2
    rw [lines_array ho hlines, List.cons_append]
    refine ⟨List.forall_mem_cons.2 ⟨hclean, fun m hm => ?_⟩, ?_⟩
    · rcases List.mem_append.1 hm with hm | hm
      · exact (interior_clean (hrest m hm)).1
      · exact ih.1 m hm
    · rw [List.filterMap_cons_some hmark, List.filterMap_append, hnone, List.nil_append, ih.2]

end Lobbylink.Config.Grammar
