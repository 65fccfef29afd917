import Lobbylink.Config.Documents
import Lobbylink.Config.Grammar

/-! When a text that the parser accepts is a document of the subset. -/
namespace Lobbylink.Config.Soundness
open Lib.Scan Lib.Trim Lib.Dict Toml Layout Arrays Reading Documents Grammar

variable {p p' : Parser} {b l s name key : Text} {ls tables keys : List Text}

theorem blank_ok (hline : '\n' ∉ l) (h : trimSpace (stripComment l) = []) : Trailer l := by
  obtain ⟨a, b, ha, hb, hl⟩ := line_parts hline
  rw [h, List.nil_append] at hl
  rw [hl]
  exact trailer_blanks ha hb

theorem between_split {n : Nat} {a : Text} (ha : a <+: s) (hb : b <:+ s) (hna : a.length = n)
    (hnb : b.length = n) (hne : between n s ≠ []) : s = a ++ (between n s ++ b) := by
  obtain ⟨m, rfl⟩ := ha
  have hlong : n + n < (a ++ m).length := by
    have hpos := List.length_pos_iff.2 hne
    unfold between at hpos
    rw [List.length_drop, List.length_take] at hpos
    omega
  have hshort : b.length ≤ m.length := by
    rw [List.length_append] at hlong
    omega
  obtain ⟨k, rfl⟩ := List.suffix_of_suffix_length_le hb (List.suffix_append a m) hshort
  rw [between_append hna hnb]

theorem name_parts {n : Nat} {a : Text} (hline : '\n' ∉ s) (ha : a <+: s) (hb : b <:+ s)
    (hna : a.length = n) (hnb : b.length = n) (hname : trimSpace (between n s) = name)
    (hvalid : validTOMLKey name = true) :
    ∃ before after, All isBlank before ∧ All isBlank after ∧
      s = a ++ (before ++ (name ++ (after ++ b))) := by
  have hne : between n s ≠ [] := by
    intro hnil
    rw [hnil] at hname
    exact (validTOMLKey_iff.1 hvalid).1 hname.symm
  have hsplit := between_split ha hb hna hnb hne
  obtain ⟨before, after, hbefore, hafter, heq⟩ := trim_spec isSpace (between n s)
  unfold trimSpace at hname
  rw [hname] at heq
  rw [heq] at hsplit
  have hmem : ∀ c ∈ a ++ (before ++ name ++ after ++ b), c ≠ '\n' := by
    rw [← hsplit]
    exact fun c hc h => hline (h ▸ hc)
  refine ⟨before, after, all_blank_of_space hbefore fun h => hmem _ (by simp [h]) rfl,
    all_blank_of_space hafter fun h => hmem _ (by simp [h]) rfl, ?_⟩
  rw [hsplit]
  simp

theorem entry_ok (hline : '\n' ∉ l) (hopen : ['[', '['] <+: trimSpace (stripComment l))
    (hend : [']', ']'] <:+ trimSpace (stripComment l))
    (hname : trimSpace (between 2 (trimSpace (stripComment l))) = name)
    (hvalid : validTOMLKey name = true) : Header (.entry name) l := by
  obtain ⟨a, b, ha, hb, hl⟩ := line_parts hline
  have hinner : '\n' ∉ trimSpace (stripComment l) := fun h => hline (by rw [hl]; simp [h])
  obtain ⟨before, after, hbefore, hafter, hs⟩ := name_parts hinner hopen hend rfl rfl hname hvalid
  rw [hl, hs]
  simpa using Header.entry hvalid ha hbefore hafter hb

theorem table_ok (hline : '\n' ∉ l) (hopen : ['['] <+: trimSpace (stripComment l))
    (hend : [']'] <:+ trimSpace (stripComment l))
    (hname : trimSpace (between 1 (trimSpace (stripComment l))) = name)
    (hvalid : validTOMLKey name = true) : Header (.table name) l := by
  obtain ⟨a, b, ha, hb, hl⟩ := line_parts hline
  have hinner : '\n' ∉ trimSpace (stripComment l) := fun h => hline (by rw [hl]; simp [h])
  obtain ⟨before, after, hbefore, hafter, hs⟩ := name_parts hinner hopen hend rfl rfl hname hvalid
  rw [hl, hs]
  simpa using Header.table hvalid ha hbefore hafter hb

theorem parseScalar_ok {value : Value} (hline : '\n' ∉ s) (h : parseScalar s = .ok value)
    (hspelled : (parseInt (s.filter (· ≠ '_'))).isSome → Spelled s) :
    ∃ m b, s = m ++ b ∧ All isSpace b ∧ Scalar m := by
  unfold parseScalar at h
  split_ifs at h with hquote htrue hfalse
  · cases hstring : parseBasicString s with
    | error fault =>
      rw [hstring] at h
      cases h
    | ok result =>
      obtain ⟨v, remain⟩ := result
      rw [hstring] at h
      simp only at h
      split_ifs at h with hremain
      obtain ⟨m, rfl, hliteral⟩ := parseBasicString_ok hline hstring
      obtain ⟨a, b, ha, hb, heq⟩ := trim_spec isSpace remain
      unfold trimSpace at hremain
      rw [not_not.1 hremain, List.append_nil] at heq
      exact ⟨m, remain, rfl, heq ▸ all_append.2 ⟨ha, hb⟩, .string hliteral⟩
  · exact ⟨s, [], (List.append_nil s).symm, All.nil, htrue ▸ .yes⟩
  · exact ⟨s, [], (List.append_nil s).symm, All.nil, hfalse ▸ .no⟩
  · cases hint : parseInt (s.filter (· ≠ '_')) with
    | none =>
      rw [hint] at h
      cases h
    | some n =>
      have hsome : (parseInt (s.filter (· ≠ '_'))).isSome := by rw [hint]; rfl
      exact ⟨s, [], (List.append_nil s).symm, All.nil,
        .integer (decimal_of_spelled hsome (hspelled hsome))⟩

theorem opens_ok {before after : Text} (hline : '\n' ∉ l)
    (h : trimSpace (stripComment l) = before ++ '=' :: after) (hkey : trimSpace before = key)
    (hvalid : validTOMLKey key = true) :
    ∃ o post, Opens key o ∧ All isSpace post ∧ stripComment l = o ++ (trimSpace after ++ post) := by
  obtain ⟨a, b, ha, hb, hl⟩ := trim_spec isSpace (stripComment l)
  obtain ⟨c, d, hc, hd, hbefore⟩ := trim_spec isSpace before
  obtain ⟨e, f, he, hf, hafter⟩ := trim_spec isSpace after
  unfold trimSpace at h hkey ⊢
  rw [h] at hl
  rw [hkey] at hbefore
  have hparts : stripComment l =
      ((a ++ c) ++ (key ++ (d ++ '=' :: e))) ++ (trim isSpace after ++ (f ++ b)) := by
    conv_lhs => rw [hl, hbefore, hafter]
    simp
  obtain ⟨m, hm, -⟩ := strip_take (q := .outside) (hparts.trans (List.append_assoc _ _ _).symm |>.trans
    (List.append_nil _).symm)
  have hmem : ∀ x ∈ (a ++ c) ++ (key ++ (d ++ '=' :: e)), x ≠ '\n' := by
    intro x hx heq
    refine hline ?_
    rw [hm, ← heq]
    exact List.mem_append_left _ (List.mem_append_left _ (List.mem_append_left _ hx))
  refine ⟨_, f ++ b, .mk hvalid (all_blank_of_space (all_append.2 ⟨ha, hc⟩) ?_)
    (all_blank_of_space hd ?_) (all_blank_of_space he ?_), all_append.2 ⟨hf, hb⟩, hparts⟩
  · exact fun h => hmem _ (List.mem_append_left _ h) rfl
  · exact fun h => hmem _ (by simp [h]) rfl
  · exact fun h => hmem _ (by simp [h]) rfl

theorem array_ok {o x post : Text} {vs : List Text} {ahead : Nat} (ho : Opens key o)
    (hpost : All isSpace post) (hstrip : stripComment l = o ++ ('[' :: x ++ post))
    (hlines : ∀ m ∈ l :: ls, '\n' ∉ m)
    (hends : ∀ m ∈ l :: ls, Quote.after .outside (stripComment m) = .outside)
    (h : parseArray ('[' :: x) ls = .ok (vs, ahead)) :
    ∃ taken below, ls = taken ++ below ∧ taken.length = ahead ∧
      ∀ items, Document below items → Document (l :: ls) (.key key :: items) := by
  have hbracket : stripComment l = (o ++ ['[']) ++ (x ++ post) := by
    rw [hstrip]
    simp
  obtain ⟨m, rfl, hrest⟩ := strip_take hbracket
  have hopen : Quiet (o ++ ['[']) :=
    ho.quiet.append (quiet_cons (by decide) (by decide) (by decide) quiet_nil)
  rw [hopen.after] at hrest
  have hstripped : stripComment m = x ++ post := hrest
  obtain ⟨hfirst, hbelow⟩ := List.forall_mem_cons.1 hends
  obtain ⟨hline, hlines⟩ := List.forall_mem_cons.1 hlines
  rw [hopen.strip, after_append, hopen.after] at hfirst
  have hm : '\n' ∉ m := fun h => hline (List.mem_append_right _ h)
  obtain ⟨taken, below, rfl, hlength, helements⟩ := parseArray_ok h hstripped hpost
    (List.forall_mem_cons.2 ⟨hfirst, hbelow⟩) (List.forall_mem_cons.2 ⟨hm, hlines⟩)
  refine ⟨taken, below, rfl, hlength, fun items hdocument => ?_⟩
  have hall : lines (o ++ '[' :: (m ++ stacked taken)) = (o ++ ['['] ++ m) :: taken := by
    have hstacked := lines_stacked hline fun m hm => hlines m (List.mem_append_left _ hm)
    simpa using hstacked
  rw [← List.cons_append, ← hall]
  exact .array ho helements hdocument

theorem scalar_ok {o y post : Text} {value : Value} (ho : Opens key o) (hpost : All isSpace post)
    (hstrip : stripComment l = o ++ (y ++ post)) (hline : '\n' ∉ l) (h : parseScalar y = .ok value)
    (hspelled : (parseInt (y.filter (· ≠ '_'))).isSome → Spelled y) :
    ∀ items, Document ls items → Document (l :: ls) (.key key :: items) := by
  have hy : '\n' ∉ y := by
    rw [← List.append_assoc] at hstrip
    obtain ⟨m, rfl, -⟩ := strip_take hstrip
    exact fun h => hline (List.mem_append_left m (List.mem_append_right o h))
  obtain ⟨m, b, rfl, hb, hscalar⟩ := parseScalar_ok hy h hspelled
  have hparts : stripComment l = (o ++ m) ++ (b ++ post) := by
    rw [hstrip]
    simp
  obtain ⟨t, rfl, ht⟩ := strip_take hparts
  have htrailer : Trailer t := by
    have hspace := all_append.2 ⟨hb, hpost⟩
    rw [← ht] at hspace
    exact strip_trailer (fun h => hline (List.mem_append_right _ h)) hspace
  intro items hdocument
  rw [List.append_assoc]
  exact .scalar ho hscalar htrailer hdocument

theorem value_ok {before after : Text} {value : Value} {ahead : Nat}
    (hlines : ∀ m ∈ l :: ls, '\n' ∉ m) (hclean : ∀ m ∈ l :: ls, Clean m)
    (h : trimSpace (stripComment l) = before ++ '=' :: after)
    (hsplit : splitOnce ['='] (trimSpace (stripComment l)) = some (before, after))
    (hkey : trimSpace before = key) (hvalid : validTOMLKey key = true)
    (hvalue : parseValue (trimSpace after) ls = .ok (value, ahead)) :
    ∃ taken below, ls = taken ++ below ∧ taken.length = ahead ∧
      ∀ items, Document below items → Document (l :: ls) (.key key :: items) := by
  have hline := hlines l List.mem_cons_self
  obtain ⟨o, post, ho, hpost, hstrip⟩ := opens_ok hline h hkey hvalid
  have hassigned : assigned l = some (key, trimSpace after) := by
    unfold assigned
    rw [hsplit]
    simp only [hkey, hvalid, if_true]
  unfold parseValue at hvalue
  split_ifs at hvalue with harray
  · cases hparse : parseArray (trimSpace after) ls with
    | error e =>
      rw [hparse] at hvalue
      cases hvalue
    | ok result =>
      rw [hparse] at hvalue
      cases hvalue
      obtain ⟨x, hx⟩ := harray
      rw [← hx] at hparse hstrip
      exact array_ok ho hpost hstrip hlines (fun m hm => (hclean m hm).ends) hparse
  · cases hparse : parseScalar (trimSpace after) with
    | error e =>
      rw [hparse] at hvalue
      cases hvalue
    | ok result =>
      rw [hparse] at hvalue
      cases hvalue
      exact ⟨[], ls, rfl, rfl, scalar_ok ho hpost hstrip hline hparse
        ((hclean l List.mem_cons_self).integer key _ hassigned)⟩

structure Known (tables keys : List Text) (p : Parser) : Prop where
  tables : ∀ name ∈ tables, (p.doc.tables.lookup name).isSome
  keys : ∀ key ∈ keys, (p.dest.lookup key).isSome

theorem Known.addKey {value : Value} (h : Known tables keys p) (hplaced : Placed p) :
    Known tables (key :: keys) (p.addKey key value) where
  tables := by
    intro name hname
    have hlookup := h.tables name hname
    unfold Parser.addKey
    cases p.arrayEntry with
    | some entry => exact hlookup
    | none => rwa [lookup_alter_isSome]
  keys := by
    intro key' hkey
    rw [(addKey_placed hplaced key value).1]
    rcases List.mem_cons.1 hkey with rfl | hkey
    · rw [lookup_concat]
      rfl
    · exact lookup_concat_isSome (h.keys key' hkey) key value

/-- A text of clean lines that the parser accepts is a document. -/
theorem lines_ok {line : Nat} {doc : Doc} (hwell : Well p) (hknown : Known tables keys p)
    (hlines : ∀ l ∈ ls, '\n' ∉ l) (hclean : ∀ l ∈ ls, Clean l)
    (h : parseLines 0 line p ls = .ok doc) :
    ∃ items, Document ls items ∧ Once tables keys items := by
  generalize hn : ls.length = n
  induction n using Nat.strongRecOn generalizing ls p line tables keys with
  | ind n ih =>
    subst hn
    cases ls with
    | nil => exact ⟨[], .nil, trivial⟩
    | cons l rest =>
      obtain ⟨p', ahead, htake, hrest⟩ := parseLines_cons h
      have hwell' := well_step hwell htake
      obtain ⟨hline, hlines'⟩ := List.forall_mem_cons.1 hlines
      obtain ⟨-, hclean'⟩ := List.forall_mem_cons.1 hclean
      cases takeLine_ok htake with
      | blank hblank =>
        obtain ⟨items, hdocument, honce⟩ :=
          ih _ (Nat.lt_succ_self _) hwell' hknown hlines' hclean' hrest rfl
        exact ⟨items, .blank (blank_ok hline hblank) hdocument, honce⟩
      | entry hopen hend hname hvalid =>
        rename_i name
        have hknown' : Known tables [] ⟨p.doc.addEntry name, [], some name⟩ :=
          ⟨hknown.tables, fun _ hkey => absurd hkey List.not_mem_nil⟩
        obtain ⟨items, hdocument, honce⟩ :=
          ih _ (Nat.lt_succ_self _) hwell' hknown' hlines' hclean' hrest rfl
        exact ⟨.entry name :: items, .header (entry_ok hline hopen hend hname hvalid) hdocument, honce⟩
      | table hopen _ hend hname hvalid hnew =>
        rename_i name hone
        have hknown' : Known (name :: tables) []
            ⟨{ p.doc with tables := p.doc.tables ++ [(name, [])] }, name, none⟩ := by
          refine ⟨fun name' hname' => ?_, fun _ hkey => absurd hkey List.not_mem_nil⟩
          rcases List.mem_cons.1 hname' with rfl | hname'
          · rw [lookup_concat]
            rfl
          · exact lookup_concat_isSome (hknown.tables name' hname') name []
        obtain ⟨items, hdocument, honce⟩ :=
          ih _ (Nat.lt_succ_self _) hwell' hknown' hlines' hclean' hrest rfl
        refine ⟨.table name :: items, .header (table_ok hline hopen hend hname hvalid) hdocument,
          fun hmem => ?_, honce⟩
        have hthere := hknown.tables name hmem
        rw [hnew] at hthere
        cases hthere
      | key hopen hparse hnew =>
        rename_i key value
        obtain ⟨before, after, heq, hsplit, hkey, hvalid, hvalue⟩ := parseKeyValue_ok hparse
        obtain ⟨taken, below, rfl, rfl, hmore⟩ :=
          value_ok hlines hclean heq hsplit hkey hvalid hvalue
        rw [parseLines_skip] at hrest
        have hshort : below.length < (l :: (taken ++ below)).length := by
          rw [List.length_cons, List.length_append]
          omega
        obtain ⟨items, hdocument, honce⟩ := ih _ hshort hwell' (hknown.addKey hwell.placed)
          (fun m hm => hlines' m (List.mem_append_right _ hm))
          (fun m hm => hclean' m (List.mem_append_right _ hm)) hrest rfl
        refine ⟨.key key :: items, hmore items hdocument, fun hmem => ?_, honce⟩
        have hthere := hknown.keys key hmem
        rw [hnew] at hthere
        cases hthere

/-- The texts that are not repaired on the way: each line's strings end on it, integers are
spelled as such, and names are used for one thing. -/
structure Regular (src : Text) : Prop where
  characters : Characters src
  clean : ∀ l ∈ lines src, Clean l
  apart : Apart ((lines src).filterMap mark)

/-- A text that the parser accepts is in the subset exactly if it is regular. -/
theorem subset_iff_regular {src : Text} {doc : Doc} (h : parseTOML src = .ok doc) :
    Subset src ↔ Regular src := by
  constructor
  · rintro ⟨hcharacters, items, hdocument, -, hapart⟩
    obtain ⟨hclean, hmarks⟩ := hdocument.clean
    exact ⟨hcharacters, hclean, hmarks.symm ▸ hapart⟩
  · rintro ⟨hcharacters, hclean, hapart⟩
    have hknown : Known [] [] Parser.new :=
      ⟨fun _ hname => absurd hname List.not_mem_nil, fun _ hkey => absurd hkey List.not_mem_nil⟩
    obtain ⟨items, hdocument, honce⟩ := lines_ok well_new hknown newline_of_lines hclean h
    exact ⟨hcharacters, items, hdocument, honce, hdocument.clean.2 ▸ hapart⟩

/-- An integer with an underscore, a table with an array over two lines, and an entry. -/
def mixedText : Text :=
  ['n', '=', '1', '_', '0', '\n', '[', 't', ']', '\n', 's', '=', '[', '"', 'x', '"', ',', '\n',
    '"', 'y', '"', ']', '\n', '[', '[', 'e', ']', ']']

theorem subset_iff_regular_mixed :
    parseTOML mixedText = .ok ⟨[([], [(['n'], .int 10)]), (['t'], [(['s'], .strs [['x'], ['y']])])],
      [(['e'], [[]])]⟩ ∧ Subset mixedText := by
  have hread : parseTOML mixedText = .ok ⟨[([], [(['n'], .int 10)]),
      (['t'], [(['s'], .strs [['x'], ['y']])])], [(['e'], [[]])]⟩ := rfl
  have hascii : ((lines mixedText).all fun l =>
      (stripComment l).all fun c => decide (c.toNat < 128)) = true := rfl
  have hends : ∀ l ∈ lines mixedText, Quote.after .outside (stripComment l) = .outside := by
    decide +kernel
  have hmarks : (lines mixedText).filterMap mark =
      [.key ['n'], .table ['t'], .key ['s'], .entry ['e']] := rfl
  have hcontrol : (mixedText.all fun c => !isControl c || c == '\n') = true := rfl
  refine ⟨hread, (subset_iff_regular hread).2 ⟨⟨fun c hc hcontrols => ?_, fun a b h => ?_, fun l hl a c b h _ => ?_⟩,
    fun l hl => ⟨hends l hl, ?_⟩, ?_⟩⟩
  · have hplain := List.all_eq_true.1 hcontrol c hc
    rw [hcontrols] at hplain
    exact .inr (.inl (by simpa using hplain))
  · have hreturn : '\r' ∉ mixedText := by decide
    exact absurd (h ▸ List.mem_append_right a List.mem_cons_self) hreturn
  · have hmem : c ∈ stripComment l := h ▸ List.mem_append_right a List.mem_cons_self
    exact of_decide_eq_true (List.all_eq_true.1 (List.all_eq_true.1 hascii l hl) c hmem)
  · have hassigned : ∀ l ∈ lines mixedText, ∀ e ∈ assigned l,
        (parseInt (e.2.filter (· ≠ '_'))).isSome → e.2 = ['1', '_', '0'] := by decide +kernel
    intro key value h hint
    have hvalue : value = ['1', '_', '0'] := hassigned l hl (key, value) h hint
    rw [hvalue]
    exact ⟨by decide, by decide, by decide, by decide⟩
  · rw [hmarks]
    exact ⟨by simp, by simp [top]⟩

/-- The array `["x` and, on the next line, `y"]`. -/
theorem subset_not_lines :
    parseTOML ['a', '=', '[', '"', 'x', '\n', 'y', '"', ']'] =
      .ok ⟨[([], [(['a'], .strs [['x', ' ', 'y']])])], []⟩ ∧
    ¬Subset ['a', '=', '[', '"', 'x', '\n', 'y', '"', ']'] := by
  refine ⟨rfl, ?_⟩
  rintro ⟨-, items, hdocument, -⟩
  have hclean := hdocument.clean.1 ['a', '=', '[', '"', 'x'] (by decide)
  have hends := hclean.ends
  revert hends
  decide

end Lobbylink.Config.Soundness
