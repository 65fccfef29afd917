import Lobbylink.Config.Arrays

/-! What the parser has read is written as the subset says. The lines of an array have been
joined on the way; they come apart again where every line ends outside its strings. -/
namespace Lobbylink.Config.Reading
open Lib.Scan Lib.Trim Toml Layout Arrays

variable {q : Quote} {a b l r s t v w x pre post : Text} {c : Char} {vs : List Text}
  {ls : List Text} {e : Bool}

theorem isBlank_of_space (hc : isSpace c = true) (hline : c ≠ '\n') : isBlank c = true := by
  simp [isBlank, hc, hline]

theorem all_blank_of_space (h : All isSpace s) (hline : '\n' ∉ s) : All isBlank s :=
  fun _ hc => isBlank_of_space (h _ hc) fun heq => hline (heq ▸ hc)

theorem strip_take (h : stripFrom q l = a ++ s) :
    ∃ m, l = a ++ m ∧ stripFrom (Quote.after q a) m = s := by
  induction a generalizing q l with
  | nil => exact ⟨l, rfl, h⟩
  | cons c rest ih =>
    cases l with
    | nil => cases h
    | cons d l =>
      rw [stripFrom] at h
      split_ifs at h with hhash
      · cases h
      obtain ⟨rfl, hrest⟩ := List.cons.inj h
      obtain ⟨m, rfl, hm⟩ := ih hrest
      exact ⟨m, rfl, hm⟩

theorem strip_none (h : stripFrom q l = []) : l = [] ∨ ∃ c, l = '#' :: c := by
  cases l with
  | nil => exact .inl rfl
  | cons c rest =>
    rw [stripFrom] at h
    split_ifs at h with hhash
    exact .inr ⟨rest, congrArg (· :: rest) hhash.2⟩

theorem trailer_blanks (ha : All isBlank a) (h : Trailer t) : Trailer (a ++ t) := by
  cases h with
  | blank hb => exact .blank (all_append.2 ⟨ha, hb⟩)
  | comment hb hc =>
    rw [← List.append_assoc]
    exact .comment (all_append.2 ⟨ha, hb⟩) hc

theorem strip_trailer (hline : '\n' ∉ l) (h : All isSpace (stripFrom q l)) : Trailer l := by
  obtain ⟨m, hl, hm⟩ := strip_take (List.append_nil (stripFrom q l)).symm
  have hstart : '\n' ∉ stripFrom q l := fun hmem => hline (hl ▸ List.mem_append_left m hmem)
  rw [hl]
  refine trailer_blanks (all_blank_of_space h hstart) ?_
  rcases strip_none hm with rfl | ⟨c, rfl⟩
  · exact .blank All.nil
  · refine .comment (b := []) All.nil fun hmem => hline ?_
    rw [hl]
    exact List.mem_append_right _ (List.mem_cons_of_mem _ hmem)

theorem line_parts (hline : '\n' ∉ l) :
    ∃ a b, All isBlank a ∧ Trailer b ∧ l = a ++ (trimSpace (stripComment l) ++ b) := by
  obtain ⟨a, b, ha, hb, heq⟩ := trim_spec isSpace (stripComment l)
  obtain ⟨m, hl, hm⟩ := strip_take heq
  rw [List.append_assoc] at hl
  have hstart : '\n' ∉ a := fun hmem => hline (hl ▸ List.mem_append_left _ hmem)
  have hend : '\n' ∉ m := fun hmem =>
    hline (hl ▸ List.mem_append_right _ (List.mem_append_right _ hmem))
  exact ⟨a, m, all_blank_of_space ha hstart, strip_trailer hend (hm ▸ hb), hl⟩

theorem unicodeEscape_ok {width n : Nat} (h : unicodeEscape width s = .ok (c, n)) :
    ∃ digits r, s = digits ++ r ∧ digits.length = width ∧ parseHex digits = some c.toNat ∧
      n = width + 1 := by
  unfold unicodeEscape at h
  split_ifs at h with hlength
  cases hhex : parseHex (s.take width) with
  | none =>
    rw [hhex] at h
    cases h
  | some m =>
    rw [hhex] at h
    simp only at h
    split_ifs at h with hvalid
    cases h
    have hchar : (Char.ofNat m).toNat = m := by
      unfold Char.ofNat
      rw [dif_pos hvalid]
      rfl
    refine ⟨s.take width, s.drop width, (List.take_append_drop width s).symm, ?_, ?_, rfl⟩
    · rw [List.length_take]
      omega
    · rw [hchar, hhex]

theorem escape_ok {width : Nat} (h : escape s = .ok (c, width)) :
    ∃ w r, s = w ++ r ∧ w.length = width ∧ Writes c ('\\' :: w) := by
  cases s with
  | nil => cases h
  | cons d rest =>
    rw [escape] at h
    split_ifs at h with hn ht hr hquote hslash hu hU
    · cases h
      exact ⟨['n'], rest, hn ▸ rfl, rfl, .newline⟩
    · cases h
      exact ⟨['t'], rest, ht ▸ rfl, rfl, .tab⟩
    · cases h
      exact ⟨['r'], rest, hr ▸ rfl, rfl, .carriageReturn⟩
    · cases h
      exact ⟨['"'], rest, hquote ▸ rfl, rfl, .quote⟩
    · cases h
      exact ⟨['\\'], rest, hslash ▸ rfl, rfl, .backslash⟩
    · obtain ⟨digits, r, rfl, hlength, hhex, rfl⟩ := unicodeEscape_ok h
      exact ⟨'u' :: digits, r, hu ▸ rfl, congrArg (· + 1) hlength, .short hlength hhex⟩
    · obtain ⟨digits, r, rfl, hlength, hhex, rfl⟩ := unicodeEscape_ok h
      exact ⟨'U' :: digits, r, hU ▸ rfl, congrArg (· + 1) hlength, .long hlength hhex⟩

theorem scan_ok (hline : '\n' ∉ s) (h : scanString 0 s = .ok (v, r)) :
    ∃ t, s = t ++ '"' :: r ∧ Inner v t := by
  generalize hn : s.length = n
  induction n using Nat.strongRecOn generalizing s v with
  | ind n ih =>
    subst hn
    cases s with
    | nil => cases h
    | cons c rest =>
      have hrest : '\n' ∉ rest := List.not_mem_of_not_mem_cons hline
      rw [scanString] at h
      split_ifs at h with hquote hslash
      · cases h
        exact ⟨[], hquote ▸ rfl, .nil⟩
      · cases hescape : escape rest with
        | error fault =>
          rw [hescape] at h
          cases h
        | ok result =>
          obtain ⟨decoded, width⟩ := result
          obtain ⟨w, m, rfl, rfl, hwrites⟩ := escape_ok hescape
          rw [hescape] at h
          simp only [scan_skip] at h
          cases hscan : scanString 0 m with
          | error fault =>
            rw [hscan] at h
            cases h
          | ok result =>
            rw [hscan] at h
            cases h
            have hshort : m.length < (c :: (w ++ m)).length := by
              rw [List.length_cons, List.length_append]
              omega
            have hm : '\n' ∉ m := fun hmem => hrest (List.mem_append_right w hmem)
            obtain ⟨t, rfl, hinner⟩ := ih _ hshort hm hscan rfl
            exact ⟨('\\' :: w) ++ t, by simp [hslash], .cons hwrites hinner⟩
      · cases hscan : scanString 0 rest with
        | error fault =>
          rw [hscan] at h
          cases h
        | ok result =>
          rw [hscan] at h
          cases h
          obtain ⟨t, rfl, hinner⟩ := ih _ (Nat.lt_succ_self _) hrest hscan rfl
          have hplain : c ≠ '\n' := fun heq => hline (heq ▸ List.mem_cons_self)
          exact ⟨[c] ++ t, rfl, .cons (.plain ⟨hquote, hslash, hplain⟩) hinner⟩

theorem parseBasicString_ok (hline : '\n' ∉ s) (h : parseBasicString s = .ok (v, r)) :
    ∃ l, s = l ++ r ∧ Literal v l := by
  cases s with
  | nil => cases h
  | cons c rest =>
    rw [parseBasicString] at h
    split_ifs at h with hquote
    obtain ⟨t, rfl, hinner⟩ := scan_ok (List.not_mem_of_not_mem_cons hline) h
    exact ⟨'"' :: (t ++ ['"']), by simp [hquote], .mk hinner⟩

theorem flat_blanks (ha : All isSpace a) (h : Flat e vs t) : Flat e vs (a ++ t) := by
  induction a with
  | nil => exact h
  | cons c rest ih =>
    obtain ⟨hc, hrest⟩ := all_cons.1 ha
    exact .blank hc (ih hrest)

theorem flat_end (hs : All isSpace s) (ht : All isSpace t) (e : Bool) : Flat e [] (s ++ ']' :: t) :=
  flat_blanks hs (.close ht)

/-- The text of the elements, with whatever has been trimmed off its end. -/
theorem parseElements_ok {fuel : Nat} (hline : '\n' ∉ s) (h : parseElements fuel s = .ok vs)
    (ha : All isSpace a) (ht : All isSpace t) : Flat false vs (s ++ (a ++ ']' :: t)) := by
  induction fuel generalizing s vs a with
  | zero =>
    rw [parseElements] at h
    split_ifs at h with hs
    cases h
    subst hs
    exact flat_end ha ht false
  | succ fuel ih =>
    rw [parseElements] at h
    split_ifs at h with hs hquote
    · cases h
      subst hs
      exact flat_end ha ht false
    · cases hstring : parseBasicString s with
      | error fault =>
        rw [hstring] at h
        cases h
      | ok result =>
        obtain ⟨v, m⟩ := result
        obtain ⟨l, rfl, hliteral⟩ := parseBasicString_ok hline hstring
        obtain ⟨b, b', hb, hb', hm⟩ := trim_spec isSpace m
        rw [hstring] at h
        unfold trimSpace at h
        simp only at h
        rw [List.append_assoc]
        split_ifs at h with hnone hcomma
        · cases h
          rw [hnone, List.append_nil] at hm
          refine .element hliteral ?_
          rw [hm, ← List.append_assoc]
          exact flat_end (all_append.2 ⟨all_append.2 ⟨hb, hb'⟩, ha⟩) ht true
        · obtain ⟨rest, hrest⟩ := hcomma
          rw [← hrest] at h hm
          obtain ⟨d, d', hd, hd', hinner⟩ := trim_spec isSpace rest
          have htail : '\n' ∉ trim isSpace rest := by
            intro hmem
            refine hline (List.mem_append_right l ?_)
            rw [hm, hinner]
            simp [hmem]
          cases helements : parseElements fuel (trim isSpace rest) with
          | error fault =>
            rw [List.singleton_append, List.drop_one, List.tail_cons, helements] at h
            cases h
          | ok out =>
            rw [List.singleton_append, List.drop_one, List.tail_cons, helements] at h
            cases h
            have hnext := ih htail helements (a := d' ++ (b' ++ a))
              (all_append.2 ⟨hd', all_append.2 ⟨hb', ha⟩⟩)
            have htext : m ++ (a ++ ']' :: t) =
                b ++ ',' :: (d ++ (trim isSpace rest ++ (d' ++ (b' ++ a) ++ ']' :: t))) := by
              conv_lhs => rw [hm, hinner]
              simp
            rw [htext]
            exact .element hliteral (flat_blanks hb (.comma (flat_blanks hd hnext)))

theorem lastBracket_take {i : Nat} (h : lastBracketFrom q s = some i) :
    s = s.take i ++ ']' :: s.drop (i + 1) := by
  induction s generalizing q i with
  | nil => cases h
  | cons c rest ih =>
    rw [lastBracketFrom] at h
    cases hrest : lastBracketFrom (q.next c) rest with
    | some j =>
      rw [hrest] at h
      cases h
      rw [List.take_succ_cons, List.drop_succ_cons, List.cons_append, ← ih hrest]
    | none =>
      rw [hrest] at h
      simp only at h
      split_ifs at h with hbracket
      cases h
      simp [hbracket.2]

theorem parseArrayText_ok (hline : '\n' ∉ s) (h : parseArrayText ('[' :: s) = .ok vs) :
    Flat false vs s := by
  have htrim : trimSpace ('[' :: s) = '[' :: s.rdropWhile isSpace :=
    trim_token (tight_single rfl) (List.cons_ne_nil _ _) s
  obtain ⟨b, hb, hs⟩ := rdropWhile_spec isSpace s
  have hopen : ['['] <+: '[' :: s.rdropWhile isSpace := by simp
  unfold parseArrayText at h
  simp only [htrim, if_pos hopen, List.drop_one, List.tail_cons] at h
  generalize hbody : s.rdropWhile isSpace = body at h hs
  cases hclosing : lastBracketOutsideString body with
  | none =>
    rw [hclosing] at h
    cases h
  | some i =>
    rw [hclosing] at h
    simp only at h
    split_ifs at h with htail
    obtain ⟨d, d', hd, hd', hinner⟩ := trim_spec isSpace (body.take i)
    obtain ⟨f, f', hf, hf', hafter⟩ := trim_spec isSpace (body.drop (i + 1))
    unfold trimSpace at htail h
    have hspace : All isSpace (body.drop (i + 1)) := by
      rw [hafter, not_not.1 htail, List.append_nil]
      exact all_append.2 ⟨hf, hf'⟩
    have hcut := lastBracket_take hclosing
    have hinline : '\n' ∉ trim isSpace (body.take i) := by
      intro hmem
      refine hline ?_
      rw [hs, hcut, hinner]
      simp [hmem]
    have hflat := parseElements_ok hinline h hd' (all_append.2 ⟨hspace, hb⟩)
    have htext : s = d ++ (trim isSpace (body.take i) ++ (d' ++ ']' :: (body.drop (i + 1) ++ b))) := by
      conv_lhs => rw [hs, hcut, hinner]
      simp
    rw [htext]
    exact flat_blanks hd hflat

theorem gather_ok {k : Nat} (h : gather b ls = .ok (t, k)) :
    ∃ taken rest, ls = taken ++ rest ∧ taken.length = k ∧ t = b ++ joined taken ∧
      ∀ i < k, arrayClosed (b ++ joined (taken.take i)) = false := by
  induction ls generalizing b t k with
  | nil =>
    rw [gather] at h
    split_ifs at h with hclosed
    cases h
    exact ⟨[], [], rfl, rfl, by simp [joined], fun i hi => absurd hi (Nat.not_lt_zero i)⟩
  | cons raw rest ih =>
    rw [gather] at h
    split_ifs at h with hclosed
    · cases h
      exact ⟨[], raw :: rest, rfl, rfl, by simp [joined], fun i hi => absurd hi (Nat.not_lt_zero i)⟩
    · cases hrest : gather (b ++ ' ' :: trimSpace (stripComment raw)) rest with
      | error e =>
        rw [hrest] at h
        cases h
      | ok result =>
        rw [hrest] at h
        cases h
        obtain ⟨taken, below, rfl, hlength, htext, hopen⟩ := ih hrest
        refine ⟨raw :: taken, below, rfl, congrArg (· + 1) hlength, ?_, fun i hi => ?_⟩
        · rw [htext]
          simp [joined]
        · cases i with
          | zero => simpa [joined] using hclosed
          | succ i =>
            have hbefore := hopen i (Nat.lt_of_succ_lt_succ hi)
            simpa [joined] using hbefore

/-- The rest of a line and the lines below it, of which the parser has `x` and what it joins. -/
structure Cut (x l : Text) (ls : List Text) : Prop where
  strip : ∃ post, All isSpace post ∧ stripComment l = x ++ post
  ends : ∀ m ∈ l :: ls, Quote.after .outside (stripComment m) = .outside
  line : ∀ m ∈ l :: ls, '\n' ∉ m
  opened : ∀ i < ls.length, arrayClosed (x ++ joined (ls.take i)) = false

theorem Cut.drop (h : Cut (a ++ x) l ls) (ha : Quiet a) : ∃ m, l = a ++ m ∧ Cut x m ls := by
  obtain ⟨⟨post, hpost, hstrip⟩, hends, hline, hopened⟩ := h
  rw [List.append_assoc] at hstrip
  obtain ⟨m, rfl, hm⟩ := strip_take hstrip
  rw [ha.after] at hm
  obtain ⟨hfirst, hbelow⟩ := List.forall_mem_cons.1 hends
  obtain ⟨hnewline, hlines⟩ := List.forall_mem_cons.1 hline
  rw [ha.strip, after_append, ha.after] at hfirst
  refine ⟨m, rfl, ⟨post, hpost, hm⟩, List.forall_mem_cons.2 ⟨hfirst, hbelow⟩,
    List.forall_mem_cons.2 ⟨fun hmem => hnewline (List.mem_append_right a hmem), hlines⟩,
    fun i hi => ?_⟩
  have hclosed := hopened i hi
  rwa [List.append_assoc, ha.closed] at hclosed

theorem Cut.below {raw : Text} (h : Cut [] l (raw :: ls)) :
    Trailer l ∧ ∃ a m, raw = a ++ m ∧ All isBlank a ∧ Cut (trimSpace (stripComment raw)) m ls := by
  obtain ⟨⟨post, hpost, hstrip⟩, hends, hline, hopened⟩ := h
  obtain ⟨a, b, ha, hb, hparts⟩ := trim_spec isSpace (stripComment raw)
  obtain ⟨-, hbelow⟩ := List.forall_mem_cons.1 hends
  obtain ⟨hnewline, hlines⟩ := List.forall_mem_cons.1 hline
  obtain ⟨hraw, hlines⟩ := List.forall_mem_cons.1 hlines
  have hspace : Quiet [' '] := quiet_of_space (by simp [All, isSpace])
  have hcut : Cut (a ++ trimSpace (stripComment raw)) raw ls := by
    refine ⟨⟨b, hb, hparts⟩, hbelow, List.forall_mem_cons.2 ⟨hraw, hlines⟩, fun i hi => ?_⟩
    have hclosed := hopened (i + 1) (Nat.succ_lt_succ hi)
    rw [List.append_assoc, (quiet_of_space ha).closed]
    rw [← hspace.closed]
    simpa [joined] using hclosed
  obtain ⟨m, hm, hrest⟩ := hcut.drop (quiet_of_space ha)
  have htrailer : Trailer l := by
    refine strip_trailer (q := .outside) hnewline ?_
    rw [← stripComment, hstrip]
    exact hpost
  refine ⟨htrailer, a, m, hm, ?_, hrest⟩
  exact all_blank_of_space ha fun hmem => hraw (hm ▸ List.mem_append_left m hmem)

theorem elements_blanks (ha : All isBlank a) (h : Elements e vs t) : Elements e vs (a ++ t) := by
  induction a with
  | nil => exact h
  | cons c rest ih =>
    obtain ⟨hc, hrest⟩ := all_cons.1 ha
    exact .blank hc (ih hrest)

theorem elements_trailer (hl : Trailer l) (h : Elements e vs t) : Elements e vs (l ++ '\n' :: t) := by
  cases hl with
  | blank hb => exact elements_blanks hb (.newline h)
  | comment hb hc =>
    rw [List.append_assoc]
    exact elements_blanks hb (.comment hc h)

def stacked (ls : List Text) : Text := ls.flatMap fun raw => '\n' :: raw

theorem joined_head (h : joined ls = c :: t) : c = ' ' := by
  cases ls with
  | nil => cases h
  | cons raw ls => exact (List.cons.inj h).1.symm

theorem after_space (hs : All isSpace s) (h : Quote.after q s = .outside) : q = .outside := by
  induction s generalizing q with
  | nil => exact h
  | cons c rest ih =>
    obtain ⟨hc, hrest⟩ := all_cons.1 hs
    have hnext := ih hrest h
    cases q with
    | outside => rfl
    | inside =>
      have hinside : Quote.next .inside c = .inside :=
        (if_neg (not_space_of_quiet rfl hc)).trans (if_neg (not_space_of_quiet rfl hc))
      rw [hinside] at hnext
      cases hnext
    | escaped => cases hnext

theorem literal_whole (h : Literal v s) (ht : s ++ t = x ++ joined ls)
    (hafter : Quote.after .outside x = .outside) : ∃ m, x = s ++ m ∧ t = m ++ joined ls := by
  rcases List.append_eq_append_iff.1 ht with hwhole | ⟨m, rfl, hm⟩
  · exact hwhole
  · by_cases hx : x = []
    · subst hx
      obtain ⟨hinner⟩ := h
      have hspace := joined_head hm
      cases hspace
    · have hnil := h.uncut hx hafter
      subst hnil
      exact ⟨[], by simp, hm.symm⟩

theorem flat_elements (h : Flat e vs t) (ht : t = x ++ joined ls) (hcut : Cut x l ls) :
    Elements e vs (l ++ stacked ls) := by
  induction h generalizing x l ls with
  | @blank e vs c t hc _ ih =>
    cases x with
    | cons d x =>
      obtain ⟨rfl, htail⟩ := List.cons.inj ht
      have hquiet : Quiet [c] := quiet_of_space (by simpa [All] using hc)
      obtain ⟨m, rfl, hm⟩ := hcut.drop (a := [c]) hquiet
      have hblank : isBlank c = true :=
        isBlank_of_space hc fun heq => hcut.line _ List.mem_cons_self (heq ▸ List.mem_cons_self)
      exact .blank hblank (ih htail hm)
    | nil =>
      cases ls with
      | nil => cases ht
      | cons raw ls =>
        obtain ⟨htrailer, a, m, rfl, ha, hm⟩ := hcut.below
        have htail := (List.cons.inj ht).2
        have hrest := elements_blanks ha (ih htail hm)
        simpa [stacked] using elements_trailer htrailer hrest
  | @element vs v s t hliteral hrest ih =>
    have hafter : Quote.after .outside x = .outside := by
      obtain ⟨post, hpost, hstrip⟩ := hcut.strip
      have hends := hcut.ends l List.mem_cons_self
      rw [hstrip, after_append] at hends
      exact after_space hpost hends
    obtain ⟨m, rfl, hm⟩ := literal_whole hliteral ht hafter
    obtain ⟨n, rfl, hn⟩ := hcut.drop hliteral.quiet
    rw [List.append_assoc]
    exact .element hliteral (ih hm hn)
  | @comma vs t _ ih =>
    cases x with
    | nil =>
      have hspace := joined_head ht.symm
      cases hspace
    | cons d x =>
      obtain ⟨rfl, htail⟩ := List.cons.inj ht
      have hquiet : Quiet [','] := quiet_cons (by decide) (by decide) (by decide) quiet_nil
      obtain ⟨m, rfl, hm⟩ := hcut.drop (a := [',']) hquiet
      exact .comma (ih htail hm)
  | @close e t hspace =>
    cases x with
    | nil =>
      have hspace := joined_head ht.symm
      cases hspace
    | cons d x =>
      obtain ⟨rfl, rfl⟩ := List.cons.inj ht
      obtain ⟨hx, -⟩ := all_append.1 hspace
      cases ls with
      | cons raw ls =>
        -- the array would have been closed before
        have hopen := hcut.opened 0 (Nat.succ_pos _)
        have hclosed := lastBracket_space hx quiet_nil
        rw [List.take_zero] at hopen
        unfold arrayClosed joined at hopen
        rw [List.flatMap_nil, List.append_nil] at hopen
        rw [List.nil_append] at hclosed
        rw [hclosed] at hopen
        cases hopen
      | nil =>
        obtain ⟨post, hpost, hstrip⟩ := hcut.strip
        obtain ⟨m, rfl, hm⟩ := strip_take (a := [']']) hstrip
        have hline := hcut.line _ List.mem_cons_self
        have hm : stripComment m = x ++ post := hm
        have hrest : All isSpace (stripComment m) := by
          rw [hm]
          exact all_append.2 ⟨hx, hpost⟩
        have htrailer := strip_trailer (fun hmem => hline (List.mem_cons_of_mem _ hmem)) hrest
        simpa [stacked] using Elements.close htrailer

theorem lines_stacked (ha : '\n' ∉ a) (hls : ∀ m ∈ ls, '\n' ∉ m) :
    lines (a ++ stacked ls) = a :: ls := by
  induction ls generalizing a with
  | nil =>
    have hnil : stacked [] = [] := rfl
    rw [hnil, List.append_nil]
    exact lines_single ha
  | cons m rest ih =>
    obtain ⟨hm, hrest⟩ := List.forall_mem_cons.1 hls
    have hcons : stacked (m :: rest) = '\n' :: (m ++ stacked rest) := rfl
    rw [hcons, lines_append_newline ha, ih hm hrest]

theorem newline_joined (hls : ∀ m ∈ ls, '\n' ∉ m) : '\n' ∉ joined ls := by
  intro hmem
  obtain ⟨raw, hraw, hnewline⟩ := List.mem_flatMap.1 hmem
  rcases List.mem_cons.1 hnewline with h | hnewline
  · cases h
  · obtain ⟨a, b, -, -, hparts⟩ := line_parts (hls raw hraw)
    refine hls raw hraw ?_
    rw [hparts]
    exact List.mem_append_right a (List.mem_append_left b hnewline)

/-- The lines of an array that is read are those of one of the subset. -/
theorem parseArray_ok {k : Nat} (h : parseArray ('[' :: x) ls = .ok (vs, k))
    (hstrip : stripComment l = x ++ post) (hpost : All isSpace post)
    (hends : ∀ m ∈ l :: ls, Quote.after .outside (stripComment m) = .outside)
    (hlines : ∀ m ∈ l :: ls, '\n' ∉ m) :
    ∃ taken below, ls = taken ++ below ∧ taken.length = k ∧
      Elements false vs (l ++ stacked taken) := by
  unfold parseArray at h
  cases hgather : gather ('[' :: x) ls with
  | error e =>
    rw [hgather] at h
    cases h
  | ok result =>
    obtain ⟨buf, ahead⟩ := result
    rw [hgather] at h
    simp only at h
    obtain ⟨taken, below, rfl, hlength, rfl, hopen⟩ := gather_ok hgather
    cases htext : parseArrayText ('[' :: x ++ joined taken) with
    | error fault =>
      rw [htext] at h
      cases h
    | ok out =>
      rw [htext] at h
      cases h
      have hmem : ∀ {m : Text}, m ∈ l :: taken → m ∈ l :: (taken ++ below) := fun hm => by
        rcases List.mem_cons.1 hm with rfl | hm
        · exact List.mem_cons_self
        · exact List.mem_cons_of_mem _ (List.mem_append_left _ hm)
      have hbracket : Quiet ['['] := quiet_cons (by decide) (by decide) (by decide) quiet_nil
      have hcut : Cut x l taken := by
        refine ⟨⟨post, hpost, hstrip⟩, fun m hm => hends m (hmem hm), fun m hm => hlines m (hmem hm),
          fun i hi => ?_⟩
        rw [← hbracket.closed]
        exact hopen i (hlength ▸ hi)
      have hjoined : '\n' ∉ x ++ joined taken := by
        obtain ⟨m, rfl, -⟩ := strip_take hstrip
        intro hnewline
        rcases List.mem_append.1 hnewline with hnewline | hnewline
        · exact hlines _ List.mem_cons_self (List.mem_append_left m hnewline)
        · exact newline_joined (fun m hm => hlines m (hmem (List.mem_cons_of_mem _ hm))) hnewline
      exact ⟨taken, below, rfl, hlength, flat_elements (parseArrayText_ok hjoined htext) rfl hcut⟩

end Lobbylink.Config.Reading
