import Lobbylink.Java.RoundTrip

/-! The texts that the reader accepts, as a grammar. It is that of JSON but for its numbers
and the units of its strings, which are the reader's own. -/
namespace Lobbylink.Java.Grammar
open Json RoundTrip

variable {D : Type}

def Blank (t : JString) : Prop := ∀ c ∈ t, isWs c = true

/-- Elements or members one after the other, and what closes them. -/
def listing (close : UInt16) : List JString → JString
  | [] => [close]
  | t :: rest => t ++ if rest = [] then [close] else u ',' :: listing close rest

/-- A value where it stands in a list, with the white space around it. -/
structure Element (D : Type) where
  before : JString
  text : JString
  after : JString
  value : Value D

def Element.layout (e : Element D) : JString := e.before ++ (e.text ++ e.after)

/-- A key and its value where they stand in a map. -/
structure Member (D : Type) where
  before : JString
  keyText : JString
  between : JString
  element : Element D
  key : JString

def Member.layout (m : Member D) : JString :=
  m.before ++ u '"' :: (m.keyText ++ u '"' :: (m.between ++ u ':' :: m.element.layout))

/-- The map that is filled with the members in their order. -/
def entries (ms : List (Member D)) : List (JString × Value D) :=
  ms.foldl (fun m e => put m e.key e.element.value) []

inductive Spelled (Unit : UInt16 → JString → Prop) : JString → JString → Prop where
  | nil : Spelled Unit [] []
  | cons {c : UInt16} {s t rest : JString} : Unit c t → Spelled Unit s rest →
      Spelled Unit (c :: s) (t ++ rest)

/-- The texts of a value, given those of numbers and of the units of a string. -/
inductive Denotes (Number : Value D → JString → Prop) (Unit : UInt16 → JString → Prop) :
    Value D → JString → Prop where
  | null : Denotes Number Unit .null nullText
  | bool (b : Bool) : Denotes Number Unit (.bool b) (if b then trueText else falseText)
  | number {v : Value D} {t : JString} : Number v t → Denotes Number Unit v t
  | string {s t : JString} : Spelled Unit s t →
      Denotes Number Unit (.string s) (u '"' :: (t ++ [u '"']))
  | noElements {b : JString} : Blank b → Denotes Number Unit (.list []) (u '[' :: (b ++ [u ']']))
  | list {es : List (Element D)} : es ≠ [] → (∀ e ∈ es, Blank e.before ∧ Blank e.after) →
      (∀ e ∈ es, Denotes Number Unit e.value e.text) →
      Denotes Number Unit (.list (es.map (·.value))) (u '[' :: listing (u ']') (es.map (·.layout)))
  | noMembers {b : JString} : Blank b → Denotes Number Unit (.map []) (u '{' :: (b ++ [u '}']))
  | map {ms : List (Member D)} : ms ≠ [] →
      (∀ m ∈ ms, Blank m.before ∧ Blank m.between ∧ Blank m.element.before ∧ Blank m.element.after) →
      (∀ m ∈ ms, Spelled Unit m.key m.keyText) →
      (∀ m ∈ ms, Denotes Number Unit m.element.value m.element.text) →
      Denotes Number Unit (.map (entries ms)) (u '{' :: listing (u '}') (ms.map (·.layout)))

def Document (Number : Value D → JString → Prop) (Unit : UInt16 → JString → Prop) (v : Value D)
    (s : JString) : Prop :=
  ∃ before t after, s = before ++ (t ++ after) ∧ Blank before ∧ Blank after ∧
    Denotes Number Unit v t

theorem Spelled.mono {Unit Unit' : UInt16 → JString → Prop} (h : ∀ c t, Unit c t → Unit' c t)
    {s t : JString} (hs : Spelled Unit s t) : Spelled Unit' s t := by
  induction hs with
  | nil => exact .nil
  | cons hc _ ih => exact .cons (h _ _ hc) ih

theorem Denotes.mono {Number Number' : Value D → JString → Prop}
    {Unit Unit' : UInt16 → JString → Prop} (hnumber : ∀ v t, Number v t → Number' v t)
    (hunit : ∀ c t, Unit c t → Unit' c t) {v : Value D} {t : JString}
    (h : Denotes Number Unit v t) : Denotes Number' Unit' v t := by
  induction h with
  | null => exact .null
  | bool b => exact .bool b
  | number hv => exact .number (hnumber _ _ hv)
  | string hs => exact .string (hs.mono hunit)
  | noElements hb => exact .noElements hb
  | list hne hblank _ ih => exact .list hne hblank ih
  | noMembers hb => exact .noMembers hb
  | map hne hblank hkeys _ ih => exact .map hne hblank (fun m hm => (hkeys m hm).mono hunit) ih

variable (lib : JavaLib D)

def isNumeric (c : UInt16) : Bool :=
  (u '0' ≤ c ∧ c ≤ u '9') ∨ (c = u '.' ∨ c = u 'e' ∨ c = u 'E') ∨ c = u '+' ∨ c = u '-'

def isPoint (c : UInt16) : Bool := c = u '.' ∨ c = u 'e' ∨ c = u 'E'

def readNumber (num : JString) : Option (Value D) :=
  if num = [] ∨ num = [u '-'] then none
  else if num.any isPoint then (lib.parseDouble num).map .double
  else match parseLong lib num with
    | some n => some (.long n)
    | none => (lib.parseDouble num).map .double

def Numeral (v : Value D) (t : JString) : Prop :=
  (∀ c ∈ t, isNumeric c = true) ∧ readNumber lib t = some v

inductive Unescapes : UInt16 → JString → Prop where
  | plain {c : UInt16} : c ≠ u '"' → c ≠ u '\\' → Unescapes c [c]
  | escape {e c : UInt16} : unescape e = some c → Unescapes c [u '\\', e]
  | hex {a b c d : UInt16} {n : Int} : parseInt lib 16 [a, b, c, d] = some n →
      Unescapes (UInt16.ofInt n) [u '\\', u 'u', a, b, c, d]

/-- The rest of a text after a position does not go on with what `p` holds for. -/
def Stops (p : UInt16 → Bool) (rest : JString) : Prop := ∀ c ∈ rest.head?, p c = false

theorem takeWhile_run {p : UInt16 → Bool} {t rest : JString} (ht : ∀ c ∈ t, p c = true)
    (hrest : Stops p rest) : (t ++ rest).takeWhile p = t := by
  rw [List.takeWhile_append_of_pos ht]
  cases rest with
  | nil => simp
  | cons c rest => rw [List.takeWhile_cons, hrest c rfl]; simp

theorem run_cons {p : UInt16 → Bool} {s : JString} {pos : Nat} (h : pos < s.length) :
    (s.drop pos).takeWhile p =
      if p s[pos] = true then s[pos] :: (s.drop (pos + 1)).takeWhile p else [] := by
  rw [List.drop_eq_getElem_cons h, List.takeWhile_cons]

theorem run_nil {p : UInt16 → Bool} {s : JString} {pos : Nat} (h : ¬pos < s.length) :
    (s.drop pos).takeWhile p = [] := by
  rw [List.drop_eq_nil_of_le (Nat.not_lt.1 h)]
  rfl

theorem skipWs_eq (s : JString) (pos : Nat) :
    skipWs s pos = pos + ((s.drop pos).takeWhile isWs).length := by
  fun_induction skipWs s pos with
  | case1 pos h hws ih =>
    rw [ih, run_cons h, if_pos hws, List.length_cons, Nat.add_assoc, Nat.add_comm 1]
  | case2 pos h hws => rw [run_cons h, if_neg hws, List.length_nil, Nat.add_zero]
  | case3 pos h => rw [run_nil h, List.length_nil, Nat.add_zero]

theorem isPoint_digit {c : UInt16} (h : u '0' ≤ c ∧ c ≤ u '9') : isPoint c = false := by
  by_contra hpoint
  simp only [isPoint, Bool.not_eq_false, decide_eq_true_eq] at hpoint
  rcases hpoint with rfl | rfl | rfl <;> exact absurd h (by decide)

theorem scanNumber_eq (s : JString) (pos : Nat) (isDouble : Bool) :
    scanNumber s pos isDouble = (pos + ((s.drop pos).takeWhile isNumeric).length,
      isDouble || ((s.drop pos).takeWhile isNumeric).any isPoint) := by
  fun_induction scanNumber s pos isDouble with
  | case1 pos isDouble h c hdigit ih =>
    have hnumeric : isNumeric s[pos] = true := by simp [isNumeric, hdigit, c]
    rw [ih, run_cons h, if_pos hnumeric, List.any_cons, isPoint_digit hdigit, Bool.false_or,
      List.length_cons, Nat.add_assoc, Nat.add_comm 1]
  | case2 pos isDouble h c hdigit hpoint ih =>
    have hnumeric : isNumeric s[pos] = true := by simp [isNumeric, hpoint, c]
    have hp : isPoint s[pos] = true := decide_eq_true hpoint
    rw [ih, run_cons h, if_pos hnumeric, List.any_cons, hp, Bool.true_or,
      Bool.or_true, List.length_cons, Nat.add_assoc, Nat.add_comm 1]
  | case3 pos isDouble h c hdigit hpoint hsign ih =>
    have hnumeric : isNumeric s[pos] = true := by simp [isNumeric, hsign, c]
    have hp : isPoint s[pos] = false := decide_eq_false hpoint
    rw [ih, run_cons h, if_pos hnumeric, List.any_cons, hp, Bool.false_or, List.length_cons,
      Nat.add_assoc, Nat.add_comm 1]
  | case4 pos isDouble h c hdigit hpoint hsign =>
    have hnumeric : ¬isNumeric s[pos] = true := by simp [isNumeric, hdigit, hpoint, hsign, c]
    rw [run_cons h, if_neg hnumeric]
    simp
  | case5 pos isDouble h =>
    rw [run_nil h]
    simp

theorem scanNumber_sign (s : JString) (pos : Nat) :
    scanNumber s (if s[pos]? = some (u '-') then pos + 1 else pos) false =
      (pos + ((s.drop pos).takeWhile isNumeric).length,
        ((s.drop pos).takeWhile isNumeric).any isPoint) := by
  split_ifs with hsign
  · obtain ⟨h, hminus⟩ := List.getElem?_eq_some_iff.1 hsign
    have hnumeric : isNumeric s[pos] = true := by rw [hminus]; decide
    have hp : isPoint s[pos] = false := by rw [hminus]; decide
    rw [scanNumber_eq, run_cons h, if_pos hnumeric, List.any_cons, hp, List.length_cons,
      Bool.false_or, Nat.add_assoc, Nat.add_comm 1]
  · rw [scanNumber_eq, Bool.false_or]

theorem parseNumber_eq (s : JString) (pos : Nat) :
    (parseNumber lib s pos).toOption =
      (readNumber lib ((s.drop pos).takeWhile isNumeric)).map fun v =>
        (v, pos + ((s.drop pos).takeWhile isNumeric).length) := by
  have hnum : (s.drop pos).take (pos + ((s.drop pos).takeWhile isNumeric).length - pos) =
      (s.drop pos).takeWhile isNumeric := by
    rw [Nat.add_sub_cancel_left]
    exact (List.prefix_iff_eq_take.1 (List.takeWhile_prefix isNumeric)).symm
  unfold parseNumber readNumber
  simp only [scanNumber_sign, hnum]
  generalize (s.drop pos).takeWhile isNumeric = num
  split_ifs
  · rfl
  · cases lib.parseDouble num <;> rfl
  · cases parseLong lib num with
    | some n => rfl
    | none => cases lib.parseDouble num <;> rfl

theorem unit_read {s t rest : JString} {pos : Nat} {c : UInt16} (hc : Unescapes lib c t)
    (h : s.drop pos = t ++ rest) (sb : JString) :
    parseString lib s pos sb = parseString lib s (pos + t.length) (sb ++ [c]) := by
  cases hc with
  | plain hquote hslash => exact plain_step lib h hquote hslash sb
  | escape he => exact escape_step lib h he sb
  | hex hn => exact hex_step lib h hn sb

theorem string_read {str t : JString} (h : Spelled (Unescapes lib) str t) :
    ∀ {s rest : JString} {pos : Nat}, s.drop pos = t ++ u '"' :: rest → ∀ sb,
      parseString lib s pos sb = .ok (sb ++ str, pos + t.length + 1) := by
  induction h with
  | nil =>
    intro s rest pos hs sb
    rw [List.nil_append] at hs
    rw [parseString, dif_pos (pos_lt hs), unit_at hs]
    simp
  | cons hc _ ih =>
    intro s rest pos hs sb
    rw [List.append_assoc] at hs
    rw [unit_read lib hc hs, ih (drop_append hs)]
    simp [Nat.add_assoc]

/-- The units that are read of a string between two positions are spelled there. -/
def ReadsTo (s : JString) (pos : Nat) (sb str : JString) (q : Nat) : Prop :=
  ∃ more t, str = sb ++ more ∧ Spelled (Unescapes lib) more t ∧ s.drop pos = t ++ u '"' :: s.drop q

theorem ReadsTo.unit {s t sb str : JString} {pos next q : Nat} {c : UInt16}
    (h : ReadsTo lib s next (sb ++ [c]) str q) (hc : Unescapes lib c t)
    (hs : s.drop pos = t ++ s.drop next) : ReadsTo lib s pos sb str q := by
  obtain ⟨more, t', rfl, hmore, hnext⟩ := h
  refine ⟨c :: more, t ++ t', by simp, .cons hc hmore, ?_⟩
  rw [hs, hnext, List.append_assoc]

theorem drop_two {s : JString} {pos : Nat} (h : pos + 1 < s.length) :
    s.drop pos = s[pos] :: s[pos + 1] :: s.drop (pos + 2) := by
  rw [List.drop_eq_getElem_cons (Nat.lt_of_succ_lt h), List.drop_eq_getElem_cons h]

theorem string_sound {s sb str : JString} {pos q : Nat}
    (h : parseString lib s pos sb = .ok (str, q)) : ReadsTo lib s pos sb str q := by
  fun_induction parseString lib s pos sb with
  | case1 pos sb hpos c hquote =>
    cases h
    refine ⟨[], [], (List.append_nil _).symm, .nil, ?_⟩
    rw [List.drop_eq_getElem_cons hpos, show s[pos] = u '"' from hquote]
    rfl
  | case2 pos sb hpos c hquote hslash hnext e d he ih =>
    refine (ih h).unit lib (.escape he) ?_
    rw [drop_two hnext, show s[pos] = u '\\' from hslash]
    rfl
  | case4 pos sb hpos c hquote hslash hnext e he hu hfour n hn ih =>
    obtain ⟨a, b, c', d, hdigits⟩ : ∃ a b c d, (s.drop (pos + 2)).take 4 = [a, b, c, d] := by
      have hlen : ((s.drop (pos + 2)).take 4).length = 4 := by
        rw [List.length_take, List.length_drop]
        omega
      match (s.drop (pos + 2)).take 4, hlen with
      | [a, b, c, d], _ => exact ⟨a, b, c, d, rfl⟩
    rw [hdigits] at hn
    refine (ih h).unit lib (.hex hn) ?_
    have hrest : s.drop (pos + 2) = [a, b, c', d] ++ s.drop (pos + 6) := by
      rw [← hdigits]
      exact ((List.take_append_drop 4 _).symm.trans (by rw [List.drop_drop]))
    rw [drop_two hnext, hrest, show s[pos] = u '\\' from hslash, show s[pos + 1] = u 'u' from hu]
    rfl
  | case8 pos sb hpos c hquote hslash ih =>
    refine (ih h).unit lib (.plain hquote hslash) ?_
    rw [List.drop_eq_getElem_cons hpos]
    rfl
  | case3 | case5 | case6 | case7 | case9 => cases h

/-- The texts of the grammar that is the reader's own. -/
abbrev Text : Value D → JString → Prop := Denotes (Numeral lib) (Unescapes lib)

variable {lib}

theorem isWs_numeric {c : UInt16} (h : isWs c = true) : isNumeric c = false := by
  simp only [isWs, decide_eq_true_eq] at h
  rcases h with rfl | rfl | rfl | rfl <;> decide

theorem stops_blank {b rest : JString} (hb : Blank b) (hrest : Stops isNumeric rest) :
    Stops isNumeric (b ++ rest) := by
  cases b with
  | nil => exact hrest
  | cons c b =>
    intro c' hc'
    cases hc'
    exact isWs_numeric (hb c List.mem_cons_self)

theorem skipWs_blank {s b rest : JString} {pos : Nat} (h : s.drop pos = b ++ rest) (hb : Blank b)
    (hrest : Stops isWs rest) : skipWs s pos = pos + b.length := by
  rw [skipWs_eq, h, takeWhile_run hb hrest]

theorem Numeral.starts {v : Value D} {t : JString} (h : Numeral lib v t) :
    ∃ c rest, t = c :: rest ∧ isNumeric c = true := by
  cases t with
  | nil => simp [Numeral, readNumber] at h
  | cons c rest => exact ⟨c, rest, rfl, h.1 c List.mem_cons_self⟩

theorem isNumeric_start {c : UInt16} (h : isNumeric c = true) : isWs c = false ∧ c ≠ u ']' ∧
    c ≠ u '{' ∧ c ≠ u '[' ∧ c ≠ u '"' ∧ c ≠ u 't' ∧ c ≠ u 'f' ∧ c ≠ u 'n' := by
  refine ⟨?_, ?_, ?_, ?_, ?_, ?_, ?_, ?_⟩
  · by_contra hws
    rw [isWs_numeric (by simpa using hws)] at h
    cases h
  all_goals
    rintro rfl
    exact absurd h (by decide)

theorem text_starts {v : Value D} {t : JString} (h : Text lib v t) :
    ∃ c rest, t = c :: rest ∧ isWs c = false ∧ c ≠ u ']' := by
  cases h with
  | null => exact ⟨_, _, rfl, by decide⟩
  | bool b => cases b <;> exact ⟨_, _, rfl, by decide⟩
  | number hv =>
    obtain ⟨c, rest, rfl, hc⟩ := hv.starts
    exact ⟨c, rest, rfl, (isNumeric_start hc).1, (isNumeric_start hc).2.1⟩
  | string | noElements | list | noMembers | map => exact ⟨_, _, rfl, by decide⟩

/-- With enough calls the value is read wherever its text stands, after white space. -/
def IsRead (lib : JavaLib D) (v : Value D) (t : JString) : Prop :=
  ∃ n, ∀ calls ≥ n, ∀ (s before rest : JString) (pos : Nat),
    s.drop pos = before ++ (t ++ rest) → Blank before → Stops isNumeric rest →
    parseValue lib calls s pos = some (.ok (v, pos + before.length + t.length))

theorem isRead_of_start {v : Value D} {t : JString} (hstart : ∃ c rest, t = c :: rest ∧
    isWs c = false ∧ c ≠ u ']') (n : Nat) (h : ∀ calls ≥ n, ∀ (s rest : JString) (pos : Nat),
      s.drop pos = t ++ rest → Stops isNumeric rest →
      parseValue lib calls s pos = some (.ok (v, pos + t.length))) : IsRead lib v t := by
  refine ⟨n + 1, fun calls hcalls s before rest pos hs hb hrest => ?_⟩
  obtain ⟨c, more, rfl, hws, -⟩ := hstart
  have hskip : skipWs s pos = pos + before.length :=
    skipWs_blank hs hb fun c' hc' => by cases hc'; exact hws
  have hat := drop_append hs
  obtain ⟨calls, rfl⟩ := Nat.exists_eq_add_of_le' (Nat.le_trans (Nat.le_add_left 1 n) hcalls)
  rw [← h (calls + 1) (by omega) s rest _ hat hrest, parseValue, parseValue, hskip,
    skipWs_stop (hat.trans List.cons_append) hws]

theorem isRead_word {v : Value D} {w : JString} (hstart : ∃ c rest, w = c :: rest ∧
    isWs c = false ∧ c ≠ u ']') (h : ∀ calls s pos rest, s.drop pos = w ++ rest →
      parseValue lib (calls + 1) s pos = some ((expect w s pos).map fun pos => (v, pos))) :
    IsRead lib v w := by
  refine isRead_of_start hstart 1 fun calls hcalls s rest pos hs _ => ?_
  obtain ⟨calls, rfl⟩ := Nat.exists_eq_add_of_le' hcalls
  rw [h calls s pos rest hs, expect_written hs]
  rfl

theorem isRead_null : IsRead lib .null nullText := by
  refine isRead_word ⟨_, _, rfl, by decide⟩ fun calls s pos rest hs => ?_
  rw [parseValue_start lib hs (by decide)]
  rfl

theorem isRead_bool (b : Bool) : IsRead lib (.bool b) (if b then trueText else falseText) := by
  cases b with
  | true =>
    refine isRead_word ⟨_, _, rfl, by decide⟩ fun calls s pos rest hs => ?_
    rw [parseValue_start lib hs (by decide)]
    rfl
  | false =>
    refine isRead_word ⟨_, _, rfl, by decide⟩ fun calls s pos rest hs => ?_
    rw [parseValue_start lib hs (by decide)]
    rfl

theorem isRead_string {str t : JString} (h : Spelled (Unescapes lib) str t) :
    IsRead lib (.string str) (u '"' :: (t ++ [u '"'])) := by
  refine isRead_of_start ⟨_, _, rfl, by decide⟩ 1 fun calls hcalls s rest pos hs _ => ?_
  obtain ⟨calls, rfl⟩ := Nat.exists_eq_add_of_le' hcalls
  have hopen : s.drop (pos + 1) = t ++ u '"' :: rest := by
    rw [drop_succ hs]
    simp
  rw [parseValue_start lib hs (by decide), if_neg (by decide), if_neg (by decide), if_pos rfl,
    string_read lib h hopen]
  simp [Except.map, Nat.add_assoc, Nat.add_comm 1]

theorem isRead_number {v : Value D} {t : JString} (h : Numeral lib v t) : IsRead lib v t := by
  obtain ⟨c, more, rfl, hc⟩ := h.starts
  obtain ⟨hws, hbracket, hbrace, hsquare, hquote, ht, hf, hn⟩ := isNumeric_start hc
  refine isRead_of_start ⟨c, more, rfl, hws, hbracket⟩ 1 fun calls hcalls s rest pos hs hrest => ?_
  obtain ⟨calls, rfl⟩ := Nat.exists_eq_add_of_le' hcalls
  have hnumber := parseNumber_eq lib s pos
  rw [hs, takeWhile_run h.1 hrest, h.2, Option.map_some] at hnumber
  rw [parseValue_start lib hs hws, if_neg hbrace, if_neg hsquare, if_neg hquote, if_neg ht,
    if_neg hf, if_neg hn]
  cases hparsed : parseNumber lib s pos with
  | error e =>
    rw [hparsed] at hnumber
    cases hnumber
  | ok read =>
    rw [hparsed] at hnumber
    rw [Option.some.inj hnumber]

theorem stops_close {c : UInt16} (hc : isNumeric c = false) (rest : JString) :
    Stops isNumeric (c :: rest) := fun _ h => by cases h; exact hc

theorem element_round {e : Element D} {calls pos : Nat} {s rest : JString} {c : UInt16}
    (hread : ∀ s before rest pos, s.drop pos = before ++ (e.text ++ rest) → Blank before →
      Stops isNumeric rest → parseValue lib calls s pos =
        some (.ok (e.value, pos + before.length + e.text.length)))
    (hbefore : Blank e.before) (hafter : Blank e.after) (hc : c = u ',' ∨ c = u ']')
    (h : s.drop pos = e.layout ++ c :: rest) (acc : List (Value D)) :
    parseElements lib (calls + 1) acc s pos =
      if c = u ']' then some (.ok (.list (acc ++ [e.value]), pos + e.layout.length + 1))
      else parseElements lib calls (acc ++ [e.value]) s (pos + e.layout.length + 1) := by
  have hlayout : s.drop pos = e.before ++ (e.text ++ (e.after ++ c :: rest)) := by
    rw [h, Element.layout]
    simp
  have hplain : isNumeric c = false ∧ isWs c = false := by
    rcases hc with rfl | rfl <;> decide
  have hvalue := hread s e.before _ pos hlayout hbefore (stops_blank hafter (stops_close hplain.1 rest))
  have hbehind := drop_append (drop_append hlayout)
  have hskip := skipWs_blank hbehind hafter fun c' hc' => by cases hc'; exact hplain.2
  have hend : pos + e.before.length + e.text.length + e.after.length = pos + e.layout.length := by
    simp [Element.layout, Nat.add_assoc]
  rw [hend] at hskip
  rw [parseElements, hvalue]
  simp only [hskip, unit_at? (drop_append h)]
  rcases hc with rfl | rfl
  · rw [if_neg (by decide), if_neg (by decide), if_neg (by decide)]
  · rw [if_pos rfl, if_pos rfl]

theorem elements_read {es : List (Element D)} (hne : es ≠ [])
    (hblank : ∀ e ∈ es, Blank e.before ∧ Blank e.after)
    (hread : ∀ e ∈ es, IsRead lib e.value e.text) :
    ∃ n, ∀ calls ≥ n, ∀ (s rest : JString) (pos : Nat) (acc : List (Value D)),
      s.drop pos = listing (u ']') (es.map (·.layout)) ++ rest →
      parseElements lib calls acc s pos = some (.ok (.list (acc ++ es.map (·.value)),
        pos + (listing (u ']') (es.map (·.layout))).length)) := by
  induction es with
  | nil => exact absurd rfl hne
  | cons e es ih =>
    obtain ⟨n, hn⟩ := hread e List.mem_cons_self
    obtain ⟨hbefore, hafter⟩ := hblank e List.mem_cons_self
    cases es with
    | nil =>
      refine ⟨n + 1, fun calls hcalls s rest pos acc h => ?_⟩
      obtain ⟨calls, rfl⟩ := Nat.exists_eq_add_of_le' (Nat.le_trans (Nat.le_add_left 1 n) hcalls)
      have hlast : s.drop pos = e.layout ++ u ']' :: rest := by
        rw [h]
        simp [listing]
      rw [element_round (hn calls (by omega)) hbefore hafter (.inr rfl) hlast, if_pos rfl]
      simp [listing, Nat.add_assoc]
    | cons e' es =>
      obtain ⟨n', hn'⟩ := ih (List.cons_ne_nil e' es)
        (fun e he => hblank e (List.mem_cons_of_mem _ he))
        fun e he => hread e (List.mem_cons_of_mem _ he)
      refine ⟨n + n' + 1, fun calls hcalls s rest pos acc h => ?_⟩
      obtain ⟨calls, rfl⟩ := Nat.exists_eq_add_of_le' (Nat.le_trans (Nat.le_add_left 1 _) hcalls)
      have hmore : listing (u ']') ((e :: e' :: es).map (·.layout)) =
          e.layout ++ u ',' :: listing (u ']') ((e' :: es).map (·.layout)) := by
        rw [List.map_cons, listing, if_neg (by simp)]
      have hnext : s.drop pos =
          e.layout ++ u ',' :: (listing (u ']') ((e' :: es).map (·.layout)) ++ rest) := by
        rw [h, hmore]
        simp
      rw [element_round (hn calls (by omega)) hbefore hafter (.inl rfl) hnext, if_neg (by decide),
        hn' calls (by omega) s rest _ _ (drop_succ (drop_append hnext)), hmore]
      simp [Nat.add_assoc, Nat.add_comm 1]

theorem isRead_empty {v : Value D} {b : JString} (hb : Blank b) {opens closes : UInt16}
    (hopens : isWs opens = false ∧ opens ≠ u ']') (hcloses : isWs closes = false)
    (h : ∀ calls s pos rest, s.drop pos = opens :: rest →
      s[skipWs s (pos + 1)]? = some closes → parseValue lib (calls + 2) s pos =
        some (.ok (v, skipWs s (pos + 1) + 1))) :
    IsRead lib v (opens :: (b ++ [closes])) := by
  refine isRead_of_start ⟨_, _, rfl, hopens⟩ 2 fun calls hcalls s rest pos hs _ => ?_
  obtain ⟨calls, rfl⟩ := Nat.exists_eq_add_of_le' hcalls
  have hinside : s.drop (pos + 1) = b ++ closes :: rest := by
    rw [drop_succ hs]
    simp
  have hskip := skipWs_blank hinside hb fun c hc => by cases hc; exact hcloses
  rw [h calls s pos _ hs (by rw [hskip]; exact unit_at? (drop_append hinside)), hskip]
  simp [Nat.add_assoc, Nat.add_comm 1]

theorem isRead_noElements {b : JString} (hb : Blank b) :
    IsRead lib (.list []) (u '[' :: (b ++ [u ']'])) := by
  refine isRead_empty hb (by decide) (by decide) fun calls s pos rest hs hclose => ?_
  rw [parseValue_start lib hs (by decide), if_neg (by decide), if_pos rfl, parseArray]
  simp only [hclose, if_true]

theorem isRead_noMembers {b : JString} (hb : Blank b) :
    IsRead lib (.map []) (u '{' :: (b ++ [u '}'])) := by
  refine isRead_empty hb (by decide) (by decide) fun calls s pos rest hs hclose => ?_
  rw [parseValue_start lib hs (by decide), if_pos rfl, parseObject]
  simp only [hclose, if_true]

theorem listing_cons (close : UInt16) (t : JString) (ts : List JString) :
    ∃ rest, listing close (t :: ts) = t ++ rest := ⟨_, rfl⟩

theorem listing_before (close : UInt16) (b t : JString) (ts : List JString) :
    listing close ((b ++ t) :: ts) = b ++ listing close (t :: ts) := by
  rw [listing, listing, List.append_assoc]

theorem isRead_list {es : List (Element D)} (hne : es ≠ [])
    (hblank : ∀ e ∈ es, Blank e.before ∧ Blank e.after)
    (htext : ∀ e ∈ es, Text lib e.value e.text)
    (hread : ∀ e ∈ es, IsRead lib e.value e.text) :
    IsRead lib (.list (es.map (·.value))) (u '[' :: listing (u ']') (es.map (·.layout))) := by
  obtain ⟨e, es, rfl⟩ := List.exists_cons_of_ne_nil hne
  -- `parseArray` goes over the white space before the first element on its own.
  obtain ⟨n, hn⟩ := elements_read (List.cons_ne_nil { e with before := [] } es)
    (List.forall_mem_cons.2 ⟨⟨nofun, (hblank e List.mem_cons_self).2⟩,
      fun e' he' => hblank e' (List.mem_cons_of_mem _ he')⟩)
    (List.forall_mem_cons.2 ⟨hread e List.mem_cons_self,
      fun e' he' => hread e' (List.mem_cons_of_mem _ he')⟩)
  refine isRead_of_start ⟨_, _, rfl, by decide⟩ (n + 2) fun calls hcalls s rest pos hs _ => ?_
  obtain ⟨calls, rfl⟩ := Nat.exists_eq_add_of_le' (Nat.le_trans (Nat.le_add_left 2 n) hcalls)
  have hbefore : listing (u ']') ((e :: es).map (·.layout)) =
      e.before ++ listing (u ']') (({ e with before := [] } :: es).map (·.layout)) :=
    listing_before (u ']') e.before (e.text ++ e.after) (es.map Element.layout)
  have hinside : s.drop (pos + 1) = e.before ++
      (listing (u ']') (({ e with before := [] } :: es).map (·.layout)) ++ rest) := by
    rw [drop_succ (hs.trans List.cons_append), hbefore, List.append_assoc]
  obtain ⟨c, more, hc, hws, hbracket⟩ := text_starts (htext e List.mem_cons_self)
  obtain ⟨behind, hseq⟩ := listing_cons (u ']') (e.text ++ e.after) (es.map (·.layout))
  have hfirst : s.drop (pos + 1) = e.before ++ c :: (more ++ (e.after ++ behind) ++ rest) := by
    rw [hinside, List.map_cons, Element.layout, List.nil_append, hseq, hc]
    simp
  have hskip := skipWs_blank hfirst (hblank e List.mem_cons_self).1
    fun c' hc' => by cases hc'; exact hws
  rw [parseValue_start lib hs (by decide), if_neg (by decide), if_pos rfl, parseArray]
  simp only [hskip, unit_at? (drop_append hfirst), Option.some.injEq, if_neg hbracket]
  rw [hn calls (by omega) s rest _ [] (drop_append hinside), hbefore]
  simp [Nat.add_assoc, Nat.add_comm 1]

/-- Where the value of a member starts to be looked for. -/
def Member.head (m : Member D) : JString :=
  m.before ++ u '"' :: (m.keyText ++ u '"' :: (m.between ++ [u ':']))

theorem Member.layout_eq (m : Member D) (rest : JString) :
    m.layout ++ rest = m.head ++ (m.element.layout ++ rest) := by
  simp [layout, head]

theorem head_round {m : Member D} {pos : Nat} {s rest : JString} (hbefore : Blank m.before)
    (hbetween : Blank m.between) (hkey : Spelled (Unescapes lib) m.key m.keyText)
    (h : s.drop pos = m.head ++ rest) (calls : Nat) (acc : List (JString × Value D)) :
    parseMembers lib (calls + 1) acc s pos =
      match parseValue lib calls s (pos + m.head.length) with
      | none => none
      | some (.error e) => some (.error e)
      | some (.ok (v, pos)) =>
        match s[skipWs s pos]? with
        | none => some (.error (.json (units "unterminated object")))
        | some d =>
          if d = u '}' then some (.ok (.map (put acc m.key v), skipWs s pos + 1))
          else if d ≠ u ',' then
            some (.error (.json (units s!"expected ',' or '\x7d' at {skipWs s pos}")))
          else parseMembers lib calls (put acc m.key v) s (skipWs s pos + 1) := by
  have hquote : s.drop pos =
      m.before ++ u '"' :: (m.keyText ++ u '"' :: (m.between ++ u ':' :: rest)) := by
    rw [h, Member.head]
    simp
  have hskip := skipWs_blank hquote hbefore fun c hc => by cases hc; decide
  have hopen := drop_append hquote
  have hkeyText := drop_succ hopen
  have hread := string_read lib hkey hkeyText []
  have hbehind := drop_succ (drop_append hkeyText)
  have hcolon := skipWs_blank hbehind hbetween fun c hc => by cases hc; decide
  have hend : pos + m.before.length + 1 + m.keyText.length + 1 + m.between.length + 1 =
      pos + m.head.length := by
    simp only [Member.head, List.length_append, List.length_cons, List.length_nil]
    omega
  have hround := parseMembers.eq_def lib (calls + 1) acc s pos
  simp only [hskip, unit_at? hopen, hread, List.nil_append, hcolon,
    unit_at? (drop_append hbehind), ne_eq, not_true_eq_false, if_false, hend] at hround
  exact hround

theorem member_round {m : Member D} {calls pos : Nat} {s rest : JString} {c : UInt16}
    (hread : ∀ s before rest pos, s.drop pos = before ++ (m.element.text ++ rest) → Blank before →
      Stops isNumeric rest → parseValue lib calls s pos =
        some (.ok (m.element.value, pos + before.length + m.element.text.length)))
    (hblank : Blank m.before ∧ Blank m.between ∧ Blank m.element.before ∧ Blank m.element.after)
    (hkey : Spelled (Unescapes lib) m.key m.keyText) (hc : c = u ',' ∨ c = u '}')
    (h : s.drop pos = m.layout ++ c :: rest) (acc : List (JString × Value D)) :
    parseMembers lib (calls + 1) acc s pos =
      if c = u '}' then
        some (.ok (.map (put acc m.key m.element.value), pos + m.layout.length + 1))
      else parseMembers lib calls (put acc m.key m.element.value) s (pos + m.layout.length + 1) := by
  obtain ⟨hbefore, hbetween, hvalueBefore, hafter⟩ := hblank
  have hhead := h.trans (m.layout_eq (c :: rest))
  have hlayout : s.drop (pos + m.head.length) =
      m.element.before ++ (m.element.text ++ (m.element.after ++ c :: rest)) := by
    rw [drop_append hhead, Element.layout]
    simp
  have hplain : isNumeric c = false ∧ isWs c = false := by
    rcases hc with rfl | rfl <;> decide
  have hvalue := hread s m.element.before _ _ hlayout hvalueBefore
    (stops_blank hafter (stops_close hplain.1 rest))
  have hbehind := drop_append (drop_append hlayout)
  have hskip := skipWs_blank hbehind hafter fun c' hc' => by cases hc'; exact hplain.2
  have hend : pos + m.head.length + m.element.before.length + m.element.text.length +
      m.element.after.length = pos + m.layout.length := by
    have hlen := congrArg List.length (m.layout_eq [])
    simp only [List.append_nil, List.length_append, Element.layout] at hlen
    omega
  rw [hend] at hskip
  rw [head_round hbefore hbetween hkey hhead, hvalue]
  simp only [hskip, unit_at? (drop_append h)]
  rcases hc with rfl | rfl
  · rw [if_neg (by decide), if_neg (by decide), if_neg (by decide)]
  · rw [if_pos rfl, if_pos rfl]

theorem members_read {ms : List (Member D)} (hne : ms ≠ [])
    (hblank : ∀ m ∈ ms,
      Blank m.before ∧ Blank m.between ∧ Blank m.element.before ∧ Blank m.element.after)
    (hkeys : ∀ m ∈ ms, Spelled (Unescapes lib) m.key m.keyText)
    (hread : ∀ m ∈ ms, IsRead lib m.element.value m.element.text) :
    ∃ n, ∀ calls ≥ n, ∀ (s rest : JString) (pos : Nat) (acc : List (JString × Value D)),
      s.drop pos = listing (u '}') (ms.map (·.layout)) ++ rest →
      parseMembers lib calls acc s pos =
        some (.ok (.map (ms.foldl (fun acc m => put acc m.key m.element.value) acc),
          pos + (listing (u '}') (ms.map (·.layout))).length)) := by
  induction ms with
  | nil => exact absurd rfl hne
  | cons m ms ih =>
    obtain ⟨n, hn⟩ := hread m List.mem_cons_self
    have hhere := hblank m List.mem_cons_self
    have hkey := hkeys m List.mem_cons_self
    cases ms with
    | nil =>
      refine ⟨n + 1, fun calls hcalls s rest pos acc h => ?_⟩
      obtain ⟨calls, rfl⟩ := Nat.exists_eq_add_of_le' (Nat.le_trans (Nat.le_add_left 1 n) hcalls)
      have hlast : s.drop pos = m.layout ++ u '}' :: rest := by
        rw [h]
        simp [listing]
      rw [member_round (hn calls (by omega)) hhere hkey (.inr rfl) hlast, if_pos rfl]
      simp [listing, Nat.add_assoc]
    | cons m' ms =>
      obtain ⟨n', hn'⟩ := ih (List.cons_ne_nil m' ms)
        (fun m hm => hblank m (List.mem_cons_of_mem _ hm))
        (fun m hm => hkeys m (List.mem_cons_of_mem _ hm))
        fun m hm => hread m (List.mem_cons_of_mem _ hm)
      refine ⟨n + n' + 1, fun calls hcalls s rest pos acc h => ?_⟩
      obtain ⟨calls, rfl⟩ := Nat.exists_eq_add_of_le' (Nat.le_trans (Nat.le_add_left 1 _) hcalls)
      have hmore : listing (u '}') ((m :: m' :: ms).map (·.layout)) =
          m.layout ++ u ',' :: listing (u '}') ((m' :: ms).map (·.layout)) := by
        rw [List.map_cons, listing, if_neg (by simp)]
      have hnext : s.drop pos =
          m.layout ++ u ',' :: (listing (u '}') ((m' :: ms).map (·.layout)) ++ rest) := by
        rw [h, hmore]
        simp
      rw [member_round (hn calls (by omega)) hhere hkey (.inl rfl) hnext, if_neg (by decide),
        hn' calls (by omega) s rest _ _ (drop_succ (drop_append hnext)), hmore]
      simp [Nat.add_assoc, Nat.add_comm 1]

theorem isRead_map {ms : List (Member D)} (hne : ms ≠ [])
    (hblank : ∀ m ∈ ms,
      Blank m.before ∧ Blank m.between ∧ Blank m.element.before ∧ Blank m.element.after)
    (hkeys : ∀ m ∈ ms, Spelled (Unescapes lib) m.key m.keyText)
    (hread : ∀ m ∈ ms, IsRead lib m.element.value m.element.text) :
    IsRead lib (.map (entries ms)) (u '{' :: listing (u '}') (ms.map (·.layout))) := by
  obtain ⟨m, ms, rfl⟩ := List.exists_cons_of_ne_nil hne
  have hhere := hblank m List.mem_cons_self
  -- As for lists, the white space before the first key has been gone over already.
  obtain ⟨n, hn⟩ := members_read (List.cons_ne_nil { m with before := [] } ms)
    (List.forall_mem_cons.2 ⟨⟨nofun, hhere.2⟩,
      fun m' hm' => hblank m' (List.mem_cons_of_mem _ hm')⟩)
    (List.forall_mem_cons.2 ⟨hkeys m List.mem_cons_self,
      fun m' hm' => hkeys m' (List.mem_cons_of_mem _ hm')⟩)
    (List.forall_mem_cons.2 ⟨hread m List.mem_cons_self,
      fun m' hm' => hread m' (List.mem_cons_of_mem _ hm')⟩)
  refine isRead_of_start ⟨_, _, rfl, by decide⟩ (n + 2) fun calls hcalls s rest pos hs _ => ?_
  obtain ⟨calls, rfl⟩ := Nat.exists_eq_add_of_le' (Nat.le_trans (Nat.le_add_left 2 n) hcalls)
  have hbefore : listing (u '}') ((m :: ms).map (·.layout)) =
      m.before ++ listing (u '}') (({ m with before := [] } :: ms).map (·.layout)) :=
    listing_before (u '}') m.before _ (ms.map Member.layout)
  have hinside : s.drop (pos + 1) = m.before ++
      (listing (u '}') (({ m with before := [] } :: ms).map (·.layout)) ++ rest) := by
    rw [drop_succ (hs.trans List.cons_append), hbefore, List.append_assoc]
  obtain ⟨more, hfirst⟩ : ∃ more, s.drop (pos + 1) = m.before ++ u '"' :: more := ⟨_, hinside⟩
  have hskip := skipWs_blank hfirst hhere.1 fun c hc => by cases hc; decide
  have hbrace : ¬u '"' = u '}' := by decide
  rw [parseValue_start lib hs (by decide), if_pos rfl, parseObject]
  simp only [hskip, unit_at? (drop_append hfirst), Option.some.injEq, if_neg hbrace]
  rw [hn calls (by omega) s rest _ [] (drop_append hinside), hbefore]
  simp [entries, Nat.add_assoc, Nat.add_comm 1]

theorem text_read {v : Value D} {t : JString} (h : Text lib v t) : IsRead lib v t := by
  induction h with
  | null => exact isRead_null
  | bool b => exact isRead_bool b
  | number hv => exact isRead_number hv
  | string hs => exact isRead_string hs
  | noElements hb => exact isRead_noElements hb
  | list hne hblank htext ih => exact isRead_list hne hblank htext ih
  | noMembers hb => exact isRead_noMembers hb
  | map hne hblank hkeys _ ih => exact isRead_map hne hblank hkeys ih

/-- Every text of the grammar is read as what it denotes. -/
theorem document_read {v : Value D} {s : JString}
    (h : Document (Numeral lib) (Unescapes lib) v s) :
    ∃ n, ∀ calls ≥ n, parse lib calls s = some (.ok v) := by
  obtain ⟨before, t, after, rfl, hbefore, hafter, ht⟩ := h
  obtain ⟨n, hn⟩ := text_read ht
  obtain ⟨c, more, rfl, hws, -⟩ := text_starts ht
  refine ⟨n, fun calls hcalls => ?_⟩
  generalize hs : before ++ (c :: more ++ after) = s
  have hwhole : s.drop 0 = before ++ (c :: more ++ after) := hs.symm
  have hskip := skipWs_blank hwhole hbefore fun c' hc' => by cases hc'; exact hws
  have hat := drop_append hwhole
  have hread := hn calls hcalls s [] after _ hat nofun
    (by simpa using stops_blank hafter (show Stops isNumeric [] from nofun))
  have hbehind : s.drop (0 + before.length + (c :: more).length) = after ++ [] := by
    rw [drop_append hat, List.append_nil]
  have hend := skipWs_blank hbehind hafter nofun
  have hlen : s.length = 0 + before.length + (c :: more).length + after.length := by
    rw [← hs]
    simp only [List.length_append]
    omega
  unfold parse
  rw [hskip, hread]
  simp only [List.length_nil, Nat.add_zero, hend, hlen, Nat.lt_irrefl, if_false]

end Lobbylink.Java.Grammar
