import Mathlib.Data.Nat.Digits.Lemmas
import Lobbylink.Java.Json

/-! What the reader makes of a written value: the value. -/
namespace Lobbylink.Java.RoundTrip
open Json

variable {D : Type} (lib : JavaLib D)

theorem pos_lt {s rest : JString} {pos : Nat} {c : UInt16} (h : s.drop pos = c :: rest) :
    pos < s.length := by
  by_contra hge
  rw [List.drop_eq_nil_of_le (Nat.not_lt.1 hge)] at h
  cases h

theorem unit_at {s rest : JString} {pos : Nat} {c : UInt16} (h : s.drop pos = c :: rest)
    (hlt : pos < s.length) : s[pos] = c := by
  rw [List.drop_eq_getElem_cons hlt] at h
  exact (List.cons.inj h).1

theorem unit_at? {s rest : JString} {pos : Nat} {c : UInt16} (h : s.drop pos = c :: rest) :
    s[pos]? = some c := by
  rw [List.getElem?_eq_getElem (pos_lt h), unit_at h]

theorem drop_append {s a b : JString} {pos : Nat} (h : s.drop pos = a ++ b) :
    s.drop (pos + a.length) = b := by
  rw [← List.drop_drop, h, List.drop_left]

theorem drop_succ {s rest : JString} {pos : Nat} {c : UInt16} (h : s.drop pos = c :: rest) :
    s.drop (pos + 1) = rest := drop_append (a := [c]) h

theorem skipWs_stop {s rest : JString} {pos : Nat} {c : UInt16} (h : s.drop pos = c :: rest)
    (hc : isWs c = false) : skipWs s pos = pos := by
  rw [skipWs, dif_pos (pos_lt h), unit_at h, hc]
  simp

theorem asciiDigit_digitUnit : ∀ radix ≤ 16, ∀ d < radix,
    digitUnit d < 128 ∧ asciiDigit radix (digitUnit d) = some d := by decide +kernel

theorem digit_digitUnit {radix d : Nat} (hd : d < radix) (hradix : radix ≤ 16) :
    lib.digit radix (digitUnit d) = some d := by
  obtain ⟨hascii, hdigit⟩ := asciiDigit_digitUnit radix hradix d hd
  rw [lib.digit_ascii radix _ hascii, hdigit]

theorem digitsValue_append (radix : Nat) (ds : List Nat) (hds : ∀ d ∈ ds, d < radix)
    (hradix : radix ≤ 16) (n : Nat) :
    digitsValue lib radix (ds.map digitUnit) n = some (ds.foldl (fun n d => n * radix + d) n) := by
  induction ds generalizing n with
  | nil => rfl
  | cons d rest ih =>
    rw [List.map_cons, digitsValue, digit_digitUnit lib (hds d List.mem_cons_self) hradix,
      Option.bind_some, ih fun d hd => hds d (List.mem_cons_of_mem _ hd)]
    rfl

def decimals (n : Nat) : List Nat := if n = 0 then [0] else (Nat.digits 10 n).reverse

theorem decimal_eq (n : Nat) : decimal n = (decimals n).map digitUnit := by
  unfold decimal decimals
  split_ifs
  · rfl
  · rfl

theorem decimals_lt (n : Nat) : ∀ d ∈ decimals n, d < 10 := by
  intro d hd
  unfold decimals at hd
  split_ifs at hd
  · rw [List.mem_singleton.1 hd]
    decide
  · exact Nat.digits_lt_base (by decide) (List.mem_reverse.1 hd)

theorem decimals_ne_nil (n : Nat) : decimals n ≠ [] := by
  unfold decimals
  split_ifs with hzero
  · simp
  · simpa [Nat.digits_eq_nil_iff_eq_zero] using hzero

theorem foldl_decimals (n : Nat) : (decimals n).foldl (fun n d => n * 10 + d) 0 = n := by
  unfold decimals
  split_ifs with hzero
  · exact hzero.symm
  · rw [List.foldl_reverse]
    have hvalue := Nat.ofDigits_digits 10 n
    rw [Nat.ofDigits_eq_foldr] at hvalue
    refine Eq.trans ?_ hvalue
    congr 1
    funext d n
    simp [Nat.mul_comm, Nat.add_comm]

theorem magnitude_decimal (n : Nat) : magnitude lib 10 (decimal n) = some n := by
  unfold magnitude
  rw [decimal_eq, if_neg (by simpa using decimals_ne_nil n),
    digitsValue_append lib 10 _ (decimals_lt n) (by decide), foldl_decimals]

def Ends (tail : JString) : Prop :=
  ∀ c ∈ tail.head?, c = u ',' ∨ c = u ']' ∨ c = u '}'

theorem digitUnit_range : ∀ d < 10, u '0' ≤ digitUnit d ∧ digitUnit d ≤ u '9' := by decide

theorem scanNumber_stop {s tail : JString} {pos : Nat} (h : s.drop pos = tail) (hends : Ends tail)
    (isDouble : Bool) : scanNumber s pos isDouble = (pos, isDouble) := by
  rw [scanNumber]
  cases tail with
  | nil => rw [dif_neg (Nat.not_lt.2 (List.drop_eq_nil_iff.1 h))]
  | cons c rest =>
    rw [dif_pos (pos_lt h), unit_at h]
    rcases hends c rfl with rfl | rfl | rfl <;> rfl

theorem scanNumber_digits {s tail : JString} (ds : List Nat) (hds : ∀ d ∈ ds, d < 10) {pos : Nat}
    (h : s.drop pos = ds.map digitUnit ++ tail) (hends : Ends tail) (isDouble : Bool) :
    scanNumber s pos isDouble = (pos + ds.length, isDouble) := by
  induction ds generalizing pos with
  | nil => exact scanNumber_stop h hends isDouble
  | cons d rest ih =>
    rw [List.map_cons, List.cons_append] at h
    rw [scanNumber, dif_pos (pos_lt h), unit_at h]
    simp only [if_pos (digitUnit_range d (hds d List.mem_cons_self))]
    rw [ih (fun d hd => hds d (List.mem_cons_of_mem _ hd)) (drop_succ h), List.length_cons,
      Nat.add_assoc, Nat.add_comm 1]

theorem longText_eq (n : Int64) : longText n =
    (if n.toInt < 0 then [u '-'] else []) ++ (decimals n.toInt.natAbs).map digitUnit := by
  unfold longText
  rw [decimal_eq]
  split_ifs
  · rfl
  · rfl

theorem parseInteger_longText (n : Int64) : parseInteger lib 10 (longText n) = some n.toInt := by
  unfold longText
  by_cases hneg : n.toInt < 0
  · rw [if_pos hneg, parseInteger, if_pos rfl, magnitude_decimal, Option.map_some]
    congr 1
    omega
  · rw [if_neg hneg]
    have hmag := magnitude_decimal lib n.toInt.natAbs
    rw [decimal_eq] at hmag ⊢
    obtain ⟨d, rest, hds⟩ := List.exists_cons_of_ne_nil (decimals_ne_nil n.toInt.natAbs)
    have hd := decimals_lt n.toInt.natAbs d (by simp [hds])
    rw [hds, List.map_cons] at hmag ⊢
    have hsign : ∀ d < 10, digitUnit d ≠ u '-' ∧ digitUnit d ≠ u '+' := by decide
    rw [parseInteger, if_neg (hsign d hd).1, if_neg (hsign d hd).2, hmag, Option.map_some]
    congr 1
    omega

theorem parseLong_longText (n : Int64) : parseLong lib (longText n) = some n := by
  have hlow := n.le_toInt
  have hhigh := n.toInt_lt
  unfold parseLong
  rw [parseInteger_longText, Option.filter_some, if_pos (by simpa using ⟨hlow, hhigh⟩),
    Option.map_some, Int64.ofInt_toInt]

theorem longText_ne (n : Int64) : longText n ≠ [] ∧ longText n ≠ [u '-'] := by
  have hne := decimals_ne_nil n.toInt.natAbs
  rw [longText_eq]
  split_ifs
  · simpa using hne
  · obtain ⟨d, rest, hds⟩ := List.exists_cons_of_ne_nil hne
    have hd := decimals_lt n.toInt.natAbs d (by simp [hds])
    have hsign : ∀ d < 10, digitUnit d ≠ u '-' := by decide
    rw [hds]
    simp [hsign d hd]

theorem scanNumber_longText {s tail : JString} {pos : Nat} (n : Int64)
    (h : s.drop pos = longText n ++ tail) (hends : Ends tail) :
    scanNumber s (if s[pos]? = some (u '-') then pos + 1 else pos) false =
      (pos + (longText n).length, false) := by
  have hds := decimals_lt n.toInt.natAbs
  rw [longText_eq] at h ⊢
  by_cases hneg : n.toInt < 0
  · rw [if_pos hneg] at h ⊢
    rw [unit_at? h, if_pos rfl, scanNumber_digits _ hds (drop_succ h) hends]
    simp [Nat.add_assoc, Nat.add_comm 1]
  · rw [if_neg hneg, List.nil_append] at h ⊢
    obtain ⟨d, rest, hcons⟩ := List.exists_cons_of_ne_nil (decimals_ne_nil n.toInt.natAbs)
    have hd := hds d (by simp [hcons])
    have hsign : ∀ d < 10, digitUnit d ≠ u '-' := by decide
    have hfirst : s[pos]? = some (digitUnit d) := by
      rw [hcons] at h
      exact unit_at? h
    rw [hfirst, if_neg (fun heq => hsign d hd (Option.some.inj heq)),
      scanNumber_digits _ hds h hends, List.length_map]

theorem parseNumber_longText {s tail : JString} {pos : Nat} (n : Int64)
    (h : s.drop pos = longText n ++ tail) (hends : Ends tail) :
    parseNumber lib s pos = .ok (.long n, pos + (longText n).length) := by
  have hnum : (s.drop pos).take (pos + (longText n).length - pos) = longText n := by
    rw [h, Nat.add_sub_cancel_left, List.take_left]
  unfold parseNumber
  simp only [scanNumber_longText n h hends, hnum, parseLong_longText]
  rw [if_neg (by simp [longText_ne])]
  rfl

theorem plain_step {s rest : JString} {pos : Nat} {c : UInt16} (h : s.drop pos = c :: rest)
    (hquote : c ≠ u '"') (hescape : c ≠ u '\\') (sb : JString) :
    parseString lib s pos sb = parseString lib s (pos + 1) (sb ++ [c]) := by
  rw [parseString, dif_pos (pos_lt h), unit_at h]
  simp only [if_neg hquote, if_neg hescape]

theorem escape_step {s rest : JString} {pos : Nat} {e d : UInt16}
    (h : s.drop pos = u '\\' :: e :: rest) (he : unescape e = some d) (sb : JString) :
    parseString lib s pos sb = parseString lib s (pos + 2) (sb ++ [d]) := by
  have hnext := drop_succ h
  have hquote : u '\\' ≠ u '"' := by decide
  rw [parseString, dif_pos (pos_lt h), unit_at h]
  simp only [if_neg hquote, if_true, dif_pos (pos_lt hnext), unit_at hnext, he]

theorem hex_step {s rest : JString} {pos : Nat} {a b c d : UInt16} {n : Int}
    (h : s.drop pos = u '\\' :: u 'u' :: a :: b :: c :: d :: rest)
    (hn : parseInt lib 16 [a, b, c, d] = some n) (sb : JString) :
    parseString lib s pos sb = parseString lib s (pos + 6) (sb ++ [UInt16.ofInt n]) := by
  have hnext := drop_succ h
  have hdigits : s.drop (pos + 2) = [a, b, c, d] ++ rest := drop_succ hnext
  have hfour : ¬pos + 2 + 4 > s.length := by
    have hlen := congrArg List.length hdigits
    simp only [List.length_drop, List.length_append, List.length_cons, List.length_nil] at hlen
    omega
  have htake : (s.drop (pos + 2)).take 4 = [a, b, c, d] := by
    rw [hdigits]
    rfl
  have hquote : u '\\' ≠ u '"' := by decide
  have hu : unescape (u 'u') = none := by decide
  rw [parseString, dif_pos (pos_lt h), unit_at h]
  simp only [if_neg hquote, if_true, dif_pos (pos_lt hnext), unit_at hnext, hu, if_neg hfour,
    htake, hn]

theorem parseInt_unit (c : UInt16) :
    parseInt lib 16 [digitUnit (c.toNat / 4096), digitUnit (c.toNat / 256 % 16),
      digitUnit (c.toNat / 16 % 16), digitUnit (c.toNat % 16)] = some (c.toNat : Int) := by
  have hc := c.toNat_lt
  have hsign : ∀ d < 16, digitUnit d ≠ u '-' ∧ digitUnit d ≠ u '+' := by decide
  obtain ⟨hminus, hplus⟩ := hsign (c.toNat / 4096) (by omega)
  have hvalue := digitsValue_append lib 16
    [c.toNat / 4096, c.toNat / 256 % 16, c.toNat / 16 % 16, c.toNat % 16] (by
      intro d hd
      simp only [List.mem_cons, List.not_mem_nil, or_false] at hd
      omega) (by decide) 0
  simp only [List.map_cons, List.map_nil, List.foldl_cons, List.foldl_nil] at hvalue
  have hsum : (((0 * 16 + c.toNat / 4096) * 16 + c.toNat / 256 % 16) * 16 + c.toNat / 16 % 16) *
      16 + c.toNat % 16 = c.toNat := by omega
  rw [hsum] at hvalue
  have hsmall : -2 ^ 31 ≤ (c.toNat : Int) ∧ (c.toNat : Int) < 2 ^ 31 := by omega
  unfold parseInt parseInteger magnitude
  simp only [if_neg hminus, if_neg hplus, if_neg (List.cons_ne_nil _ _), hvalue, Option.map_some,
    Option.filter_some, hsmall]
  rfl

theorem ofInt_toNat (c : UInt16) : UInt16.ofInt (c.toNat : Int) = c := by
  have hc := c.toNat_lt
  have hmod : ((c.toNat : Int) % 2 ^ 16).toNat = c.toNat := by omega
  unfold UInt16.ofInt
  rw [hmod, UInt16.ofNat_toNat]

/-- What is written of a unit is read as the unit. -/
theorem unit_step {s rest : JString} {pos : Nat} (c : UInt16)
    (h : s.drop pos = writeUnit c ++ rest) (sb : JString) :
    parseString lib s pos sb =
      parseString lib s (pos + (writeUnit c).length) (sb ++ [c]) := by
  unfold writeUnit at h ⊢
  split_ifs at h ⊢ with hquote hslash hn hr ht hb hf hcontrol
  · exact escape_step lib h (by rw [hquote]; decide) sb
  · exact escape_step lib h (by rw [hslash]; decide) sb
  · exact escape_step lib h (by rw [hn]; decide) sb
  · exact escape_step lib h (by rw [hr]; decide) sb
  · exact escape_step lib h (by rw [ht]; decide) sb
  · exact escape_step lib h (by rw [hb]; decide) sb
  · exact escape_step lib h (by rw [hf]; decide) sb
  · rw [hex_step lib h (parseInt_unit lib c), ofInt_toNat]
    rfl
  · exact plain_step lib h hquote hslash sb

theorem parseString_units {s tail : JString} (str : JString) {pos : Nat}
    (h : s.drop pos = str.flatMap writeUnit ++ u '"' :: tail) (sb : JString) :
    parseString lib s pos sb = .ok (sb ++ str, pos + (str.flatMap writeUnit).length + 1) := by
  induction str generalizing pos sb with
  | nil =>
    rw [List.flatMap_nil, List.nil_append] at h
    rw [parseString, dif_pos (pos_lt h), unit_at h]
    simp
  | cons c rest ih =>
    rw [List.flatMap_cons, List.append_assoc] at h
    rw [unit_step lib c h, ih (drop_append h), List.flatMap_cons, List.length_append]
    simp [Nat.add_assoc]

/-- A written string, from behind its opening quote. -/
theorem parseString_written {s tail : JString} {pos : Nat} (str : JString)
    (h : s.drop pos = writeString str ++ tail) :
    parseString lib s (pos + 1) [] = .ok (str, pos + (writeString str).length) := by
  unfold writeString at h ⊢
  rw [List.cons_append, List.append_assoc] at h
  rw [parseString_units lib str (drop_succ h)]
  simp [Nat.add_assoc, Nat.add_comm 1]

/-- The values that signals are made of: no doubles, and no key twice. -/
inductive Plain : Value D → Prop where
  | null : Plain .null
  | bool (b : Bool) : Plain (.bool b)
  | long (n : Int64) : Plain (.long n)
  | string (s : JString) : Plain (.string s)
  | list {l : List (Value D)} : (∀ v ∈ l, Plain v) → Plain (.list l)
  | map {m : List (JString × Value D)} : (m.map Prod.fst).Nodup → (∀ e ∈ m, Plain e.2) →
      Plain (.map m)

/-- With enough calls, the value is read wherever it is written. -/
def Reads (v : Value D) : Prop :=
  ∃ n, ∀ calls ≥ n, ∀ (s tail : JString) (pos : Nat),
    s.drop pos = writeValue lib v ++ tail → Ends tail →
    parseValue lib calls s pos = some (.ok (v, pos + (writeValue lib v).length))

theorem parseValue_start {s rest : JString} {pos : Nat} {c : UInt16} (h : s.drop pos = c :: rest)
    (hc : isWs c = false) (calls : Nat) : parseValue lib (calls + 1) s pos =
      if c = u '{' then parseObject lib calls s pos
      else if c = u '[' then parseArray lib calls s pos
      else if c = u '"' then
        some ((parseString lib s (pos + 1) []).map fun read => (.string read.1, read.2))
      else if c = u 't' then some ((expect trueText s pos).map fun pos => (.bool true, pos))
      else if c = u 'f' then some ((expect falseText s pos).map fun pos => (.bool false, pos))
      else if c = u 'n' then some ((expect nullText s pos).map fun pos => (.null, pos))
      else some (parseNumber lib s pos) := by
  rw [parseValue, skipWs_stop h hc]
  simp only [unit_at? h]

theorem expect_written {s tail w : JString} {pos : Nat} (h : s.drop pos = w ++ tail) :
    expect w s pos = .ok (pos + w.length) := by
  unfold expect
  rw [h, if_pos (List.prefix_append w tail)]

theorem reads_null : Reads lib .null := by
  refine ⟨1, fun calls hcalls s tail pos h _ => ?_⟩
  obtain ⟨calls, rfl⟩ := Nat.exists_eq_add_of_le' hcalls
  rw [writeValue] at h ⊢
  rw [parseValue_start lib h (by decide), expect_written h]
  rfl

theorem reads_bool (b : Bool) : Reads lib (.bool b) := by
  refine ⟨1, fun calls hcalls s tail pos h _ => ?_⟩
  obtain ⟨calls, rfl⟩ := Nat.exists_eq_add_of_le' hcalls
  rw [writeValue] at h ⊢
  cases b with
  | true =>
    rw [if_pos rfl] at h ⊢
    rw [parseValue_start lib h (by decide), expect_written h]
    rfl
  | false =>
    rw [if_neg Bool.false_ne_true] at h ⊢
    rw [parseValue_start lib h (by decide), expect_written h]
    rfl

theorem reads_string (str : JString) : Reads lib (.string str) := by
  refine ⟨1, fun calls hcalls s tail pos h _ => ?_⟩
  obtain ⟨calls, rfl⟩ := Nat.exists_eq_add_of_le' hcalls
  rw [writeValue] at h ⊢
  rw [parseValue_start lib h (by decide), parseString_written lib str h]
  rfl

theorem longText_start (n : Int64) : ∃ c rest, longText n = c :: rest ∧ isWs c = false ∧
    c ≠ u '{' ∧ c ≠ u '[' ∧ c ≠ u '"' ∧ c ≠ u 't' ∧ c ≠ u 'f' ∧ c ≠ u 'n' ∧ c ≠ u ']' := by
  have hstart : ∀ d < 10, isWs (digitUnit d) = false ∧ digitUnit d ≠ u '{' ∧ digitUnit d ≠ u '[' ∧
      digitUnit d ≠ u '"' ∧ digitUnit d ≠ u 't' ∧ digitUnit d ≠ u 'f' ∧ digitUnit d ≠ u 'n' ∧
      digitUnit d ≠ u ']' := by
    decide
  rw [longText_eq]
  by_cases hneg : n.toInt < 0
  · rw [if_pos hneg]
    exact ⟨_, _, rfl, by decide⟩
  · rw [if_neg hneg]
    obtain ⟨d, rest, hcons⟩ := List.exists_cons_of_ne_nil (decimals_ne_nil n.toInt.natAbs)
    have hd := decimals_lt n.toInt.natAbs d (by simp [hcons])
    rw [hcons]
    exact ⟨_, _, rfl, hstart d hd⟩

theorem reads_long (n : Int64) : Reads lib (.long n) := by
  refine ⟨1, fun calls hcalls s tail pos h hends => ?_⟩
  obtain ⟨calls, rfl⟩ := Nat.exists_eq_add_of_le' hcalls
  rw [writeValue] at h ⊢
  obtain ⟨c, rest, hcons, hws, hbrace, hbracket, hquote, ht, hf, hn, -⟩ := longText_start n
  have hstart : s.drop pos = c :: (rest ++ tail) := by rw [h, hcons, List.cons_append]
  rw [parseValue_start lib hstart hws, if_neg hbrace, if_neg hbracket, if_neg hquote, if_neg ht,
    if_neg hf, if_neg hn, parseNumber_longText lib n h hends]

theorem writeElements_next (v : Value D) (rest : List (Value D)) :
    writeElements lib false (v :: rest) = u ',' :: writeElements lib true (v :: rest) := by
  rw [writeElements, writeElements]
  rfl

theorem ends_bracket (tail : JString) : Ends (u ']' :: tail) :=
  fun _ hc => .inr (.inl (Option.some.inj hc).symm)

theorem ends_comma (tail : JString) : Ends (u ',' :: tail) :=
  fun _ hc => .inl (Option.some.inj hc).symm

theorem ends_brace (tail : JString) : Ends (u '}' :: tail) :=
  fun _ hc => .inr (.inr (Option.some.inj hc).symm)

theorem element_step {v : Value D} {calls pos : Nat} {s tail : JString} {c : UInt16}
    (hv : parseValue lib calls s pos = some (.ok (v, pos + (writeValue lib v).length)))
    (h : s.drop (pos + (writeValue lib v).length) = c :: tail) (hc : isWs c = false)
    (acc : List (Value D)) : parseElements lib (calls + 1) acc s pos =
      if c = u ']' then some (.ok (.list (acc ++ [v]), pos + (writeValue lib v).length + 1))
      else if c ≠ u ',' then some (.error (.json
        (units s!"expected ',' or ']' at {pos + (writeValue lib v).length}")))
      else parseElements lib calls (acc ++ [v]) s (pos + (writeValue lib v).length + 1) := by
  rw [parseElements, hv]
  simp only [skipWs_stop h hc, unit_at? h]

theorem reads_elements {l : List (Value D)} (hreads : ∀ v ∈ l, Reads lib v) (hne : l ≠ []) :
    ∃ n, ∀ calls ≥ n, ∀ (s tail : JString) (pos : Nat) (acc : List (Value D)),
      s.drop pos = writeElements lib true l ++ u ']' :: tail →
      parseElements lib calls acc s pos =
        some (.ok (.list (acc ++ l), pos + (writeElements lib true l).length + 1)) := by
  induction l with
  | nil => exact absurd rfl hne
  | cons v rest ih =>
    obtain ⟨n, hn⟩ := hreads v List.mem_cons_self
    cases rest with
    | nil =>
      refine ⟨n + 1, fun calls hcalls s tail pos acc h => ?_⟩
      obtain ⟨calls, rfl⟩ := Nat.exists_eq_add_of_le' (Nat.le_trans (Nat.le_add_left 1 n) hcalls)
      have hone : writeElements lib true [v] = writeValue lib v := by
        rw [writeElements, writeElements]
        simp
      rw [hone] at h ⊢
      have hv := hn calls (Nat.le_of_succ_le_succ hcalls) s _ pos h (ends_bracket tail)
      rw [element_step lib hv (drop_append h) (by decide), if_pos rfl]
    | cons w rest =>
      obtain ⟨n', hn'⟩ := ih (fun v hv => hreads v (List.mem_cons_of_mem _ hv))
        (List.cons_ne_nil w rest)
      refine ⟨n + n' + 1, fun calls hcalls s tail pos acc h => ?_⟩
      obtain ⟨calls, rfl⟩ := Nat.exists_eq_add_of_le' (Nat.le_trans (Nat.le_add_left 1 _) hcalls)
      have hmore : writeElements lib true (v :: w :: rest) =
          writeValue lib v ++ u ',' :: writeElements lib true (w :: rest) := by
        rw [writeElements, writeElements_next]
        rfl
      rw [hmore, List.append_assoc, List.cons_append] at h
      have hv := hn calls (by omega) s _ pos h (ends_comma _)
      have hrest := drop_append h
      rw [element_step lib hv hrest (by decide), if_neg (by decide), if_neg (by decide),
        hn' calls (by omega) s tail _ (acc ++ [v]) (drop_succ hrest), hmore]
      simp [Nat.add_assoc, Nat.add_comm 1]

theorem writeValue_start {v : Value D} (h : Plain v) :
    ∃ c rest, writeValue lib v = c :: rest ∧ isWs c = false ∧ c ≠ u ']' := by
  cases h with
  | null =>
    rw [writeValue]
    exact ⟨_, _, rfl, by decide⟩
  | bool b =>
    rw [writeValue]
    cases b
    · exact ⟨_, _, rfl, by decide⟩
    · exact ⟨_, _, rfl, by decide⟩
  | long n =>
    rw [writeValue]
    obtain ⟨c, rest, hcons, hws, -, -, -, -, -, -, hbracket⟩ := longText_start n
    exact ⟨c, rest, hcons, hws, hbracket⟩
  | string str =>
    rw [writeValue]
    exact ⟨_, _, rfl, by decide⟩
  | list =>
    rw [writeValue]
    exact ⟨_, _, rfl, by decide⟩
  | map =>
    rw [writeValue]
    exact ⟨_, _, rfl, by decide⟩

theorem reads_list {l : List (Value D)} (hplain : ∀ v ∈ l, Plain v)
    (hreads : ∀ v ∈ l, Reads lib v) : Reads lib (.list l) := by
  cases l with
  | nil =>
    refine ⟨2, fun calls hcalls s tail pos h _ => ?_⟩
    obtain ⟨calls, rfl⟩ := Nat.exists_eq_add_of_le' hcalls
    rw [writeValue, writeElements] at h ⊢
    have hclose : s.drop (pos + 1) = u ']' :: tail := drop_succ h
    rw [parseValue_start lib h (by decide), if_neg (by decide), if_pos rfl, parseArray,
      skipWs_stop hclose (by decide)]
    simp only [unit_at? hclose, if_true]
    rfl
  | cons v rest =>
    obtain ⟨n, hn⟩ := reads_elements lib hreads (List.cons_ne_nil v rest)
    refine ⟨n + 2, fun calls hcalls s tail pos h _ => ?_⟩
    obtain ⟨calls, rfl⟩ := Nat.exists_eq_add_of_le' (Nat.le_trans (Nat.le_add_left 2 n) hcalls)
    rw [writeValue] at h ⊢
    have hopen : s.drop (pos + 1) = writeElements lib true (v :: rest) ++ u ']' :: tail :=
      (drop_succ h).trans (List.append_assoc _ [u ']'] tail)
    obtain ⟨c, more, hcons, hws, hbracket⟩ := writeValue_start lib (hplain v List.mem_cons_self)
    have hfirst : s.drop (pos + 1) =
        c :: (more ++ writeElements lib false rest ++ u ']' :: tail) := by
      rw [hopen, writeElements, hcons]
      simp
    rw [parseValue_start lib h (by decide), if_neg (by decide), if_pos rfl, parseArray,
      skipWs_stop hfirst hws]
    simp only [unit_at? hfirst, Option.some.injEq, if_neg hbracket]
    rw [hn calls (by omega) s tail (pos + 1) [] hopen]
    simp [Nat.add_assoc, Nat.add_comm 1]

theorem writeMembers_next (e : JString × Value D) (rest : List (JString × Value D)) :
    writeMembers lib false (e :: rest) = u ',' :: writeMembers lib true (e :: rest) := by
  rw [writeMembers, writeMembers]
  rfl

theorem put_new {m : List (JString × Value D)} {key : JString} (h : key ∉ m.map Prod.fst)
    (v : Value D) : put m key v = m ++ [(key, v)] := by
  unfold put
  rw [if_neg h]

def memberEnd (pos : Nat) (key : JString) (v : Value D) : Nat :=
  pos + (writeString key).length + 1 + (writeValue lib v).length

theorem member_step {key : JString} {v : Value D} {calls pos : Nat} {s tail : JString}
    {c : UInt16} (h : s.drop pos = writeString key ++ u ':' :: (writeValue lib v ++ c :: tail))
    (hv : parseValue lib calls s (pos + (writeString key).length + 1) =
      some (.ok (v, memberEnd lib pos key v))) (hc : isWs c = false)
    (m : List (JString × Value D)) : parseMembers lib (calls + 1) m s pos =
      if c = u '}' then some (.ok (.map (put m key v), memberEnd lib pos key v + 1))
      else if c ≠ u ',' then some (.error (.json
        (units s!"expected ',' or '\x7d' at {memberEnd lib pos key v}")))
      else parseMembers lib calls (put m key v) s (memberEnd lib pos key v + 1) := by
  have hquote : s.drop pos =
      u '"' :: (key.flatMap writeUnit ++ [u '"'] ++ u ':' :: (writeValue lib v ++ c :: tail)) := h
  have hcolon := drop_append h
  have hend : s.drop (memberEnd lib pos key v) = c :: tail := drop_append (drop_succ hcolon)
  rw [parseMembers, skipWs_stop hquote (by decide)]
  simp only [unit_at? hquote, ne_eq, not_true_eq_false, if_false, parseString_written lib key h,
    skipWs_stop hcolon (by decide), unit_at? hcolon, hv, skipWs_stop hend hc, unit_at? hend]

theorem reads_members {l : List (JString × Value D)} (hreads : ∀ e ∈ l, Reads lib e.2)
    (hne : l ≠ []) :
    ∃ n, ∀ calls ≥ n, ∀ (s tail : JString) (pos : Nat) (m : List (JString × Value D)),
      ((m ++ l).map Prod.fst).Nodup →
      s.drop pos = writeMembers lib true l ++ u '}' :: tail →
      parseMembers lib calls m s pos =
        some (.ok (.map (m ++ l), pos + (writeMembers lib true l).length + 1)) := by
  induction l with
  | nil => exact absurd rfl hne
  | cons e rest ih =>
    obtain ⟨key, v⟩ := e
    obtain ⟨n, hn⟩ := hreads (key, v) List.mem_cons_self
    have hfresh : ∀ m : List (JString × Value D),
        ((m ++ (key, v) :: rest).map Prod.fst).Nodup → key ∉ m.map Prod.fst := by
      intro m hnodup hmem
      rw [List.map_append, List.map_cons] at hnodup
      exact (List.nodup_append.1 hnodup).2.2 _ hmem _ List.mem_cons_self rfl
    cases rest with
    | nil =>
      refine ⟨n + 1, fun calls hcalls s tail pos m hnodup h => ?_⟩
      obtain ⟨calls, rfl⟩ := Nat.exists_eq_add_of_le' (Nat.le_trans (Nat.le_add_left 1 n) hcalls)
      have hone : writeMembers lib true [(key, v)] =
          writeString key ++ u ':' :: writeValue lib v := by
        rw [writeMembers, writeMembers]
        simp
      rw [hone, List.append_assoc, List.cons_append] at h
      have hv := hn calls (Nat.le_of_succ_le_succ hcalls) s _ _ (drop_succ (drop_append h))
        (ends_brace tail)
      rw [member_step lib h hv (by decide), if_pos rfl, put_new (hfresh m hnodup), hone]
      simp [memberEnd, Nat.add_assoc, Nat.add_comm 1]
    | cons e' rest =>
      obtain ⟨n', hn'⟩ := ih (fun e he => hreads e (List.mem_cons_of_mem _ he))
        (List.cons_ne_nil e' rest)
      refine ⟨n + n' + 1, fun calls hcalls s tail pos m hnodup h => ?_⟩
      obtain ⟨calls, rfl⟩ := Nat.exists_eq_add_of_le' (Nat.le_trans (Nat.le_add_left 1 _) hcalls)
      have hmore : writeMembers lib true ((key, v) :: e' :: rest) = writeString key ++
          u ':' :: (writeValue lib v ++ u ',' :: writeMembers lib true (e' :: rest)) := by
        rw [writeMembers, writeMembers_next]
        rfl
      rw [hmore, List.append_assoc, List.cons_append, List.append_assoc, List.cons_append] at h
      have hvalue := drop_succ (drop_append h)
      have hv := hn calls (by omega) s _ _ hvalue (ends_comma _)
      have hkeys : ((m ++ [(key, v)] ++ e' :: rest).map Prod.fst).Nodup := by
        rwa [List.append_assoc, List.singleton_append]
      have hnext : s.drop (memberEnd lib pos key v + 1) =
          writeMembers lib true (e' :: rest) ++ u '}' :: tail := drop_succ (drop_append hvalue)
      rw [member_step lib h hv (by decide), if_neg (by decide), if_neg (by decide),
        put_new (hfresh m hnodup),
        hn' calls (by omega) s tail _ _ hkeys hnext, hmore, List.append_assoc,
        List.singleton_append]
      simp only [memberEnd, List.length_append, List.length_cons, Option.some.injEq,
        Except.ok.injEq, Prod.mk.injEq, true_and]
      omega

theorem reads_map {m : List (JString × Value D)} (hnodup : (m.map Prod.fst).Nodup)
    (hreads : ∀ e ∈ m, Reads lib e.2) : Reads lib (.map m) := by
  cases m with
  | nil =>
    refine ⟨2, fun calls hcalls s tail pos h _ => ?_⟩
    obtain ⟨calls, rfl⟩ := Nat.exists_eq_add_of_le' hcalls
    rw [writeValue, writeMembers] at h ⊢
    have hclose : s.drop (pos + 1) = u '}' :: tail := drop_succ h
    rw [parseValue_start lib h (by decide), if_pos rfl, parseObject,
      skipWs_stop hclose (by decide)]
    simp only [unit_at? hclose, if_true]
    rfl
  | cons e rest =>
    obtain ⟨n, hn⟩ := reads_members lib hreads (List.cons_ne_nil e rest)
    refine ⟨n + 2, fun calls hcalls s tail pos h _ => ?_⟩
    obtain ⟨calls, rfl⟩ := Nat.exists_eq_add_of_le' (Nat.le_trans (Nat.le_add_left 2 n) hcalls)
    rw [writeValue] at h ⊢
    have hopen : s.drop (pos + 1) = writeMembers lib true (e :: rest) ++ u '}' :: tail :=
      (drop_succ h).trans (List.append_assoc _ [u '}'] tail)
    have hfirst : ∃ more, s.drop (pos + 1) = u '"' :: more := by
      rw [hopen, writeMembers, writeString]
      exact ⟨_, rfl⟩
    obtain ⟨more, hmore⟩ := hfirst
    rw [parseValue_start lib h (by decide), if_pos rfl, parseObject,
      skipWs_stop hmore (by decide)]
    simp only [unit_at? hmore, Option.some.injEq]
    rw [if_neg (by decide), hn calls (by omega) s tail (pos + 1) [] hnodup hopen]
    simp [Nat.add_assoc, Nat.add_comm 1]

theorem reads_plain {v : Value D} (h : Plain v) : Reads lib v := by
  induction h with
  | null => exact reads_null lib
  | bool b => exact reads_bool lib b
  | long n => exact reads_long lib n
  | string s => exact reads_string lib s
  | list hplain ih => exact reads_list lib hplain ih
  | map hnodup _ ih => exact reads_map lib hnodup ih

theorem parse_write {v : Value D} (h : Plain v) :
    ∃ n, ∀ calls ≥ n, parse lib calls (write lib v) = some (.ok v) := by
  obtain ⟨n, hn⟩ := reads_plain lib h
  refine ⟨n, fun calls hcalls => ?_⟩
  obtain ⟨c, rest, hcons, hws, -⟩ := writeValue_start lib h
  have hstart : (write lib v).drop 0 = c :: rest := hcons
  have hread := hn calls hcalls (write lib v) [] 0 (List.append_nil _).symm fun c hc => by cases hc
  have hend : skipWs (write lib v) (write lib v).length = (write lib v).length := by
    rw [skipWs, dif_neg (Nat.lt_irrefl _)]
  unfold parse
  rw [skipWs_stop hstart hws, hread, Nat.zero_add]
  simp only
  have hend' : skipWs (write lib v) (writeValue lib v).length = (write lib v).length := hend
  rw [hend', if_neg (Nat.lt_irrefl _)]

theorem signal_keys (payload : List (JString × Value D)) (player : Int32) :
    signalMembers player payload = [(units "type", .string (units "signal")),
      (units "to", .long player.toInt64), (units "payload", .map payload)] := by
  have hto : units "to" ∉ [units "type"] := by decide +kernel
  have hpayload : units "payload" ∉ [units "type", units "to"] := by decide +kernel
  have hfirst : put [] (units "type") (.string (units "signal") : Value D) =
      [(units "type", .string (units "signal"))] := put_new List.not_mem_nil _
  have hsecond := put_new (m := [(units "type", .string (units "signal"))]) hto
    (.long player.toInt64 : Value D)
  have hthird := put_new (m := [(units "type", .string (units "signal")),
    (units "to", .long player.toInt64)]) hpayload (.map payload)
  unfold signalMembers
  simp only [hfirst, hsecond, List.singleton_append, hthird]
  rfl

theorem plain_signal {payload : List (JString × Value D)} (h : Plain (.map payload))
    (player : Int32) : Plain (.map (signalMembers player payload)) := by
  have hkeys : [units "type", units "to", units "payload"].Nodup := by decide +kernel
  rw [signal_keys]
  refine .map hkeys fun e he => ?_
  simp only [List.mem_cons, List.not_mem_nil, or_false] at he
  rcases he with rfl | rfl | rfl
  · exact .string _
  · exact .long _
  · exact h

/-- The reader undoes the writer, and a signal carries its payload unchanged. -/
theorem json_round_trip (lib : JavaLib D) (v : Value D) (h : Plain v) :
    (∃ n, ∀ calls ≥ n, parse lib calls (write lib v) = some (.ok v)) ∧
    ∀ payload, v = .map payload → ∀ player : Int32,
      ∃ n, ∀ calls ≥ n, parse lib calls (signal lib player payload) =
        some (.ok (.map [(units "type", .string (units "signal")),
          (units "to", .long player.toInt64), (units "payload", v)])) := by
  refine ⟨parse_write lib h, ?_⟩
  rintro payload rfl player
  obtain ⟨n, hn⟩ := parse_write lib (plain_signal h player)
  refine ⟨n, fun calls hcalls => (hn calls hcalls).trans ?_⟩
  rw [signal_keys]

/-- A library without doubles, and with the digits of ASCII. -/
def plainLib : JavaLib Empty where
  digit := asciiDigit
  digit_ascii := fun _ _ _ => rfl
  whole := Empty.elim
  doubleText := Empty.elim
  parseDouble := fun _ => none

/-- A candidate with a quote, a line feed and half of a surrogate pair in its name. -/
def candidate : List (JString × Value Empty) :=
  [(units "sdpMid", .string [0xD800, u '"', 0x0A]), (units "sdpMLineIndex", .long 0),
    (units "relay", .list [.null, .bool true])]

theorem plain_candidate : Plain (.map candidate) := by
  refine .map (by decide +kernel) fun e he => ?_
  simp only [candidate, List.mem_cons, List.not_mem_nil, or_false] at he
  rcases he with rfl | rfl | rfl
  · exact .string _
  · exact .long _
  · refine .list fun v hv => ?_
    simp only [List.mem_cons, List.not_mem_nil, or_false] at hv
    rcases hv with rfl | rfl
    · exact .null
    · exact .bool true

theorem json_round_trip_candidate :
    ∃ n, ∀ calls ≥ n, parse plainLib calls (signal plainLib 1 candidate) =
      some (.ok (.map [(units "type", .string (units "signal")), (units "to", .long 1),
        (units "payload", .map candidate)])) :=
  (json_round_trip plainLib (.map candidate) plain_candidate).2 candidate rfl 1

end Lobbylink.Java.RoundTrip
