import Mathlib.Data.List.Basic

/-! UTF-16. A unit is a character of the basic plane, or half of a pair that is one
character above it; a half that stands alone is no text. -/
namespace Lobbylink.Lib.Utf16

def isHigh (c : UInt16) : Bool := 0xD800 ≤ c.toNat ∧ c.toNat < 0xDC00

def isLow (c : UInt16) : Bool := 0xDC00 ≤ c.toNat ∧ c.toNat < 0xE000

def encodeChar (c : Char) : List UInt16 :=
  if c.toNat < 0x10000 then [UInt16.ofNat c.toNat]
  else [UInt16.ofNat (0xD800 + (c.toNat - 0x10000) / 0x400),
    UInt16.ofNat (0xDC00 + (c.toNat - 0x10000) % 0x400)]

def encode (s : List Char) : List UInt16 := s.flatMap encodeChar

/-- The character above the basic plane that a pair stands for. -/
def pair (high low : UInt16) : Char :=
  Char.ofNat (0x10000 + (high.toNat - 0xD800) * 0x400 + (low.toNat - 0xDC00))

def decode : List UInt16 → Option (List Char)
  | [] => some []
  | [c] => if isHigh c || isLow c then none else some [Char.ofNat c.toNat]
  | c :: d :: rest =>
    if isHigh c then
      if isLow d then (decode rest).map (pair c d :: ·) else none
    else if isLow c then none
    else (decode (d :: rest)).map (Char.ofNat c.toNat :: ·)

@[simp] theorem encode_nil : encode [] = [] := rfl

@[simp] theorem encode_cons (c : Char) (s : List Char) :
    encode (c :: s) = encodeChar c ++ encode s := rfl

theorem toNat_ofNat {n : Nat} (h : n < 0x10000) : (UInt16.ofNat n).toNat = n :=
  UInt16.toNat_ofNat_of_lt' h

theorem char_range (c : Char) : c.toNat < 0xD800 ∨ 0xE000 ≤ c.toNat ∧ c.toNat < 0x110000 := by
  have hvalid := c.valid
  simp only [UInt32.isValidChar, Nat.isValidChar] at hvalid
  have htoNat : c.toNat = c.val.toNat := rfl
  omega

theorem toNat_char {n : Nat} (h : n < 0xD800 ∨ 0xE000 ≤ n ∧ n < 0x110000) :
    (Char.ofNat n).toNat = n := by
  have hvalid : n.isValidChar := by
    simp only [Nat.isValidChar]
    omega
  rw [Char.ofNat, dif_pos hvalid]
  rfl

theorem decode_basic {c : Char} (h : c.toNat < 0x10000) (rest : List UInt16) :
    decode (UInt16.ofNat c.toNat :: rest) = (decode rest).map (c :: ·) := by
  have hrange := char_range c
  have hunit := toNat_ofNat h
  have hhigh : isHigh (UInt16.ofNat c.toNat) = false := by
    simp only [isHigh, hunit, decide_eq_false_iff_not]
    omega
  have hlow : isLow (UInt16.ofNat c.toNat) = false := by
    simp only [isLow, hunit, decide_eq_false_iff_not]
    omega
  cases rest with
  | nil => simp [decode, hhigh, hlow, hunit]
  | cons d rest => simp [decode, hhigh, hlow, hunit]

theorem decode_pair {c : Char} (h : 0x10000 ≤ c.toNat) (rest : List UInt16) :
    decode (encodeChar c ++ rest) = (decode rest).map (c :: ·) := by
  have hrange := char_range c
  have hhigh := toNat_ofNat (n := 0xD800 + (c.toNat - 0x10000) / 0x400) (by omega)
  have hlow := toNat_ofNat (n := 0xDC00 + (c.toNat - 0x10000) % 0x400) (by omega)
  have hpair : pair (UInt16.ofNat (0xD800 + (c.toNat - 0x10000) / 0x400))
      (UInt16.ofNat (0xDC00 + (c.toNat - 0x10000) % 0x400)) = c := by
    unfold pair
    rw [hhigh, hlow]
    have hsum : 0x10000 + (0xD800 + (c.toNat - 0x10000) / 0x400 - 0xD800) * 0x400 +
        (0xDC00 + (c.toNat - 0x10000) % 0x400 - 0xDC00) = c.toNat := by omega
    rw [hsum, Char.ofNat_toNat]
  have hfirst : isHigh (UInt16.ofNat (0xD800 + (c.toNat - 0x10000) / 0x400)) = true := by
    simp only [isHigh, hhigh, decide_eq_true_eq]
    omega
  have hsecond : isLow (UInt16.ofNat (0xDC00 + (c.toNat - 0x10000) % 0x400)) = true := by
    simp only [isLow, hlow, decide_eq_true_eq]
    omega
  unfold encodeChar
  rw [if_neg (by omega), List.cons_append, List.cons_append, List.nil_append, decode, if_pos hfirst,
    if_pos hsecond, hpair]

/-- Every text is read back. -/
theorem decode_encode (s : List Char) : decode (encode s) = some s := by
  induction s with
  | nil => rfl
  | cons c s ih =>
    rw [encode_cons]
    by_cases h : c.toNat < 0x10000
    · rw [encodeChar, if_pos h, List.singleton_append, decode_basic h, ih]
      rfl
    · rw [decode_pair (Nat.not_lt.1 h), ih]
      rfl

theorem encodeChar_basic {c : UInt16} (hhigh : isHigh c = false) (hlow : isLow c = false) :
    encodeChar (Char.ofNat c.toNat) = [c] := by
  have hlt := c.toNat_lt
  simp only [isHigh, isLow, decide_eq_false_iff_not] at hhigh hlow
  have hchar := toNat_char (n := c.toNat) (by omega)
  unfold encodeChar
  rw [hchar, if_pos (by omega), UInt16.ofNat_toNat]

theorem encodeChar_pair {c d : UInt16} (hc : isHigh c = true) (hd : isLow d = true) :
    encodeChar (pair c d) = [c, d] := by
  simp only [isHigh, isLow, decide_eq_true_eq] at hc hd
  have hchar := toNat_char
    (n := 0x10000 + (c.toNat - 0xD800) * 0x400 + (d.toNat - 0xDC00)) (by omega)
  have hhigh : 0xD800 + (0x10000 + (c.toNat - 0xD800) * 0x400 + (d.toNat - 0xDC00) - 0x10000) / 0x400 =
      c.toNat := by omega
  have hlow : 0xDC00 + (0x10000 + (c.toNat - 0xD800) * 0x400 + (d.toNat - 0xDC00) - 0x10000) % 0x400 =
      d.toNat := by omega
  unfold encodeChar pair
  rw [hchar, if_neg (by omega), hhigh, hlow, UInt16.ofNat_toNat, UInt16.ofNat_toNat]

/-- What is read as a text is what that text is written as. -/
theorem encode_decode {units : List UInt16} {s : List Char} (h : decode units = some s) :
    encode s = units := by
  fun_induction decode units generalizing s with
  | case1 =>
    cases h
    rfl
  | case2 | case5 | case6 => cases h
  | case3 c hhalf =>
    cases h
    simp only [Bool.or_eq_true, not_or, Bool.not_eq_true] at hhalf
    rw [encode_cons, encodeChar_basic hhalf.1 hhalf.2]
    rfl
  | case4 c d rest hc hd ih =>
    obtain ⟨s, hs, rfl⟩ := Option.map_eq_some_iff.1 h
    rw [encode_cons, encodeChar_pair hc hd, ih hs]
    rfl
  | case7 c d rest hc hlow ih =>
    obtain ⟨s, hs, rfl⟩ := Option.map_eq_some_iff.1 h
    rw [encode_cons, encodeChar_basic (by simpa using hc) (by simpa using hlow), ih hs]
    rfl

end Lobbylink.Lib.Utf16
