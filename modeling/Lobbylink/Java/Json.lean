import Mathlib.Data.Nat.Digits.Defs

/-! The JSON of the Java client. Texts are UTF-16 units; a reader holds a position in the
text, and running out of calls stands for a stack that is too small. -/
namespace Lobbylink.Java.Json

abbrev JString := List UInt16

def u (c : Char) : UInt16 := UInt16.ofNat c.toNat

def units (s : String) : JString := s.toList.map u

/-- A value as Java holds it. The doubles are those of `D`. -/
inductive Value (D : Type) where
  | null
  | bool (b : Bool)
  | long (n : Int64)
  | double (d : D)
  | string (s : JString)
  | list (l : List (Value D))
  | map (m : List (JString × Value D))

/-- The digit that an ASCII unit stands for. -/
def asciiDigit (radix : Nat) (c : UInt16) : Option Nat :=
  let d :=
    if u '0' ≤ c ∧ c ≤ u '9' then c.toNat - 48
    else if u 'a' ≤ c ∧ c ≤ u 'z' then c.toNat - 87
    else if u 'A' ≤ c ∧ c ≤ u 'Z' then c.toNat - 55
    else radix
  if d < radix then some d else none

/-- What the code takes from the Java library: `Character.digit`, which also knows the
digits of other scripts, the doubles that are whole numbers, and the texts of doubles. -/
structure JavaLib (D : Type) where
  digit : Nat → UInt16 → Option Nat
  digit_ascii : ∀ radix c, c < 128 → digit radix c = asciiDigit radix c
  whole : D → Option Int64
  doubleText : D → JString
  parseDouble : JString → Option D

inductive Thrown where
  | json (message : JString)
  | numberFormat

def digitUnit (d : Nat) : UInt16 := if d < 10 then UInt16.ofNat (48 + d) else UInt16.ofNat (87 + d)

def decimal (n : Nat) : JString :=
  if n = 0 then [u '0'] else (Nat.digits 10 n).reverse.map digitUnit

/-- `Long.toString`. -/
def longText (n : Int64) : JString :=
  if n.toInt < 0 then u '-' :: decimal n.toInt.natAbs else decimal n.toInt.natAbs

def nullText : JString := [u 'n', u 'u', u 'l', u 'l']
def trueText : JString := [u 't', u 'r', u 'u', u 'e']
def falseText : JString := [u 'f', u 'a', u 'l', u 's', u 'e']

def writeUnit (c : UInt16) : JString :=
  if c = u '"' then [u '\\', u '"']
  else if c = u '\\' then [u '\\', u '\\']
  else if c = 0x0A then [u '\\', u 'n']
  else if c = 0x0D then [u '\\', u 'r']
  else if c = 0x09 then [u '\\', u 't']
  else if c = 0x08 then [u '\\', u 'b']
  else if c = 0x0C then [u '\\', u 'f']
  else if c < 0x20 then
    [u '\\', u 'u', digitUnit (c.toNat / 4096), digitUnit (c.toNat / 256 % 16),
      digitUnit (c.toNat / 16 % 16), digitUnit (c.toNat % 16)]
  else [c]

def writeString (s : JString) : JString := u '"' :: (s.flatMap writeUnit ++ [u '"'])

variable {D : Type} (lib : JavaLib D)

mutual

def writeValue : Value D → JString
  | .null => nullText
  | .bool b => if b then trueText else falseText
  | .long n => longText n
  | .double d => match lib.whole d with
    | some n => longText n
    | none => lib.doubleText d
  | .string s => writeString s
  | .list l => u '[' :: (writeElements true l ++ [u ']'])
  | .map m => u '{' :: (writeMembers true m ++ [u '}'])

/-- The loop of `writeArray`. -/
def writeElements : Bool → List (Value D) → JString
  | _, [] => []
  | first, v :: rest =>
    (if first then [] else [u ',']) ++ (writeValue v ++ writeElements false rest)

/-- The loop of `writeObject`. -/
def writeMembers : Bool → List (JString × Value D) → JString
  | _, [] => []
  | first, (key, v) :: rest =>
    (if first then [] else [u ',']) ++
      (writeString key ++ (u ':' :: (writeValue v ++ writeMembers false rest)))

end

def write (v : Value D) : JString := writeValue lib v

def isWs (c : UInt16) : Bool := c = u ' ' ∨ c = 0x09 ∨ c = 0x0A ∨ c = 0x0D

def skipWs (s : JString) (pos : Nat) : Nat :=
  if h : pos < s.length then
    if isWs s[pos] then skipWs s (pos + 1) else pos
  else pos
termination_by s.length - pos

def expect (w s : JString) (pos : Nat) : Except Thrown Nat :=
  if w <+: s.drop pos then .ok (pos + w.length)
  else .error (.json (units "expected " ++ w ++ units s!" at {pos}"))

/-- The units after a backslash that stand for one unit. -/
def unescape (c : UInt16) : Option UInt16 :=
  if c = u '"' then some (u '"')
  else if c = u '\\' then some (u '\\')
  else if c = u '/' then some (u '/')
  else if c = u 'n' then some 0x0A
  else if c = u 'r' then some 0x0D
  else if c = u 't' then some 0x09
  else if c = u 'b' then some 0x08
  else if c = u 'f' then some 0x0C
  else none

def digitsValue (radix : Nat) : JString → Nat → Option Nat
  | [], n => some n
  | c :: rest, n => (lib.digit radix c).bind fun d => digitsValue radix rest (n * radix + d)

def magnitude (radix : Nat) (text : JString) : Option Nat :=
  if text = [] then none else digitsValue lib radix text 0

/-- What `Integer.parseInt` and `Long.parseLong` read before they check the range. -/
def parseInteger (radix : Nat) : JString → Option Int
  | [] => none
  | c :: rest =>
    if c = u '-' then (magnitude lib radix rest).map fun (n : Nat) => -(n : Int)
    else if c = u '+' then (magnitude lib radix rest).map fun (n : Nat) => (n : Int)
    else (magnitude lib radix (c :: rest)).map fun (n : Nat) => (n : Int)

def parseInt (radix : Nat) (text : JString) : Option Int :=
  (parseInteger lib radix text).filter fun n => -2 ^ 31 ≤ n ∧ n < 2 ^ 31

def parseLong (text : JString) : Option Int64 :=
  ((parseInteger lib 10 text).filter fun n => -2 ^ 63 ≤ n ∧ n < 2 ^ 63).map Int64.ofInt

/-- The loop of `parseString`, after the opening quote. -/
def parseString (s : JString) (pos : Nat) (sb : JString) : Except Thrown (JString × Nat) :=
  if h : pos < s.length then
    let c := s[pos]
    if c = u '"' then .ok (sb, pos + 1)
    else if c = u '\\' then
      if h' : pos + 1 < s.length then
        let e := s[pos + 1]
        match unescape e with
        | some d => parseString s (pos + 2) (sb ++ [d])
        | none =>
          if e = u 'u' then
            if pos + 2 + 4 > s.length then .error (.json (units "bad \\u escape"))
            else match parseInt lib 16 ((s.drop (pos + 2)).take 4) with
              | some n => parseString s (pos + 6) (sb ++ [UInt16.ofInt n])
              | none => .error .numberFormat
          else .error (.json (units "bad escape \\" ++ [e]))
      else .error (.json (units "bad escape"))
    else parseString s (pos + 1) (sb ++ [c])
  else .error (.json (units "unterminated string"))
termination_by s.length - pos

/-- The loop of `parseNumber`. -/
def scanNumber (s : JString) (pos : Nat) (isDouble : Bool) : Nat × Bool :=
  if h : pos < s.length then
    let c := s[pos]
    if u '0' ≤ c ∧ c ≤ u '9' then scanNumber s (pos + 1) isDouble
    else if c = u '.' ∨ c = u 'e' ∨ c = u 'E' then scanNumber s (pos + 1) true
    else if c = u '+' ∨ c = u '-' then scanNumber s (pos + 1) isDouble
    else (pos, isDouble)
  else (pos, isDouble)
termination_by s.length - pos

def parseNumber (s : JString) (start : Nat) : Except Thrown (Value D × Nat) :=
  let pos := if s[start]? = some (u '-') then start + 1 else start
  let scanned := scanNumber s pos false
  let num := (s.drop start).take (scanned.1 - start)
  let double := match lib.parseDouble num with
    | some d => .ok (.double d, scanned.1)
    | none => .error .numberFormat
  if num = [] ∨ num = [u '-'] then .error (.json (units s!"bad number at {start}"))
  else if scanned.2 then double
  else match parseLong lib num with
    | some n => .ok (.long n, scanned.1)
    | none => double

/-- `LinkedHashMap.put`: a key that is there already keeps its place. -/
def put (m : List (JString × Value D)) (key : JString) (v : Value D) : List (JString × Value D) :=
  if key ∈ m.map Prod.fst then m.map fun e => if e.1 = key then (key, v) else e
  else m ++ [(key, v)]

mutual

def parseValue : Nat → JString → Nat → Option (Except Thrown (Value D × Nat))
  | 0, _, _ => none
  | calls + 1, s, pos =>
    let pos := skipWs s pos
    match s[pos]? with
    | none => some (.error (.json (units "unexpected end of input")))
    | some c =>
      if c = u '{' then parseObject calls s pos
      else if c = u '[' then parseArray calls s pos
      else if c = u '"' then
        some ((parseString lib s (pos + 1) []).map fun read => (.string read.1, read.2))
      else if c = u 't' then some ((expect trueText s pos).map fun pos => (.bool true, pos))
      else if c = u 'f' then some ((expect falseText s pos).map fun pos => (.bool false, pos))
      else if c = u 'n' then some ((expect nullText s pos).map fun pos => (.null, pos))
      else some (parseNumber lib s pos)

def parseObject : Nat → JString → Nat → Option (Except Thrown (Value D × Nat))
  | 0, _, _ => none
  | calls + 1, s, pos =>
    let pos := skipWs s (pos + 1)
    if s[pos]? = some (u '}') then some (.ok (.map [], pos + 1))
    else parseMembers calls [] s pos

/-- The loop of `parseObject`. -/
def parseMembers : Nat → List (JString × Value D) → JString → Nat →
    Option (Except Thrown (Value D × Nat))
  | 0, _, _, _ => none
  | calls + 1, m, s, pos =>
    let pos := skipWs s pos
    if s[pos]? ≠ some (u '"') then
      some (.error (.json (units s!"expected object key at {pos}")))
    else match parseString lib s (pos + 1) [] with
      | .error e => some (.error e)
      | .ok (key, pos) =>
        let pos := skipWs s pos
        if s[pos]? ≠ some (u ':') then some (.error (.json (units s!"expected ':' at {pos}")))
        else match parseValue calls s (pos + 1) with
          | none => none
          | some (.error e) => some (.error e)
          | some (.ok (v, pos)) =>
            let m := put m key v
            let pos := skipWs s pos
            match s[pos]? with
            | none => some (.error (.json (units "unterminated object")))
            | some d =>
              if d = u '}' then some (.ok (.map m, pos + 1))
              else if d ≠ u ',' then
                some (.error (.json (units s!"expected ',' or '\x7d' at {pos}")))
              else parseMembers calls m s (pos + 1)

def parseArray : Nat → JString → Nat → Option (Except Thrown (Value D × Nat))
  | 0, _, _ => none
  | calls + 1, s, pos =>
    let pos := skipWs s (pos + 1)
    if s[pos]? = some (u ']') then some (.ok (.list [], pos + 1))
    else parseElements calls [] s pos

/-- The loop of `parseArray`. -/
def parseElements : Nat → List (Value D) → JString → Nat →
    Option (Except Thrown (Value D × Nat))
  | 0, _, _, _ => none
  | calls + 1, l, s, pos =>
    match parseValue calls s pos with
    | none => none
    | some (.error e) => some (.error e)
    | some (.ok (v, pos)) =>
      let l := l ++ [v]
      let pos := skipWs s pos
      match s[pos]? with
      | none => some (.error (.json (units "unterminated array")))
      | some d =>
        if d = u ']' then some (.ok (.list l, pos + 1))
        else if d ≠ u ',' then
          some (.error (.json (units s!"expected ',' or ']' at {pos}")))
        else parseElements calls l s (pos + 1)

end

def parse (calls : Nat) (s : JString) : Option (Except Thrown (Value D)) :=
  match parseValue lib calls s (skipWs s 0) with
  | none => none
  | some (.error e) => some (.error e)
  | some (.ok (v, pos)) =>
    let pos := skipWs s pos
    if pos < s.length then some (.error (.json (units s!"trailing characters at {pos}")))
    else some (.ok v)

def signalMembers (player : Int32) (payload : List (JString × Value D)) :
    List (JString × Value D) :=
  let m := put [] (units "type") (.string (units "signal"))
  let m := put m (units "to") (.long player.toInt64)
  put m (units "payload") (.map payload)

def signal (player : Int32) (payload : List (JString × Value D)) : JString :=
  write lib (.map (signalMembers player payload))

end Lobbylink.Java.Json
