import Lobbylink.Lib.Scan
import Lobbylink.Lib.Trim

/-! The parser of the config file. It works line by line on text without its comments;
three scanners have to tell what is inside a string. -/
namespace Lobbylink.Config.Toml
open Lib.Scan Lib.Trim

abbrev Text := List Char

/-- `unicode.IsSpace`. -/
def isSpace (c : Char) : Bool :=
  c == ' ' || (9 ≤ c.toNat && c.toNat ≤ 13) || c.toNat == 0x85 || c.toNat == 0xA0 ||
    c.toNat == 0x1680 || (0x2000 ≤ c.toNat && c.toNat ≤ 0x200A) || c.toNat == 0x2028 ||
    c.toNat == 0x2029 || c.toNat == 0x202F || c.toNat == 0x205F || c.toNat == 0x3000

def trimSpace (s : Text) : Text := trim isSpace s

/-- What `p.errf` says after the number of the line. -/
inductive Fault where
  | malformedArrayHeader (line : Text)
  | malformedHeader (line : Text)
  | invalidTableName (name : Text)
  | duplicateTable (name : Text)
  | duplicateKey (key : Text)
  | expectedKeyValue (line : Text)
  | invalidKey (key : Text)
  | missingValue (key : Text)
  | expectedString
  | unterminatedEscape
  | truncatedUnicodeEscape
  | badUnicodeEscape (digits : Text)
  | invalidUnicodeEscape (n : Nat)
  | unsupportedEscape (c : Char)
  | unterminatedString
  | trailingAfterString (remain : Text)
  | unsupportedValue (s : Text)
  | unterminatedArray
  | malformedArray
  | trailingAfterArray
  | onlyStrings (rest : Text)
  | expectedComma (rest : Text)
  deriving DecidableEq, Repr

structure Error where
  line : Nat
  fault : Fault
  deriving DecidableEq, Repr

inductive Value where
  | str (s : Text)
  | int (n : Int)
  | bool (b : Bool)
  | strs (l : List Text)
  deriving DecidableEq, Repr

/-- A Go map, in some order, with each key once. -/
abbrev Table := List (Text × Value)

/-- The tables by section, `[]` for the top level, and the entries of the arrays. -/
structure Doc where
  tables : List (Text × Table)
  arrays : List (Text × List Table)
  deriving DecidableEq, Repr

/-- Where a scanner is; `escaped` is one character after a backslash, which it skips. -/
inductive Quote where
  | outside | inside | escaped
  deriving DecidableEq, Repr

def Quote.next : Quote → Char → Quote
  | .outside, c => if c = '"' then .inside else .outside
  | .inside, c => if c = '"' then .outside else if c = '\\' then .escaped else .inside
  | .escaped, _ => .inside

def stripFrom : Quote → Text → Text
  | _, [] => []
  | q, c :: rest => if q = .outside ∧ c = '#' then [] else c :: stripFrom (q.next c) rest

def stripComment (s : Text) : Text := stripFrom .outside s

def lastBracketFrom : Quote → Text → Option Nat
  | _, [] => none
  | q, c :: rest =>
    match lastBracketFrom (q.next c) rest with
    | some i => some (i + 1)
    | none => if q = .outside ∧ c = ']' then some 0 else none

def lastBracketOutsideString (s : Text) : Option Nat := lastBracketFrom .outside s

def arrayClosed (s : Text) : Bool := (lastBracketOutsideString s).isSome

def hexDigit (c : Char) : Option Nat :=
  if '0' ≤ c ∧ c ≤ '9' then some (c.toNat - 48)
  else if 'a' ≤ c ∧ c ≤ 'f' then some (c.toNat - 87)
  else if 'A' ≤ c ∧ c ≤ 'F' then some (c.toNat - 55)
  else none

/-- `strconv.ParseUint` in base 16, of at most eight digits. -/
def parseHex (digits : Text) : Option Nat :=
  digits.foldlM (fun n c => (hexDigit c).map (16 * n + ·)) 0

/-- The character, and how much of the text after the backslash it takes. -/
def unicodeEscape (width : Nat) (rest : Text) : Except Fault (Char × Nat) :=
  if rest.length < width then .error .truncatedUnicodeEscape
  else match parseHex (rest.take width) with
    | none => .error (.badUnicodeEscape (rest.take width))
    | some n =>
      if n.isValidChar then .ok (Char.ofNat n, width + 1) else .error (.invalidUnicodeEscape n)

def escape : Text → Except Fault (Char × Nat)
  | [] => .error .unterminatedEscape
  | c :: rest =>
    if c = 'n' then .ok ('\n', 1)
    else if c = 't' then .ok ('\t', 1)
    else if c = 'r' then .ok ('\r', 1)
    else if c = '"' then .ok ('"', 1)
    else if c = '\\' then .ok ('\\', 1)
    else if c = 'u' then unicodeEscape 4 rest
    else if c = 'U' then unicodeEscape 8 rest
    else .error (.unsupportedEscape c)

/-- The loop of `parseBasicString`; the first argument is how far `i` is ahead. -/
def scanString : Nat → Text → Except Fault (Text × Text)
  | _, [] => .error .unterminatedString
  | skip + 1, _ :: rest => scanString skip rest
  | 0, c :: rest =>
    if c = '"' then .ok ([], rest)
    else if c = '\\' then
      match escape rest with
      | .error fault => .error fault
      | .ok (decoded, width) =>
        match scanString width rest with
        | .error fault => .error fault
        | .ok (str, remain) => .ok (decoded :: str, remain)
    else
      match scanString 0 rest with
      | .error fault => .error fault
      | .ok (str, remain) => .ok (c :: str, remain)

def parseBasicString : Text → Except Fault (Text × Text)
  | [] => .error .expectedString
  | c :: rest => if c = '"' then scanString 0 rest else .error .expectedString

def isDigit (c : Char) : Bool := '0' ≤ c && c ≤ '9'

def parseDigits (d : Text) : Option Nat :=
  if d = [] then none
  else d.foldlM (fun n c => if isDigit c then some (10 * n + (c.toNat - 48)) else none) 0

/-- An optional sign, and what follows it. -/
def splitSign : Text → Bool × Text
  | [] => (false, [])
  | c :: rest => if c = '-' then (true, rest) else if c = '+' then (false, rest) else (false, c :: rest)

/-- `strconv.ParseInt` in base 10, of 64 bits. -/
def parseInt (s : Text) : Option Int :=
  let (negative, d) := splitSign s
  ((parseDigits d).map fun (n : Nat) => if negative then -(n : Int) else (n : Int)).filter
    fun n => -9223372036854775808 ≤ n ∧ n < 9223372036854775808

def isKeyChar (c : Char) : Bool :=
  ('a' ≤ c && c ≤ 'z') || ('A' ≤ c && c ≤ 'Z') || isDigit c || c == '_' || c == '-'

def validTOMLKey (s : Text) : Bool := s ≠ [] && s.all isKeyChar

def parseScalar (s : Text) : Except Fault Value :=
  if ['"'] <+: s then
    match parseBasicString s with
    | .error fault => .error fault
    | .ok (str, remain) =>
      if trimSpace remain ≠ [] then .error (.trailingAfterString remain) else .ok (.str str)
  else if s = ['t', 'r', 'u', 'e'] then .ok (.bool true)
  else if s = ['f', 'a', 'l', 's', 'e'] then .ok (.bool false)
  else match parseInt (s.filter (· ≠ '_')) with
    | none => .error (.unsupportedValue s)
    | some n => .ok (.int n)

/-- The loop of `parseArray` over the elements, each of which takes up some text. -/
def parseElements : Nat → Text → Except Fault (List Text)
  | 0, rest => if rest = [] then .ok [] else .error .malformedArray
  | fuel + 1, rest =>
    if rest = [] then .ok []
    else if ¬['"'] <+: rest then .error (.onlyStrings rest)
    else match parseBasicString rest with
      | .error fault => .error fault
      | .ok (str, remain) =>
        let rest := trimSpace remain
        if rest = [] then .ok [str]
        else if ¬[','] <+: rest then .error (.expectedComma rest)
        else match parseElements fuel (trimSpace (rest.drop 1)) with
          | .error fault => .error fault
          | .ok out => .ok (str :: out)

/-- The loop of `parseArray` over the lines: the text up to a line with the closing
bracket, and how many more lines it takes. An error tells how many lines it is ahead. -/
def gather (buf : Text) : List Text → Except (Nat × Fault) (Text × Nat)
  | [] => if arrayClosed buf then .ok (buf, 0) else .error (0, .unterminatedArray)
  | raw :: rest =>
    if arrayClosed buf then .ok (buf, 0)
    else match gather (buf ++ ' ' :: trimSpace (stripComment raw)) rest with
      | .error (ahead, fault) => .error (ahead + 1, fault)
      | .ok (text, ahead) => .ok (text, ahead + 1)

/-- `parseArray` once the text is gathered. -/
def parseArrayText (buf : Text) : Except Fault (List Text) :=
  let body := trimSpace buf
  let body := if ['['] <+: body then body.drop 1 else body
  match lastBracketOutsideString body with
  | none => .error .malformedArray
  | some closing =>
    if trimSpace (body.drop (closing + 1)) ≠ [] then .error .trailingAfterArray
    else
      let rest := trimSpace (body.take closing)
      parseElements rest.length rest

def parseArray (first : Text) (following : List Text) : Except (Nat × Fault) (List Text × Nat) :=
  match gather first following with
  | .error e => .error e
  | .ok (buf, ahead) =>
    match parseArrayText buf with
    | .error fault => .error (ahead, fault)
    | .ok out => .ok (out, ahead)

/-- The key, the value and how many of the following lines the value takes. -/
def parseKeyValue (line : Text) (following : List Text) :
    Except (Nat × Fault) (Text × Value × Nat) :=
  match splitOnce ['='] line with
  | none => .error (0, .expectedKeyValue line)
  | some (before, after) =>
    let key := trimSpace before
    if !validTOMLKey key then .error (0, .invalidKey key)
    else
      let rest := trimSpace after
      if rest = [] then .error (0, .missingValue key)
      else if ['['] <+: rest then
        match parseArray rest following with
        | .error e => .error e
        | .ok (out, ahead) => .ok (key, .strs out, ahead)
      else
        match parseScalar rest with
        | .error fault => .error (0, fault)
        | .ok value => .ok (key, value, 0)

/-- `section` and `arrayEntry`, which is the last entry of the array with a name. -/
structure Parser where
  doc : Doc
  currentTable : Text
  arrayEntry : Option Text
  deriving DecidableEq, Repr

def alter {α : Type} (name : Text) (f : α → α) (l : List (Text × α)) : List (Text × α) :=
  l.map fun e => if e.1 = name then (e.1, f e.2) else e

def Doc.addEntry (doc : Doc) (name : Text) : Doc :=
  { doc with arrays :=
      match doc.arrays.lookup name with
      | none => doc.arrays ++ [(name, [[]])]
      | some _ => alter name (· ++ [[]]) doc.arrays }

def Parser.dest (p : Parser) : Table :=
  match p.arrayEntry with
  | some name => ((p.doc.arrays.lookup name).bind List.getLast?).getD []
  | none => (p.doc.tables.lookup p.currentTable).getD []

def Parser.addKey (p : Parser) (key : Text) (value : Value) : Parser :=
  match p.arrayEntry with
  | some name => { p with doc := { p.doc with
      arrays := alter name (List.modifyLast (· ++ [(key, value)])) p.doc.arrays } }
  | none => { p with doc := { p.doc with
      tables := alter p.currentTable (· ++ [(key, value)]) p.doc.tables } }

/-- `line[n : len(line)-n]`. -/
def between (n : Nat) (line : Text) : Text := (line.take (line.length - n)).drop n

def Parser.arrayHeader (p : Parser) (line : Text) : Except Fault Parser :=
  if ¬[']', ']'] <:+ line then .error (.malformedArrayHeader line)
  else
    let name := trimSpace (between 2 line)
    if !validTOMLKey name then .error (.invalidTableName name)
    else .ok { doc := p.doc.addEntry name, currentTable := [], arrayEntry := some name }

def Parser.tableHeader (p : Parser) (line : Text) : Except Fault Parser :=
  if ¬[']'] <:+ line then .error (.malformedHeader line)
  else
    let name := trimSpace (between 1 line)
    if !validTOMLKey name then .error (.invalidTableName name)
    else if (p.doc.tables.lookup name).isSome then .error (.duplicateTable name)
    else .ok { doc := { p.doc with tables := p.doc.tables ++ [(name, [])] }, currentTable := name,
               arrayEntry := none }

/-- One round of the loop of `parseTOML`, and how many more lines it takes. -/
def Parser.takeLine (p : Parser) (raw : Text) (following : List Text) :
    Except (Nat × Fault) (Parser × Nat) :=
  let line := trimSpace (stripComment raw)
  if line = [] then .ok (p, 0)
  else if ['[', '['] <+: line then
    match p.arrayHeader line with
    | .error fault => .error (0, fault)
    | .ok p => .ok (p, 0)
  else if ['['] <+: line then
    match p.tableHeader line with
    | .error fault => .error (0, fault)
    | .ok p => .ok (p, 0)
  else
    match parseKeyValue line following with
    | .error e => .error e
    | .ok (key, value, ahead) =>
      if (p.dest.lookup key).isSome then .error (ahead, .duplicateKey key)
      else .ok (p.addKey key value, ahead)

/-- The loop of `parseTOML`; the first argument is how far `p.line` is ahead, the second
the number of the next line. -/
def parseLines : Nat → Nat → Parser → List Text → Except Error Doc
  | _, _, p, [] => .ok p.doc
  | skip + 1, line, p, _ :: rest => parseLines skip (line + 1) p rest
  | 0, line, p, raw :: rest =>
    match p.takeLine raw rest with
    | .error (ahead, fault) => .error ⟨line + ahead, fault⟩
    | .ok (p, ahead) => parseLines ahead (line + 1) p rest

def Parser.new : Parser := ⟨⟨[([], [])], []⟩, [], none⟩

def lines (src : Text) : List Text := src.splitOn '\n'

def parseTOML (src : Text) : Except Error Doc := parseLines 0 1 .new (lines src)

end Lobbylink.Config.Toml
