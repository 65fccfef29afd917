import Lobbylink.Java.Json

/-! The typed accessors of `Json`, with the defaults for what is missing or of another type. -/
namespace Lobbylink.Java.Messages
open Json

variable {D : Type}

abbrev Members (D : Type) := List (JString × Value D)

/-- With `Number.intValue` of a double. -/
structure JavaNumbers (D : Type) extends JavaLib D where
  intValue : D → Int32

/-- `Map.get`. -/
def get (m : Members D) (key : JString) : Option (Value D) :=
  (m.find? fun e => e.1 = key).map Prod.snd

def asObject : Value D → Option (Members D)
  | .map m => some m
  | _ => none

def asArray : Value D → Option (List (Value D))
  | .list l => some l
  | _ => none

variable (lib : JavaNumbers D)

mutual

/-- `Object.toString`. -/
def toText : Value D → JString
  | .null => nullText
  | .bool b => if b then trueText else falseText
  | .long n => longText n
  | .double d => lib.doubleText d
  | .string s => s
  | .list l => u '[' :: (elementTexts true l ++ [u ']'])
  | .map m => u '{' :: (memberTexts true m ++ [u '}'])

def elementTexts : Bool → List (Value D) → JString
  | _, [] => []
  | first, v :: rest =>
    (if first then [] else [u ',', u ' ']) ++ (toText v ++ elementTexts false rest)

def memberTexts : Bool → Members D → JString
  | _, [] => []
  | first, (key, v) :: rest =>
    (if first then [] else [u ',', u ' ']) ++
      (key ++ (u '=' :: (toText v ++ memberTexts false rest)))

end

def str (m : Members D) (key : String) : Option JString :=
  match get m (units key) with
  | none | some .null => none
  | some v => some (toText lib v)

def strOr (m : Members D) (key : String) (default : String) : JString :=
  (str lib m key).getD (units default)

def bool (m : Members D) (key : String) (default : Bool) : Bool :=
  match get m (units key) with
  | some (.bool b) => b
  | _ => default

def intVal (m : Members D) (key : String) (default : Int) : Int :=
  match get m (units key) with
  | some (.long n) => n.toInt32.toInt
  | some (.double d) => (lib.intValue d).toInt
  | _ => default

end Lobbylink.Java.Messages
