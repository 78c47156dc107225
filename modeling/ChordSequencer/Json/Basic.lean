import ChordSequencer.Number.Decimal
import ChordSequencer.Text.Quoted

/-!
# JSON values

A value as a configuration holds it. Whole numbers are kept apart from others, and the members of an
object stay in their order. `Json.display` is how a message shows a value.
-/

namespace ChordSequencer

open Text

/-- A JSON value. -/
inductive Json
  | null
  | bool (b : Bool)
  | int (n : Int)
  | float (x : Float)
  | str (s : String)
  | arr (items : List Json)
  | obj (members : List (String × Json))

namespace Json

mutual

/-- A value as it is shown inside a list: texts are quoted. -/
def quoted : Json → String
  | null => "None"
  | bool b => if b then "True" else "False"
  | int n => toString n
  | float x => Number.Decimal.render x
  | str s => quote s
  | arr items => "[" ++ ", ".intercalate (quotedItems items) ++ "]"
  | obj members => "\x7b" ++ ", ".intercalate (quotedMembers members) ++ "\x7d"

/-- The items of a list as they are shown. -/
def quotedItems : List Json → List String
  | [] => []
  | v :: rest => v.quoted :: quotedItems rest

/-- The members of an object as they are shown. -/
def quotedMembers : List (String × Json) → List String
  | [] => []
  | (key, v) :: rest => (quote key ++ ": " ++ v.quoted) :: quotedMembers rest

end

/-- A value as a message shows it: a text stands for itself. -/
def display : Json → String
  | str s => s
  | v => v.quoted

/-- The member of an object. -/
def get? (v : Json) (key : String) : Option Json :=
  match v with
  | obj members => members.lookup key
  | _ => none

/-- The members of an object; other values have none. -/
def members : Json → List (String × Json)
  | obj members => members
  | _ => []

/-- The name of the type of a value. -/
def typeName : Json → String
  | null => "NoneType"
  | bool _ => "bool"
  | int _ => "int"
  | float _ => "float"
  | str _ => "str"
  | arr _ => "list"
  | obj _ => "dict"

/-- A value that counts as nothing: null, false, a zero, or something empty. -/
def isNothing : Json → Bool
  | null => true
  | bool b => !b
  | int n => n == 0
  | float x => x == 0.0
  | str s => s.isEmpty
  | arr items => items.isEmpty
  | obj members => members.isEmpty

/-- A number as a double; a whole number too large for one is taken as infinite, and a truth value
is the number 0 or 1. -/
def double? : Json → Option Float
  | bool b => some (if b then 1.0 else 0.0)
  | int n => some ((Number.ofInt? n).getD (if n < 0 then -Number.infinity else Number.infinity))
  | float x => some x
  | _ => none

/-- A whole number too large for a double. -/
def isTooLarge : Json → Bool
  | int n => (Number.ofInt? n).isNone
  | _ => false

end Json

end ChordSequencer
