import Reckon.Word

/-! JSON values. Members keep their order. A number is an integer only if it is written as one. -/

namespace Reckon

inductive Json where
  | null
  | bool (b : Bool)
  | integer (n : Int)
  /-- The number `mantissa` · 10 ^ -`places`. -/
  | decimal (mantissa : Int) (places : Nat)
  | string (s : String)
  | array (items : List Json)
  | object (members : List (String × Json))
  deriving Inhabited

namespace Json

/-- The values of the named fields, in the order of the names. A structure may be written as an
object, where other members do no harm, or as an array of just its fields. -/
def fields? (names : List String) : Json → Option (List Json)
  | object members => names.mapM fun name => members.lookup name
  | array items => if items.length = names.length then some items else none
  | _ => none

/-- A variant by its name, with its content. A variant without content may be its name alone. -/
def variant? : Json → Option (String × Option Json)
  | string name => some (name, none)
  | object [(name, content)] => some (name, some content)
  | _ => none

/-- Whether what comes with a variant without content is as good as nothing. -/
def isNothing : Option Json → Bool
  | none | some null => true
  | _ => false

def string? : Json → Option String
  | string s => some s
  | _ => none

def bool? : Json → Option Bool
  | bool b => some b
  | _ => none

/-- A byte offset, which fits 64 bits. -/
def offset? : Json → Option Nat
  | integer n => if 0 ≤ n ∧ n ≤ 18446744073709551615 then some n.toNat else none
  | _ => none

def word? : Json → Option Int32
  | integer n => narrow? n
  | _ => none

def array? : Json → Option (List Json)
  | array items => some items
  | _ => none

end Json

end Reckon
