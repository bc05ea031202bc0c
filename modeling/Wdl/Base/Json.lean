import Mathlib.Data.Int.Notation
import Mathlib.Data.Nat.Notation

/-!
# JSON values

What a program sees of a JSON value that was parsed: its kind, and what it holds. A number that is
not an integer is a float, which a reader of integers refuses. The members of an object are looked
up by their names.
-/

namespace Wdl

/-- A JSON value. -/
inductive Json
  | null
  | bool (b : Bool)
  | int (n : ℤ)
  /-- A number that is not written as an integer. -/
  | float (x : Float)
  | str (s : String)
  | arr (items : List Json)
  | obj (members : List (String × Json))

namespace Json

/-- The member of an object with the given name. -/
def get (name : String) : Json → Option Json
  | obj members => members.lookup name
  | _ => none

def asBool : Json → Option Bool
  | bool b => some b
  | _ => none

def asStr : Json → Option String
  | str s => some s
  | _ => none

def asArray : Json → Option (List Json)
  | arr items => some items
  | _ => none

/-- The value, if it is an object. -/
def asObject : Json → Option Json
  | obj members => some (obj members)
  | _ => none

/-- A natural number of 64 bits. -/
def asUInt64 : Json → Option ℕ
  | int n => if 0 ≤ n ∧ n < 0x10000000000000000 then some n.toNat else none
  | _ => none

/-- An integer of 64 bits. -/
def asInt64 : Json → Option ℤ
  | int n => if -0x8000000000000000 ≤ n ∧ n < 0x8000000000000000 then some n else none
  | _ => none

end Json

end Wdl
