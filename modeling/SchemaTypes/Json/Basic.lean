import SchemaTypes.Decimal.Binary64

/-!
# JSON values

A value is null, a truth value, a number, a text, an array of values or an object.
Integers of 64 bits are kept exactly and all other numbers are binary floating
point.  The members of an object are sorted by key, and each key occurs once.
-/

namespace SchemaTypes

inductive Number where
  | integer (n : Int)
  | float (x : Decimal.Binary64)
  deriving DecidableEq, Repr, Inhabited

inductive Json where
  | null
  | bool (b : Bool)
  | number (n : Number)
  | string (s : List Char)
  | array (items : List Json)
  | object (members : List (List Char × Json))
  deriving Repr, Inhabited

abbrev Members := List (List Char × Json)

namespace Members

/-!
## Members by key

A member takes the place of an earlier one with the same key; otherwise it goes
before the first member with a later key.
-/

def put (key : List Char) (value : Json) : Members -> Members
  | [] => [(key, value)]
  | (k, v) :: rest =>
      if key = k then (key, value) :: rest
      else if key < k then (key, value) :: (k, v) :: rest
      else (k, v) :: put key value rest

def find? (key : List Char) : Members -> Option Json
  | [] => none
  | (k, v) :: rest => if key = k then some v else find? key rest

/-- The members given by pairs, the later ones taking the place of earlier ones. -/
def ofList (pairs : List (List Char × Json)) : Members :=
  pairs.foldl (fun o p => put p.1 p.2 o) []

end Members

namespace Json

def member? (key : String) : Json -> Option Json
  | object o => Members.find? key.toList o
  | _ => none

def ofText (s : String) : Json :=
  string s.toList

def ofNat (n : Nat) : Json :=
  number (.integer n)

end Json

end SchemaTypes
