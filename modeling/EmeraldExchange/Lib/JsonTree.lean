import Mathlib.Data.Rat.Floor

/-!
# JSON values with exact numbers

What a JSON parser hands to a program that reads it member by member: a tree, whose numbers are
integers or exact rationals, as they were written. An object has the members of its text, a later
one taking the place of an earlier one with the same name.
-/

namespace EmeraldExchange

/-- **A JSON value.** -/
inductive JsonTree
  | null
  | bool (b : Bool)
  | int (z : ℤ)
  /-- A number that is written with a fraction or an exponent. -/
  | float (q : ℚ)
  | str (s : String)
  | arr (vs : List JsonTree)
  | obj (ms : List (String × JsonTree))

namespace JsonTree

/-- The value of a member; only an object has members. -/
def get (v : JsonTree) (key : String) : Option JsonTree :=
  match v with
  | .obj ms => (ms.reverse.find? fun m => m.1 = key).map Prod.snd
  | _ => none

theorem get_pair {k l : String} (h : k ≠ l) (a b : JsonTree) :
    (obj [(k, a), (l, b)]).get k = some a ∧ (obj [(k, a), (l, b)]).get l = some b := by
  constructor
  · simp [get, h.symm]
  · simp [get]

/-- `v[key]`: null where there is no such member. -/
def index (v : JsonTree) (key : String) : JsonTree := (v.get key).getD .null

/-- `v[key] = x`: an object with one more member. -/
def insert (v : JsonTree) (key : String) (x : JsonTree) : JsonTree :=
  match v with
  | .obj ms => .obj (ms ++ [(key, x)])
  | v => v

def asStr : JsonTree → Option String
  | .str s => some s
  | _ => none

def asNum : JsonTree → Option ℚ
  | .int z => some z
  | .float q => some q
  | _ => none

def asI64 : JsonTree → Option ℤ
  | .int z => if -2 ^ 63 ≤ z ∧ z < 2 ^ 63 then some z else none
  | _ => none

def asArray : JsonTree → Option (List JsonTree)
  | .arr vs => some vs
  | _ => none

end JsonTree

end EmeraldExchange
