import Trellis.Decimal.Digits

/-! # Structured values

The values of the data format in which coverage summaries are read and reports are written.

* A number is kept as an integer when it was written as one and fits 64 bits, and as a binary
  floating-point number otherwise.
* An object keeps its members in order; `Json.get?` finds a member, `Json.sortKeys` orders the
  members of every object by name and keeps the last of equal names. -/

namespace Trellis

open Decimal (Binary)

/-- A structured value. -/
inductive Json where
  /-- The absent value. -/
  | null
  /-- A truth value. -/
  | bool (b : Bool)
  /-- A whole number. -/
  | int (n : Int)
  /-- A number that was not written as an integer. -/
  | real (x : Binary)
  /-- A text. -/
  | str (s : String)
  /-- Values in order. -/
  | arr (items : List Json)
  /-- Named values in order. -/
  | obj (members : List (String × Json))
  deriving Repr, Inhabited

namespace Json

/-- The first member of a given name. -/
def member? (name : String) : List (String × Json) → Option Json
  | [] => none
  | (n, v) :: rest => if n = name then some v else member? name rest

/-- The member of an object of a given name; an absent member and other values have none. -/
def get? (v : Json) (name : String) : Option Json :=
  match v with
  | obj members =>
    match member? name members with
    | some null => none
    | found => found
  | _ => none

/-- The text of a text value. -/
def str? : Json → Option String
  | str s => some s
  | _ => none

/-- The truth value of a truth value. -/
def bool? : Json → Option Bool
  | bool b => some b
  | _ => none

/-- The natural number of a whole number that is not negative. -/
def nat? : Json → Option Nat
  | int n => if n < 0 then none else some n.toNat
  | _ => none

/-- The number as a binary floating-point number. -/
def binary? : Json → Option Binary
  | int n => some (Binary.ofInt n)
  | real x => some x
  | _ => none

/-- The items of a list value. -/
def items? : Json → Option (List Json)
  | arr items => some items
  | _ => none

/-- A text or the absent value. -/
def ofText? : Option String → Json
  | some s => str s
  | none => null

/-- A whole number from a natural one. -/
def nat (n : Nat) : Json := int n

/-- A list of texts. -/
def texts (ss : List String) : Json := arr (ss.map str)

/-- Puts a member into a list that is ordered by name, in place of one of the same name. -/
def insertMember (name : String) (v : Json) : List (String × Json) → List (String × Json)
  | [] => [(name, v)]
  | (n, w) :: rest =>
    if name = n then (n, v) :: rest
    else if name < n then (name, v) :: (n, w) :: rest
    else (n, w) :: insertMember name v rest

mutual

/-- The value with the members of every object ordered by name, the last of equal names kept. -/
def sortKeys : Json → Json
  | arr items => arr (sortItems items)
  | obj members => obj (sortMembers members [])
  | v => v

/-- `sortKeys` of every item. -/
def sortItems : List Json → List Json
  | [] => []
  | v :: rest => sortKeys v :: sortItems rest

/-- Inserts the members one after another into an ordered list. -/
def sortMembers : List (String × Json) → List (String × Json) → List (String × Json)
  | [], sorted => sorted
  | (n, v) :: rest, sorted => sortMembers rest (insertMember n (sortKeys v) sorted)

end

end Json

end Trellis
