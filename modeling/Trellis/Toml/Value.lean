import Trellis.Decimal.Digits

/-! # Values of the settings format

Settings are written in TOML. A document is a table; a table under construction remembers how each
of its parts came to be, because that decides what may still be added.

* A `header` table stands under a header of its own; it is closed to dotted keys from outside.
* An `implied` table is named only in the path of longer headers; a header may still claim it.
* A `dotted` table comes from dotted keys; no header may claim it. -/

namespace Trellis

open Decimal (Binary)

/-- A finished value. -/
inductive Toml where
  /-- A text. -/
  | string (s : String)
  /-- A whole number. -/
  | integer (n : Int)
  /-- A number with point or exponent. -/
  | float (x : Binary)
  /-- A truth value. -/
  | boolean (b : Bool)
  /-- A date, a time, or both, as written. -/
  | moment (s : String)
  /-- Values in order. -/
  | array (items : List Toml)
  /-- Named values, with pairwise distinct names. -/
  | table (entries : List (String × Toml))
  deriving Repr, Inhabited

namespace Toml

/-- The value of a name. -/
def lookup (name : String) : List (String × Toml) → Option Toml
  | [] => none
  | (n, v) :: rest => if n = name then some v else lookup name rest

/-- How a table came to be. -/
inductive Origin where
  /-- It has a header of its own, or is the document. -/
  | header
  /-- It is part of a longer header's path. -/
  | implied
  /-- It is part of a dotted key. -/
  | dotted
  deriving DecidableEq, Repr

/-- A part of a document under construction. -/
inductive Draft where
  /-- A finished value. -/
  | value (v : Toml)
  /-- A table. -/
  | table (origin : Origin) (entries : List (String × Draft))
  /-- Tables under one repeated header, the last one first. -/
  | tables (entries : List (List (String × Draft)))
  deriving Inhabited

/-- The part of a name. -/
def find? (name : String) : List (String × Draft) → Option Draft
  | [] => none
  | (n, d) :: rest => if n = name then some d else find? name rest

/-- Puts a part in place of that of the same name, or at the end. -/
def put (name : String) (d : Draft) : List (String × Draft) → List (String × Draft)
  | [] => [(name, d)]
  | (n, e) :: rest => if n = name then (n, d) :: rest else (n, e) :: put name d rest

/-- Takes the part of a name out. -/
def remove (name : String) : List (String × Draft) → List (String × Draft)
  | [] => []
  | (n, e) :: rest => if n = name then rest else (n, e) :: remove name rest

/-- Changes the table at a path of names, and makes the tables on the way. Names of a dotted key
do not lead into tables with a header of their own; a repeated header leads into its last table. -/
def change (dotted : Bool)
    (f : Origin → List (String × Draft) → Option (List (String × Draft))) :
    List String → Origin → List (String × Draft) → Option (List (String × Draft))
  | [], origin, entries => f origin entries
  | name :: path, _, entries =>
    match find? name entries with
    | none =>
      let origin := if dotted then Origin.dotted else .implied
      (change dotted f path origin []).map fun sub => put name (.table origin sub) entries
    | some (.value _) => none
    | some (.table origin sub) =>
      if dotted && origin = .header then none
      else (change dotted f path origin sub).map fun sub => put name (.table origin sub) entries
    | some (.tables (last :: earlier)) =>
      (change dotted f path .header last).map fun sub => put name (.tables (sub :: earlier)) entries
    | some (.tables []) => none

/-- Adds a value under a key, which may be dotted. A name must be new; a dotted key adds only to
tables that come from dotted keys. -/
def addValue (path : List String) (name : String) (v : Toml)
    (entries : List (String × Draft)) : Option (List (String × Draft)) :=
  change true (fun origin sub =>
    if !path.isEmpty && origin ≠ .dotted then none
    else if (find? name sub).isSome then none
    else some (put name (.value v) sub)) path .header entries

/-- Adds the values of a section one after another. -/
def addValues (entries : List (String × Draft)) :
    List (List String × String × Toml) → Option (List (String × Draft))
  | [] => some entries
  | (path, name, v) :: rest => (addValue path name v entries).bind (addValues · rest)

mutual

/-- The finished value of a part. -/
def Draft.finish : Draft → Toml
  | .value v => v
  | .table _ entries => .table (finishEntries entries)
  | .tables entries => .array (finishTables entries)

/-- The finished values of a table's parts. -/
def Draft.finishEntries : List (String × Draft) → List (String × Toml)
  | [] => []
  | (n, d) :: rest => (n, d.finish) :: finishEntries rest

/-- The finished tables of a repeated header, in order. -/
def Draft.finishTables : List (List (String × Draft)) → List Toml
  | [] => []
  | entries :: rest => finishTables rest ++ [.table (finishEntries entries)]

end

end Toml

end Trellis
