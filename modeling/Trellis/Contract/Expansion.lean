import Trellis.Contract.TypeMember

/-! # Expansion of types

What a type of props stands for. Names lead to declarations, in the same module or through imports
in other modules; the type is written out down to the braces in which the members stand.

* `Expansion` is a type written out. `Expansion.members` lists its members in order, and
  `Expansion.lookups` the modules that had to be looked at.
* `Expansion.locate` follows a name through imports to its declaration. It gives up on a name that
  is being written out already, so that types which refer to themselves come to an end.
* `Expansion.ofType` writes a type out down to `Expansion.levels` levels of names and brackets. -/

namespace Trellis

open Syntax

/-- A type written out. -/
inductive Expansion where
  /-- Members in braces. -/
  | own (members : List PropMember)
  /-- Several types at once, in order. -/
  | join (parts : List Expansion)
  /-- A type found by looking at other modules. -/
  | through (lookups : List Lookup) (type : Expansion)
  /-- A type with children. -/
  | withChildren (type : Expansion)
  /-- A type whose members all may, or all must not, be left out. -/
  | withOptional (optional : Bool) (type : Expansion)
  /-- A type without the members that have one of some names, or with those only. -/
  | select (keep : Bool) (names : List String) (type : Expansion)

namespace Expansion

/-- Nothing. -/
def nothing : Expansion := own []

/-- The member for what stands between the tags of a component. -/
def children : PropMember := ⟨"children", "React.ReactNode", true, false, false⟩

mutual

/-- The members of a type, in order. -/
def members : Expansion → List PropMember
  | own ms => ms
  | join es => membersOfAll es
  | through _ e => members e
  | withChildren e => members e ++ [children]
  | withOptional b e => (members e).map fun m => { m with optional := b }
  | select keep names e => (members e).filter fun m => names.contains m.name = keep

/-- The members of several types, in order. -/
def membersOfAll : List Expansion → List PropMember
  | [] => []
  | e :: es => members e ++ membersOfAll es

end

mutual

/-- The modules that had to be looked at, in order. -/
def lookups : Expansion → List Lookup
  | own _ => []
  | join es => lookupsOfAll es
  | through ls e => ls ++ lookups e
  | withChildren e | withOptional _ e | select _ _ e => lookups e

/-- The modules that had to be looked at for several types. -/
def lookupsOfAll : List Expansion → List Lookup
  | [] => []
  | e :: es => lookups e ++ lookupsOfAll es

end

/-! ### Names -/

/-- A name in a module. Two texts of one path are the same place. -/
abbrev Place := List Path.Component × String

/-- The place of a name in a source. -/
def placeOf (s : Source) (name : String) : Place := (s.path.components, name)

/-- A declaration that was found, with the places that led to it. -/
structure Found where
  /-- The module of the declaration. -/
  source : Source
  /-- The declaration. -/
  declaration : Tree
  /-- The places being written out, this one included. -/
  places : List Place

/-- Follows a name to its declaration through at most `reach` imports. -/
def locate (modules : Modules) : (reach : Nat) → List Place → Source → String →
    List Lookup × Option Found
  | reach, places, s, name =>
    if places.contains (placeOf s name) then ([], none)
    else
      let places := placeOf s name :: places
      match TypeMember.declaration? s name with
      | some d => ([], some ⟨s, d, places⟩)
      | none =>
        match TypeMember.import? s name, reach with
        | some (specifier, imported), reach + 1 =>
          match modules.lookup s.path specifier with
          | .found m =>
            let (ls, found) := locate modules reach places m imported
            (.found m :: ls, found)
          | l => ([l], none)
        | _, _ => ([], none)

/-! ### Brackets -/

mutual

/-- The type inside of ascriptions and parentheses. -/
def peel : Tree → Option Tree
  | .node k l text line ts =>
    if k = .typeAscription || k = .parenthesizedType then peelFirst ts
    else some (.node k l text line ts)

/-- The type inside of the first tree that is neither a mark nor a comment. -/
def peelFirst : List Tree → Option Tree
  | [] => none
  | t :: ts => if t.kind = .mark || t.kind = .comment then peelFirst ts else peel t

end

/-- The last part of a name with points. -/
def lastName (name : String) : String :=
  String.ofList (name.toList.reverse.takeWhile (· ≠ '.')).reverse

/-- The names that a union of literals lists. -/
def literalNames (t : Tree) : List String := (TypeText.unionMembers t.text).map Text.stripQuotes

/-- The arguments of a type. -/
def argumentsOf (t : Tree) : List Tree :=
  (t.part? .typeArguments).elim [] fun a => a.parts.filter (·.kind ≠ .comment)

/-- The bases of an interface. -/
def basesOf (t : Tree) : List Tree := (TypeMember.partsOf .extendsTypeClause t).flatMap Tree.parts

/-! ### Types -/

/-- How many levels of names and brackets are written out. -/
def levels : Nat := 9

/-- Writes a type in a module out, down to some levels; the places are those that are being written
out already. -/
def ofType (modules : Modules) (levels : Nat) (places : List Place) (s : Source) (type : Tree) :
    Expansion :=
  match levels, peel type with
  | 0, _ => nothing
  | _, none => nothing
  | level + 1, some t =>
    let named (name : String) : Expansion :=
      let (ls, found) := locate modules modules.reach places s name
      match found with
      | none => through ls nothing
      | some f =>
        let inside := ofType modules (level - ls.length - 1) f.places f.source
        through ls <|
          match f.declaration.kind with
          | .interfaceDeclaration =>
            join ((basesOf f.declaration).map inside ++
              ((f.declaration.part? .body).map fun b => own (TypeMember.ofBody f.source b)).toList)
          | _ => ((f.declaration.part? .value).map inside).getD nothing
    let argument := ((argumentsOf t).head?.map (ofType modules level places s)).getD nothing
    let applied (name : Tree) : Expansion :=
      match lastName name.text with
      | "PropsWithChildren" => withChildren argument
      | "Partial" => withOptional true argument
      | "Required" => withOptional false argument
      | "Readonly" => argument
      | "Omit" => select false ((argumentsOf t)[1]?.elim [] literalNames) argument
      | "Pick" => select true ((argumentsOf t)[1]?.elim [] literalNames) argument
      | _ => if name.kind = .typeIdentifier then named name.text else nothing
    match t.kind with
    | .objectType | .interfaceBody => own (TypeMember.ofBody s t)
    | .typeIdentifier => named t.text
    | .genericType => (t.part? .name).elim nothing applied
    | .intersectionType => join (t.parts.map (ofType modules level places s))
    | _ => nothing
termination_by levels

end Expansion

end Trellis
