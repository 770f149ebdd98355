import Trellis.Contract.Basic
import Trellis.Syntax.Tree

/-! # Gates

Under which conditions on the props an element is rendered.

* `Enclosure.between` tells what stands between a tree and one of its children: markup, or a
  condition that the child's side needs.
* `Gate.ofEnclosures` goes outwards from an element and collects the props of all conditions. A prop
  keeps the truth value with which it is met first.
* `Mentions.ofCondition` lists the props in a condition; an exclamation mark turns the truth value
  of everything under it. -/

namespace Trellis

open Syntax

/-- What stands around an element. -/
inductive Enclosure where
  /-- An element with a name. -/
  | markup
  /-- A condition, and the truth value that it must have. -/
  | guard (condition : Tree) (truthy : Bool)
  deriving Repr

namespace Enclosure

/-- Whether a tree is an element, fragments included. -/
def isElement (t : Tree) : Bool := t.kind = .element || t.kind = .selfClosingElement

/-- The tag with the name and attributes of an element. -/
def tagOf? (t : Tree) : Option Tree :=
  if t.kind = .selfClosingElement then some t else t.part? .openTag

/-- The name of an element; a fragment has none. -/
def tagName? (t : Tree) : Option String := ((tagOf? t).bind (·.part? .name)).map Tree.text

/-- The condition under which a tree renders one of its children. -/
def guard? (parent child : Tree) : Option Enclosure := do
  match parent.kind with
  | .binaryExpression =>
    let op ← parent.part? .operator
    let left ← parent.part? .left
    if child.label ≠ .right then none
    else if op.text = "&&" then some (guard left true)
    else if op.text = "||" then some (guard left false)
    else none
  | .ternaryExpression | .ifStatement =>
    let condition ← parent.part? .condition
    match child.label with
    | .consequence => some (guard condition true)
    | .alternative => some (guard condition false)
    | _ => none
  | _ => none

/-- What stands between a tree and one of its children. -/
def between (parent child : Tree) : Option Enclosure :=
  if isElement parent && (tagName? parent).isSome then some markup else guard? parent child

end Enclosure

/-! ### Props in conditions -/

namespace Mentions

/-- The name by which a tree mentions a prop: a variable, or a member of `props`. -/
def nameOf? (t : Tree) : Option String :=
  match t.kind with
  | .identifier => some t.text
  | .memberExpression =>
    match t.part? .object, t.part? .property with
    | some o, some p => if o.kind = .identifier && o.text = "props" then some p.text else none
    | _, _ => none
  | _ => none

/-- Whether a tree turns the truth value of what is under it. -/
def flips (t : Tree) : Bool :=
  t.kind = .unaryExpression && (t.part? .operator).any (·.text = "!")

mutual

/-- The names in a condition, each with whether it is negated. -/
def all (negated : Bool) : Tree → List (String × Bool)
  | .node k l text line ts =>
    match nameOf? (.node k l text line ts) with
    | some name => [(name, negated)]
    | none => ofEach (negated != flips (.node k l text line ts)) ts

/-- The names in several trees. -/
def ofEach (negated : Bool) : List Tree → List (String × Bool)
  | [] => []
  | t :: ts => (if t.kind = .mark then [] else all negated t) ++ ofEach negated ts

end

/-- The first entry for each name. -/
def firsts : List (String × Bool) → List (String × Bool)
  | [] => []
  | e :: es => e :: (firsts es).filter (·.1 ≠ e.1)

/-- The declared props in a condition, each with whether it is negated where it is met first. -/
def ofCondition (props : List String) (condition : Tree) : List (String × Bool) :=
  firsts ((all false condition).filter fun e => props.contains e.1)

end Mentions

/-! ### Gates -/

/-- The props on which an element depends. -/
structure Gate where
  /-- The props that must be truthy. -/
  required : List String
  /-- The props that must be falsy. -/
  falsy : List String
  /-- Whether no element stands between the innermost condition and the element. -/
  isRoot : Bool
  deriving DecidableEq, Repr

namespace Gate

/-- Adds a prop with its truth value, unless the prop is there already. -/
def add (g : Gate) (name : String) (truthy : Bool) : Gate :=
  if g.required.contains name || g.falsy.contains name then g
  else if truthy then { g with required := g.required ++ [name] }
  else { g with falsy := g.falsy ++ [name] }

/-- Adds the props of a condition that must have a truth value. -/
def addAll (g : Gate) (truthy : Bool) (mentions : List (String × Bool)) : Gate :=
  mentions.foldl (fun g e => g.add e.1 (truthy != e.2)) g

/-- Goes outwards from an element; `inMarkup` tells whether an element has been passed. -/
def collect (props : List String) : (inMarkup : Bool) → Option Gate → List Enclosure → Option Gate
  | _, g, [] => g
  | _, g, .markup :: rest => collect props true g rest
  | inMarkup, g, .guard condition truthy :: rest =>
    let mentions := Mentions.ofCondition props condition
    if mentions.isEmpty then collect props inMarkup g rest
    else
      collect props inMarkup
        (some ((g.getD ⟨[], [], !inMarkup⟩).addAll truthy mentions)) rest

/-- The gate of an element in what stands around it, from the inside outwards. -/
def ofEnclosures (props : List String) (around : List Enclosure) : Option Gate :=
  collect props false none around

end Gate

end Trellis
