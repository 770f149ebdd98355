import Trellis.Syntax.Grammar.Type

/-! # Patterns

A pattern takes a value apart: an object's members, an array's elements, what is left of either. In
an assignment a pattern may also be a place, such as a member of an object. -/

namespace Trellis.Syntax.Grammar

open Reader

variable {source : List Char} (g : Grammar source)

/-- A pattern for what is left. -/
def restPattern : Reader source Draft := build .restPattern do
  let _ ← op "..."
  return [← g.read .pattern]

/-- A variable of an object pattern. -/
def shorthandPattern : Reader source Draft := name .shorthandPattern

/-- A member of an object pattern. -/
def patternMember : Reader source Draft :=
  build .pairPattern (do
    let key ← g.memberName
    let _ ← op ":"
    let value ← g.patternWithDefault
    return [key.as .key, value.as .value]) <|>
  g.restPattern <|>
  build .objectAssignmentPattern (do
    let left ← shorthandPattern
    let _ ← op "="
    return [left.as .left, (← g.expression).as .right]) <|>
  shorthandPattern

/-- A pattern for an object. -/
def objectPattern : Reader source Draft := build .objectPattern do
  let _ ← op "\x7b"
  let members ← looseList g.patternMember
  let _ ← op "\x7d"
  return members

/-- A pattern for an array. -/
def arrayPattern : Reader source Draft := build .arrayPattern do
  let _ ← op "["
  let elements ← looseList g.patternWithDefault
  let _ ← op "]"
  return elements

/-- A pattern for an object or an array. -/
def bracketPattern : Reader source Draft := g.objectPattern <|> g.arrayPattern

/-- A pattern. -/
def pattern : Reader source Draft := g.bracketPattern <|> g.restPattern <|> g.read .place

end Trellis.Syntax.Grammar
