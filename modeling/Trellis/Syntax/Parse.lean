import Trellis.Source.Dialect
import Trellis.Syntax.Grammar.Statement

/-! # Reading a whole source

Here the circle of the grammar's rules is closed: `readGoal` reads a central part, with the central
parts inside it one level deeper. `parse?` gives the tree of a source in a dialect, or none when the
source does not follow the grammar. -/

namespace Trellis.Syntax

variable {source : List Char}

/-- Reads a central part with at most `depth` levels of parts inside each other. -/
def readGoal (typed markup : Bool) : (depth : Nat) → Goal → Reader source Draft
  | 0, _ => failure
  | depth + 1, goal =>
    let g : Grammar source := ⟨typed, markup, readGoal typed markup depth⟩
    match goal with
    | .expression plain => g.fullExpression plain
    | .operators plain level => g.operators plain level
    | .operand plain => g.operand plain
    | .access => g.access
    | .place => g.place
    | .statement => g.statement
    | .type breaks => g.fullType breaks
    | .primaryType breaks => g.primaryType breaks
    | .pattern => g.pattern
    | .element => g.element

/-- A whole source. -/
def program (g : Grammar source) : Reader source Draft := do
  let first ← Reader.maybe (do
    Reader.require ("#!".toList.isPrefixOf (← Reader.rest))
    let n := ((← Reader.rest).takeWhile (! Lexeme.isBreak ·)).length
    return .leaf .hashBang (← Reader.take n))
  let ss ← g.statements
  Reader.skip
  let p ← get
  Reader.require p.rest.isEmpty
  return .node .program .none ⟨0, p.place, 0⟩ (first ++ ss)

/-- A bound for the levels of parts inside each other: every bracket, operator or word of a source
opens at most a few levels. -/
def depthBound (source : List Char) : Nat := 16 * source.length + 64

/-- The tree of a source, or none when the source does not follow the grammar. -/
def parse? (dialect : Dialect) (source : String) : Option Tree := do
  let chars := source.toList
  let typed := dialect.isTyped
  let markup := dialect.admitsMarkup
  let g : Grammar chars := ⟨typed, markup, readGoal typed markup (depthBound chars)⟩
  let (d, p) ← (program g).run (.start chars)
  return d.finish chars.toArray p.comments.reverse

end Trellis.Syntax
