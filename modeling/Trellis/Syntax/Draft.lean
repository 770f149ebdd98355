import Trellis.Syntax.Tree

/-! # Trees while reading

While a source is read, a node knows only where it starts and ends; comments are collected on the
side.

`Draft.finish` turns a draft into a tree. It cuts the texts out of the source and puts every comment
into the innermost node around it: a comment before the first or after the last token of a node
belongs to the node's parent. -/

namespace Trellis.Syntax

/-- A stretch of a source: its first character, the character after it, and its line. -/
structure Span where
  /-- The place of the first character. -/
  start : Nat
  /-- The place after the last character. -/
  stop : Nat
  /-- The line of the first character. -/
  line : Nat
  deriving DecidableEq, Repr, Inhabited

/-- A node while reading. -/
inductive Draft where
  /-- A node with its kind, its label, its place, and its children. -/
  | node (kind : Kind) (label : Label) (span : Span) (children : List Draft)
  deriving Repr, Inhabited

namespace Draft

/-- What the node is. -/
def kind : Draft → Kind
  | node k _ _ _ => k

/-- Which part of its parent the node is. -/
def label : Draft → Label
  | node _ l _ _ => l

/-- Where the node stands. -/
def span : Draft → Span
  | node _ _ s _ => s

/-- The children. -/
def children : Draft → List Draft
  | node _ _ _ ds => ds

/-- The same node as a labelled part. -/
def as (l : Label) : Draft → Draft
  | node k _ s ds => node k l s ds

/-- The same node as of another kind. -/
def retype (k : Kind) : Draft → Draft
  | node _ l s ds => node k l s ds

/-- A node without children. -/
def leaf (k : Kind) (s : Span) : Draft := node k .none s []

/-- The text of a stretch. -/
def slice (source : Array Char) (s : Span) : String :=
  String.ofList (source.extract s.start s.stop).toList

/-- A comment as a tree. -/
def commentTree (source : Array Char) (s : Span) : Tree :=
  .node .comment .none (slice source s) s.line []

/-- The comments that start before a place, and the others. -/
def splitComments (place : Nat) (comments : List Span) : List Span × List Span :=
  comments.span (·.start < place)

mutual

/-- The tree of a node; the comments are those that lie inside it, in order. -/
def finish (source : Array Char) (comments : List Span) : Draft → Tree
  | node k l s ds => .node k l (slice source s) s.line (finishAll source comments ds)

/-- The trees of nodes with the comments between and inside them. -/
def finishAll (source : Array Char) (comments : List Span) : List Draft → List Tree
  | [] => comments.map (commentTree source)
  | node k l s ds :: rest =>
    let (before, others) := splitComments s.start comments
    let (inside, after) := splitComments s.stop others
    before.map (commentTree source) ++
      finish source inside (node k l s ds) :: finishAll source after rest

end

end Draft

end Trellis.Syntax
