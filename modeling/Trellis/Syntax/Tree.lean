import Trellis.Syntax.Kind

/-! # Trees of sources

A source's tree. A node carries its own text and line and its label, so that a part of a tree can
be looked at by itself.

* `Tree.part?` finds the child with a label, `Tree.parts` gives the children that are no marks.
* `Tree.content?` is the first child that is neither a mark nor a comment.
* `Tree.descendants` lists a node and everything below it in source order. -/

namespace Trellis

open Syntax (Kind Label)

/-- A node of a source's tree. -/
inductive Tree where
  /-- A node with its kind, its label, its text, the line on which it starts, and its children. -/
  | node (kind : Kind) (label : Label) (text : String) (line : Nat) (children : List Tree)
  deriving Repr, Inhabited

namespace Tree

/-- What the node is. -/
def kind : Tree → Kind
  | node k _ _ _ _ => k

/-- Which part of its parent the node is. -/
def label : Tree → Label
  | node _ l _ _ _ => l

/-- The source text of the node. -/
def text : Tree → String
  | node _ _ s _ _ => s

/-- The line on which the node starts. -/
def line : Tree → Nat
  | node _ _ _ n _ => n

/-- The children, in source order. -/
def children : Tree → List Tree
  | node _ _ _ _ ts => ts

/-- The children that are no marks. -/
def parts (t : Tree) : List Tree := t.children.filter (·.kind ≠ .mark)

/-- The first child with a label. -/
def part? (t : Tree) (l : Label) : Option Tree := t.children.find? (·.label = l)

/-- The first child that is neither a mark nor a comment. -/
def content? (t : Tree) : Option Tree := t.parts.find? (·.kind ≠ .comment)

/-- Whether a mark is among the children. -/
def hasMark (t : Tree) (mark : String) : Bool :=
  t.children.any fun c => c.kind = .mark && c.text = mark

mutual

/-- The node and everything below it that is no mark, in source order. -/
def descendants : Tree → List Tree
  | node k l s n ts => node k l s n ts :: descendantsOfAll ts

/-- `descendants` of all trees that are no marks. -/
def descendantsOfAll : List Tree → List Tree
  | [] => []
  | t :: ts => (if t.kind = .mark then [] else descendants t) ++ descendantsOfAll ts

end

end Tree

end Trellis
