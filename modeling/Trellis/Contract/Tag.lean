import Trellis.Contract.Gate
import Trellis.Mock

/-! # Tags and texts

What the tag of an element says, and the text that a reader sees in it.

* `Attributes.ofTag` lists the attributes of a tag.
* `Markup.handlers` lists the callback props that handlers of a tag mention.
* `Markup.staticText` is the text of an element, when it is known: its own text, or the text of the
  one element in it that has some. A computed part makes it unknown. -/

namespace Trellis

open Syntax

namespace AttributeValue

/-- Whether a template has expressions in it. -/
def isComputed (t : Tree) : Bool := Text.contains t.text "$\x7b"

/-- The value that an expression is. -/
def ofExpression (t : Tree) : AttributeValue :=
  match t.kind with
  | .string => text (Text.stripQuotes t.text)
  | .templateString => if isComputed t then expression t.text else text (Text.stripQuotes t.text)
  | .true => flag true
  | .false => flag false
  | _ => expression t.text

/-- The value written for an attribute. -/
def ofTree (t : Tree) : AttributeValue :=
  match t.kind with
  | .string => text (Text.stripQuotes t.text)
  | .markupExpression => (t.content?).elim (expression "") ofExpression
  | _ => expression t.text

end AttributeValue

namespace Attributes

/-- The name and value of an attribute. -/
def entryOf? (t : Tree) : Option (String × AttributeValue) :=
  if t.kind = .attribute then
    match t.parts with
    | [] => none
    | [n] => some (n.text, .flag true)
    | n :: v :: _ => some (n.text, .ofTree v)
  else none

/-- The attributes of a tag. -/
def ofTag (tag : Tree) : Attributes := ofList (tag.parts.filterMap entryOf?)

end Attributes

namespace Markup

/-! ### Handlers -/

/-- Whether a part of a tag is an attribute for a handler. -/
def isHandler (t : Tree) : Bool :=
  t.kind = .attribute && t.content?.any fun n => PropName.isHandler n.text

/-- The names that the handlers of a tag mention, in order. -/
def handlerNames (tag : Tree) : List String :=
  ((tag.parts.filter isHandler).flatMap Tree.descendants).filterMap Mentions.nameOf?

/-- The texts without later repetitions. -/
def distinct : List String → List String
  | [] => []
  | s :: ss => s :: (distinct ss).filter (· ≠ s)

/-- The callback props that the handlers of a tag mention. -/
def handlers (props : List ComponentProp) (tag : Tree) : List String :=
  distinct ((handlerNames tag).filter fun n => props.any fun p => p.name = n && p.isCallback)

/-! ### Texts -/

/-- What a child tells about the text of an element. -/
inductive Piece where
  /-- A text of the element itself. -/
  | own (text : String)
  /-- An element with its own text, if that is known. -/
  | nested (text : Option String)
  /-- A part that is computed when the element is rendered. -/
  | computed
  /-- Nothing. -/
  | nothing
  deriving DecidableEq, Repr

namespace Piece

/-- The text of an element itself. -/
def own? : Piece → Option String
  | own s => some s
  | _ => none

/-- The known text of an element inside. -/
def nested? : Piece → Option String
  | nested s => s
  | _ => none

/-- What an expression among the children tells. -/
def ofExpression (t : Tree) : Piece :=
  match t.content? with
  | none => nothing
  | some inner =>
    if inner.kind = .string || (inner.kind = .templateString && !AttributeValue.isComputed inner)
    then own (Text.stripQuotes inner.text) else computed

/-- What a text among the children tells. -/
def ofText (t : Tree) : Piece :=
  if Text.isBlankText t.text then nothing else own (Text.trim t.text)

/-- The text of an element with such children. -/
def combine (pieces : List Piece) : Option String :=
  if pieces.contains computed then none
  else
    let shown := Text.collapse (String.intercalate " " (pieces.filterMap own?))
    match pieces.filterMap nested? with
    | [] => if shown = "" then none else some shown
    | [only] => if shown = "" then some only else none
    | _ => none

end Piece

mutual

/-- The text of an element, when it is known. -/
def staticText : Tree → Option String
  | .node k _ _ _ ts => if k = .element then Piece.combine (piecesOf ts) else none

/-- What each child tells about the text of an element. -/
def piecesOf : List Tree → List Piece
  | [] => []
  | t :: ts =>
    let piece :=
      match t.kind with
      | .markupText => Piece.ofText t
      | .markupExpression => Piece.ofExpression t
      | .element => Piece.nested (staticText t)
      | _ => Piece.nothing
    piece :: piecesOf ts

end

end Markup

end Trellis
