/-! # Layout of generated text

A generated text is a list of items: lines at a depth, closing lines, and gaps.

* A gap is one blank line; it is dropped at the start of a text and after another gap.
* A closing line takes back a gap right before it.
* `Layout.render` writes the items; the text is built from its end, so that the last characters
  are at hand. `Layout.finish` leaves exactly one line break at the end of a text. -/

namespace Trellis

/-- A piece of a generated text. -/
inductive Layout where
  /-- A line at a depth; an empty one is not indented. -/
  | line (depth : Nat) (text : String)
  /-- A line that closes a block, at the depth of the line that opened it. -/
  | closing (depth : Nat) (text : String)
  /-- A blank line between two parts. -/
  | gap
  deriving DecidableEq, Repr

namespace Layout

/-- The indentation at a depth. -/
def indent (depth : Nat) : List Char := List.replicate (2 * depth) ' '

/-- A line with its indentation and its line break. -/
def lineChars (depth : Nat) (text : String) : List Char :=
  (if text.toList.isEmpty then [] else indent depth ++ text.toList) ++ ['\n']

/-- Takes a blank line off the end of a reversed text. -/
def dropGap : List Char → List Char
  | '\n' :: '\n' :: rest => '\n' :: rest
  | rev => rev

/-- Puts a blank line at the end of a reversed text, unless it is empty or ends in one. -/
def addGap : List Char → List Char
  | [] => []
  | '\n' :: '\n' :: rest => '\n' :: '\n' :: rest
  | rev => '\n' :: rev

/-- Writes one item at the end of a reversed text. -/
def put (rev : List Char) : Layout → List Char
  | line depth text => (lineChars depth text).reverse ++ rev
  | closing depth text => (lineChars depth text).reverse ++ dropGap rev
  | gap => addGap rev

/-- The reversed text of some items. -/
def renderRev (items : List Layout) : List Char := items.foldl put []

/-- The text of some items. -/
def render (items : List Layout) : List Char := (renderRev items).reverse

/-- Takes all blank lines off the end of a reversed text. -/
def finishRev : List Char → List Char
  | '\n' :: '\n' :: rest => finishRev ('\n' :: rest)
  | rev => rev

/-- The text without blank lines at its end. -/
def finish (text : List Char) : List Char := (finishRev text.reverse).reverse

@[simp] theorem renderRev_nil : renderRev [] = [] := rfl

@[simp] theorem renderRev_append_singleton (items : List Layout) (item : Layout) :
    renderRev (items ++ [item]) = put (renderRev items) item := by
  simp [renderRev, List.foldl_append]

end Layout

end Trellis
