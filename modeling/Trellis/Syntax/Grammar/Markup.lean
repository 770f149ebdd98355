import Trellis.Syntax.Grammar.Pattern

/-! # Markup

Elements, their attributes and children.

Text between elements is read as it stands: blanks belong to it, and what looks like a comment is
text. Blanks alone count as text only if they do not stand at a line break. -/

namespace Trellis.Syntax.Grammar

open Reader

variable {source : List Char} (g : Grammar source)

/-! ### Names -/

/-- Characters of a name with hyphens. -/
def isHyphenChar (c : Char) : Bool := c.isAlphanum || c = '_' || c = '$' || c = '-'

/-- The length of a name, perhaps with hyphens. -/
def markupName? (s : List Char) : Option Nat :=
  match Lexeme.word? s with
  | none => none
  | some n =>
    if (s.take n).all isHyphenChar && (s.drop n).head? = some '-' then
      some (s.takeWhile isHyphenChar).length
    else some n

/-- A name with a namespace. -/
def namespaceName : Reader source Draft := build .namespaceName do
  let first ← lexeme .identifier markupName?
  let _ ← op ":"
  return [first, ← lexeme .identifier markupName?]

/-- The members that follow a name; `n` bounds them. -/
def markupMembers (first : Draft) : Nat → Reader source Draft
  | 0 => pure first
  | n + 1 => do
    let next ← optional (extend .memberExpression first do
      let _ ← op "."
      return [first.as .object, (← name .propertyIdentifier).as .property])
    match next with
    | some d => markupMembers d n
    | none => return first

/-- The name of an element. -/
def elementName : Reader source Draft :=
  namespaceName <|> do
    let first ← lexeme .identifier markupName?
    markupMembers first (← limit)

/-! ### Character references and texts -/

/-- The length of a character reference. -/
def reference? (s : List Char) : Option Nat :=
  let closed (n least most : Nat) (r : List Char) (ok : Char → Bool) : Option Nat :=
    let k := (r.takeWhile ok).length
    if least ≤ k && k ≤ most && (r.drop k).head? = some ';' then some (n + k + 1) else none
  match s with
  | '&' :: '#' :: c :: r =>
    if c = 'x' || c = 'X' then closed 3 1 6 r Lexeme.isHex
    else closed 2 1 5 (c :: r) Char.isDigit
  | '&' :: r => closed 1 1 30 r Char.isAlpha
  | _ => none

/-- A character reference. -/
def characterReference : Reader source Draft := lexeme .characterReference reference?

/-- Blanks as texts between elements know them. -/
def isTextBlank (c : Char) : Bool := c = ' ' || ('\t' ≤ c && c ≤ '\r')

/-- The length of a text between elements, and whether it is one; `atBreak` tells whether only
blanks have come since a line break, `seen` whether there was text. -/
def textRest (atBreak seen : Bool) : List Char → Nat × Bool
  | [] => (0, seen)
  | c :: s =>
    if "<>\x7b\x7d&".toList.contains c then (0, seen)
    else
      let atBreak := c = '\n' || (atBreak && isTextBlank c)
      let (n, seen) := textRest atBreak (seen || !atBreak) s
      (n + 1, seen)

/-- Text between elements. -/
def markupText : Reader source Draft := do
  let (n, seen) := textRest false false (← rest)
  require seen
  return .leaf .markupText (← take n)

/-- The length of the value of an attribute up to and with its closing quote; `n` bounds it. -/
def attributeTextRest? (q : Char) : Nat → List Char → Option Nat
  | 0, _ => none
  | _ + 1, [] => none
  | n + 1, '&' :: c :: s =>
    if c = '#' || c.isAlpha then
      match reference? ('&' :: c :: s) with
      | some k => (attributeTextRest? q n ((c :: s).drop (k - 1))).map (k + ·)
      | none => none
    else (attributeTextRest? q n s).map (2 + ·)
  | n + 1, c :: s =>
    if c = q then some 1 else (attributeTextRest? q n s).map (1 + ·)

/-- A quoted value of an attribute. -/
def attributeText? : List Char → Option Nat
  | c :: s =>
    if c = '"' || c = '\'' then (attributeTextRest? c (s.length + 1) s).map (1 + ·) else none
  | [] => none

/-! ### Attributes -/

/-- An expression among markup. -/
def markupExpression : Reader source Draft := build .markupExpression do
  let _ ← op "\x7b"
  let inner ← maybe
    (build .spreadElement (do let _ ← op "..."; return [← g.expression]) <|> g.expressions)
  let _ ← op "\x7d"
  return inner

/-- An attribute with its value. -/
def namedAttribute : Reader source Draft := build .attribute do
  let n ← namespaceName <|> lexeme .propertyIdentifier markupName?
  let value ← maybe (do
    let _ ← op "="
    lexeme .string attributeText? <|> g.markupExpression <|> g.read .element)
  return n :: value

/-- An attribute, or an expression with several. -/
def tagAttribute : Reader source Draft := g.namedAttribute <|> g.markupExpression

/-! ### Elements -/

/-- The name and attributes of an element. -/
def tagContent : Reader source (List Draft) := do
  let n ← elementName
  let ts ← if g.typed then maybe g.typeArguments else pure []
  let attributes ← many g.tagAttribute
  return n.as .name :: ts.map (·.as .typeArguments) ++ attributes

/-- The tag that closes an element. -/
def closingElement : Reader source Draft := build .closingElement do
  let _ ← token "</"
  let n ← maybe elementName
  let _ ← token ">"
  return n.map (·.as .name)

/-- A comment of the older form, which is passed over. -/
def olderComment : Reader source Unit := do
  skip
  match Lexeme.markupComment? (← rest) with
  | some n => modify (Position.advanceComment n)
  | none => failure

/-- The children of an element; `n` bounds them. -/
def markupChildren : Nat → Reader source (List Draft)
  | 0 => failure
  | n + 1 => do
    match ← optional markupText with
    | some t => return t :: (← markupChildren n)
    | none =>
      if ← accept olderComment then markupChildren n
      else if "</".toList.isPrefixOf (← ahead) then return []
      else
        let child ← g.markupExpression <|> characterReference <|> g.read .element
        return child :: (← markupChildren n)

/-- An element. -/
def element : Reader source Draft := do
  skip
  let p ← get
  let _ ← token "<"
  let content ← g.tagContent <|> pure []
  (do
    require (!content.isEmpty)
    let _ ← token "/>"
    return .node .selfClosingElement .none ⟨p.place, (← get).place, p.line⟩ content) <|>
  (do
    let _ ← token ">"
    let first := Draft.node .openingElement .openTag ⟨p.place, (← get).place, p.line⟩ content
    let children ← g.markupChildren (← limit)
    let last ← closingElement
    return .node .element .none ⟨p.place, (← get).place, p.line⟩ (first :: children ++ [last]))

end Trellis.Syntax.Grammar
