import Trellis.Proofs.Text.Blanks
import Trellis.TypeText.Shape

/-! # Types as they are written

The types that a declaration may spell, and the texts that spell them.

* `TypeExpr` is a type as the grammar of the typed dialects has it: a function type reaches as far
  to the right as possible, so between the bars of a union stand operands without a bare arrow.
* `TypeExpr.tokens` prints a type token by token; a text `Spells` tokens when they follow each other
  with blanks between them as one likes.
* `TypeExpr.Admits` says that a named type is an alternative of a type, in parentheses or not.
* `TypeExpr.atBars` are the operands between the bars that stand outside of brackets, wherever in
  the type they are. -/

namespace Trellis.TypeText

open Text.Blank

/-! ### Tokens -/

/-- Whether a text is the content of a literal between two quotes `q`: each quote and each backslash
in it is escaped. -/
def isContent (q : Char) : List Char → Bool
  | [] => true
  | '\\' :: _ :: s => isContent q s
  | c :: s => c ≠ q && c ≠ '\\' && isContent q s

/-- A string literal. -/
structure Literal where
  /-- The quote around it. -/
  quote : Char
  /-- What stands between the quotes. -/
  content : List Char
  /-- The quote is a single or a double one. -/
  isQuote : quote = '\'' ∨ quote = '"'
  /-- Only the last quote closes it. -/
  isContent : isContent quote content = true

/-- The text of a literal. -/
def Literal.chars (l : Literal) : List Char := l.quote :: (l.content ++ [l.quote])

/-- A literal in single quotes. -/
def Literal.single (content : String) (h : TypeText.isContent '\'' content.toList = true) :
    Literal := ⟨'\'', content.toList, .inl rfl, h⟩

/-- A literal in double quotes. -/
def Literal.double (content : String) (h : TypeText.isContent '"' content.toList = true) :
    Literal := ⟨'"', content.toList, .inr rfl, h⟩

/-- Whether the last character before the closing quote is no backslash. -/
def Literal.Closes (l : Literal) : Prop := l.content.getLast? ≠ some '\\'

instance (l : Literal) : Decidable l.Closes :=
  inferInstanceAs (Decidable (l.content.getLast? ≠ some '\\'))

/-- Whether the parentheses of a text close each other, when as many as `depth` were opened before
it. -/
def closesParens (depth : Nat) : List Char → Bool
  | [] => depth = 0
  | c :: s =>
    if c = '(' then closesParens (depth + 1) s
    else if c = ')' then depth ≠ 0 && closesParens (depth - 1) s
    else closesParens depth s

/-- Whether the parentheses in a literal close each other. -/
def Literal.Balanced (l : Literal) : Prop := closesParens 0 l.content = true

instance (l : Literal) : Decidable l.Balanced :=
  inferInstanceAs (Decidable (closesParens 0 l.content = true))

/-- The characters that mean something between the words of a type. -/
def marks : List Char :=
  ['(', ')', '[', ']', '\x7b', '\x7d', '<', '>', '|', '=', ',', ';', ':', '?', '\'', '"', '\x60']

/-- Whether a character may stand in a word. -/
def isWordChar (c : Char) : Bool := !Text.isBlank c && !marks.contains c

/-- A name, dotted or not, or a number. -/
structure Word where
  /-- Its characters. -/
  chars : List Char
  /-- It has at least one character. -/
  nonempty : chars ≠ []
  /-- No character means anything else. -/
  isPlain : chars.all isWordChar = true

/-- The kinds of brackets. -/
inductive Bracket where
  /-- Parentheses. -/
  | round
  /-- Brackets. -/
  | square
  /-- Braces. -/
  | curly
  /-- Angle brackets. -/
  | angle
  deriving DecidableEq

/-- How a bracket opens. -/
def Bracket.opening : Bracket → Char
  | round => '('
  | square => '['
  | curly => '\x7b'
  | angle => '<'

/-- How a bracket closes. -/
def Bracket.closing : Bracket → Char
  | round => ')'
  | square => ']'
  | curly => '\x7d'
  | angle => '>'

/-- What stands between words and brackets. -/
inductive Mark where
  /-- Sets arguments and parameters apart. -/
  | comma
  /-- Sets members apart. -/
  | semicolon
  /-- Comes before a type. -/
  | colon
  /-- Makes a member or parameter optional. -/
  | question
  deriving DecidableEq

/-- The character of a mark. -/
def Mark.char : Mark → Char
  | comma => ','
  | semicolon => ';'
  | colon => ':'
  | question => '?'

/-- A piece of a type's text. -/
inductive Token where
  /-- A name or a number. -/
  | word (w : Word)
  /-- A string literal. -/
  | literal (l : Literal)
  /-- The beginning of brackets. -/
  | opening (k : Bracket)
  /-- The end of brackets. -/
  | closing (k : Bracket)
  /-- What stands between words and brackets. -/
  | mark (m : Mark)
  /-- The bar between the members of a union. -/
  | bar
  /-- The arrow of a function type. -/
  | arrow

/-- The text of a token, its literal written as `f` has it. -/
def Token.chars (f : Literal → Literal) : Token → List Char
  | word w => w.chars
  | literal l => (f l).chars
  | opening k => [k.opening]
  | closing k => [k.closing]
  | mark m => [m.char]
  | bar => ['|']
  | arrow => ['=', '>']

/-- A text that spells tokens, with blanks between them, its literals written as `f` has them. -/
inductive Spells (f : Literal → Literal) : List Token → List Char → Prop
  | nil {gap : List Char} (hgap : IsGap gap) : Spells f [] gap
  | cons {gap s : List Char} {t : Token} {ts : List Token}
      (hgap : IsGap gap) (h : Spells f ts s) :
      Spells f (t :: ts) (gap ++ (t.chars f ++ s))

/-! ### Types -/

/-- What stands before the colon of a member or parameter. -/
inductive Label where
  /-- A name, or `...` and a name. -/
  | name (spread : Bool) (w : Word) (optional : Bool)
  /-- A quoted name. -/
  | quoted (l : Literal) (optional : Bool)
  /-- A name for all keys of a type. -/
  | index (w key : Word)

mutual

/-- A type. -/
inductive TypeExpr where
  /-- A function type. -/
  | function (params : List Entry) (result : TypeExpr)
  /-- A union, perhaps of one operand only. -/
  | union (first : Operand) (rest : List Operand)

/-- What may stand between bars. -/
inductive Operand where
  /-- A named type or a numeric literal. -/
  | word (w : Word)
  /-- A string literal. -/
  | literal (l : Literal)
  /-- A list type. -/
  | array (element : Operand)
  /-- A named type with arguments. -/
  | generic (name : Word) (first : TypeExpr) (rest : List TypeExpr)
  /-- An object type, its members set apart by a mark that may stand behind the last one, too. -/
  | object (separator : Mark) (trailing : Bool) (entries : List Entry)
  /-- A type in parentheses. -/
  | paren (type : TypeExpr)

/-- A member of an object type, or a parameter. -/
inductive Entry where
  /-- With a type of its own. -/
  | typed (label : Label) (type : TypeExpr)
  /-- A method. -/
  | method (name : Word) (params : List Entry) (result : TypeExpr)

end

/-- Three dots. -/
def Word.dots : Word := ⟨['.', '.', '.'], by decide, by decide⟩

/-- A mark that may stand or not. -/
def Mark.tokens (m : Mark) (stands : Bool) : List Token := if stands then [.mark m] else []

/-- The tokens of a label. -/
def Label.tokens : Label → List Token
  | name spread w optional =>
    (if spread then [.word .dots] else []) ++ .word w :: Mark.question.tokens optional
  | quoted l optional => .literal l :: Mark.question.tokens optional
  | index w key => [.opening .square, .word w, .mark .colon, .word key, .closing .square]

mutual

/-- The tokens of a type. -/
def TypeExpr.tokens : TypeExpr → List Token
  | .function params result =>
    .opening .round :: (entryTokens .comma params ++ .closing .round :: .arrow :: result.tokens)
  | .union first rest => first.tokens ++ barTokens rest

/-- The tokens of an operand. -/
def Operand.tokens : Operand → List Token
  | .word w => [.word w]
  | .literal l => [.literal l]
  | .array element => element.tokens ++ [.opening .square, .closing .square]
  | .generic name first rest =>
    .word name :: .opening .angle :: (first.tokens ++ argumentTokens rest ++ [.closing .angle])
  | .object separator trailing entries =>
    .opening .curly ::
      (entryTokens separator entries ++ separator.tokens trailing ++ [.closing .curly])
  | .paren type => .opening .round :: (type.tokens ++ [.closing .round])

/-- The tokens of a member or parameter. -/
def Entry.tokens : Entry → List Token
  | .typed label type => label.tokens ++ .mark .colon :: type.tokens
  | .method name params result =>
    .word name :: .opening .round ::
      (entryTokens .comma params ++ .closing .round :: .mark .colon :: result.tokens)

/-- The tokens of operands, each behind a bar. -/
def barTokens : List Operand → List Token
  | [] => []
  | m :: ms => .bar :: (m.tokens ++ barTokens ms)

/-- The tokens of types, each behind a comma. -/
def argumentTokens : List TypeExpr → List Token
  | [] => []
  | t :: ts => .mark .comma :: (t.tokens ++ argumentTokens ts)

/-- The tokens of members or parameters with a mark between them. -/
def entryTokens (sep : Mark) : List Entry → List Token
  | [] => []
  | [e] => e.tokens
  | e :: es => e.tokens ++ .mark sep :: entryTokens sep es

end

/-- An operand without the parentheses around it, as long as they hold one operand only. -/
def Operand.peel : Operand → Operand
  | .paren (.union o []) => o.peel
  | o => o

/-- Whether an operand is the named type `x`, perhaps in parentheses. -/
def Operand.Is (x : String) (o : Operand) : Prop := ∃ w, o.peel = .word w ∧ w.chars = x.toList

/-- The operands behind the bars that stand outside of brackets: those of a union, and those of what
a function returns. -/
def TypeExpr.later : TypeExpr → List Operand
  | .function _ result => result.later
  | .union _ rest => rest

/-- The operands between the bars that stand outside of brackets. What comes before the first bar is
one of them when it is no function type. -/
def TypeExpr.atBars : TypeExpr → List Operand
  | .function _ result => result.later
  | .union first rest => first :: rest

/-- The tokens before the first bar outside of brackets. -/
def TypeExpr.headTokens : TypeExpr → List Token
  | .function params result =>
    .opening .round :: (entryTokens .comma params ++ .closing .round :: .arrow :: result.headTokens)
  | .union first _ => first.tokens

/-- An alternative of a type is the named type `x`. Parentheses group alternatives only, and what a
function returns is no alternative of its type. -/
inductive TypeExpr.Admits (x : String) : TypeExpr → Prop
  | word {w : Word} {first : Operand} {rest : List Operand} (hm : .word w ∈ first :: rest)
      (hw : w.chars = x.toList) : Admits x (.union first rest)
  | paren {t : TypeExpr} {first : Operand} {rest : List Operand} (hm : .paren t ∈ first :: rest)
      (ht : t.Admits x) : Admits x (.union first rest)

/-! ### Sources -/

/-- A text of a type, its literals written as `f` has them, perhaps with a bar in front. -/
def TypeExpr.WrittenAs (f : Literal → Literal) (t : TypeExpr) (text : String) : Prop :=
  Spells f t.tokens text.toList ∨ Spells f (.bar :: t.tokens) text.toList

end Trellis.TypeText
