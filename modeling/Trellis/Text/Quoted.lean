/-! # Quoted texts

Single-quoted string literals of a generated test module.

* `Quoted.encode` writes the content of such a literal: a backslash, a quote, a line feed, a
  carriage return and a tab are escaped, everything else stands for itself.
* `literal` puts the quotes around it.
* `stripQuotes` is the coarse inverse used on literals of analyzed sources: it takes one pair of
  equal quotes off and decodes nothing. -/

namespace Trellis.Text

namespace Quoted

/-- How one character stands in a single-quoted literal. -/
def encodeChar (c : Char) : List Char :=
  if c = '\\' then ['\\', '\\']
  else if c = '\'' then ['\\', '\'']
  else if c = '\n' then ['\\', 'n']
  else if c = '\r' then ['\\', 'r']
  else if c = '\t' then ['\\', 't']
  else [c]

/-- The content of the literal that denotes a text. -/
def encode (s : List Char) : List Char := s.flatMap encodeChar

@[simp] theorem encode_nil : encode [] = [] := rfl

@[simp] theorem encode_cons (c : Char) (s : List Char) :
    encode (c :: s) = encodeChar c ++ encode s := by simp [encode]

end Quoted

/-- The single-quoted literal that denotes a string. -/
def literal (s : String) : String :=
  String.ofList ('\'' :: Quoted.encode s.toList ++ ['\''])

/-- The characters that open and close a string literal. -/
def isQuote (c : Char) : Bool := c = '\'' || c = '"' || c = '\x60'

/-- The text without one pair of equal quotes around it, if it has one. -/
def stripQuotes (s : String) : String :=
  match s.toList with
  | first :: rest =>
    match rest.getLast? with
    | some last =>
      if first = last && isQuote first then String.ofList rest.dropLast else s
    | none => s
  | [] => s

end Trellis.Text
