/-! # Blank characters

What counts as blank in a text: the characters of the Unicode property `White_Space`.

* `isBlank` is the table.
* `trim` cuts blanks at both ends, `words` splits at runs of blanks, and `collapse` joins the
  words by one space, the form in which visible texts and type texts are compared.

The definitions work on lists of characters; the functions in namespace `Text` apply them to
strings. -/

namespace Trellis.Text

/-- The characters with the Unicode property `White_Space`. -/
def isBlank (c : Char) : Bool :=
  let n := c.toNat
  (9 ≤ n && n ≤ 13) || n == 0x20 || n == 0x85 || n == 0xA0 || n == 0x1680 ||
  (0x2000 ≤ n && n ≤ 0x200A) || n == 0x2028 || n == 0x2029 || n == 0x202F || n == 0x205F ||
  n == 0x3000

namespace Blank

/-- The text after its leading blanks. -/
def trimStart (s : List Char) : List Char := s.dropWhile isBlank

/-- The text before its trailing blanks. -/
def trimEnd (s : List Char) : List Char := (s.reverse.dropWhile isBlank).reverse

/-- The text without leading and trailing blanks. -/
def trim (s : List Char) : List Char := trimEnd (trimStart s)

/-- Splits at blanks; `word` holds the characters of the word being read. -/
def wordsFrom (word : List Char) : List Char → List (List Char)
  | [] => if word.isEmpty then [] else [word]
  | c :: rest =>
    if isBlank c then
      if word.isEmpty then wordsFrom [] rest else word :: wordsFrom [] rest
    else wordsFrom (word ++ [c]) rest

/-- The maximal runs of characters that are not blank, in order. -/
def words (s : List Char) : List (List Char) := wordsFrom [] s

@[simp] theorem wordsFrom_nil_nil : wordsFrom [] [] = [] := rfl

@[simp] theorem words_nil : words [] = [] := rfl

/-- Whether a text has no character but blanks. -/
def isEmpty (s : List Char) : Bool := s.all isBlank

end Blank

/-- The string without leading and trailing blanks. -/
def trim (s : String) : String := String.ofList (Blank.trim s.toList)

/-- The string after its leading blanks. -/
def trimStart (s : String) : String := String.ofList (Blank.trimStart s.toList)

/-- Whether a string has no character but blanks. -/
def isBlankText (s : String) : Bool := Blank.isEmpty s.toList

/-- The words of a string, joined by single spaces. -/
def collapse (s : String) : String :=
  String.intercalate " " ((Blank.words s.toList).map String.ofList)

end Trellis.Text
