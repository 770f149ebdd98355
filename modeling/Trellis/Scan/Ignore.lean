import Trellis.Scan.Glob
import Trellis.Store.Basic
import Trellis.Text.Blank

/-! # Ignore rules

Rules that say which paths are left out, one a line.

* `IgnoreRule.read?` reads a line: blanks at its end and lines that start with `#` count for
  nothing, `!` takes paths back in, a slash at the end asks for a directory, and a slash before it
  ties the pattern to the directory of the rules.
* `IgnoreRules.verdict?` is what the last rule says whose pattern a path has. -/

namespace Trellis

/-- What rules say about a path. -/
inductive Verdict where
  /-- It is left out. -/
  | ignore
  /-- It is taken. -/
  | keep
  deriving DecidableEq, Repr

/-- The opposite. -/
def Verdict.opposite : Verdict → Verdict
  | ignore => keep
  | keep => ignore

/-- A rule. -/
structure IgnoreRule where
  /-- The paths it is about. -/
  glob : Glob
  /-- Whether it takes paths back in. -/
  negated : Bool
  /-- Whether it is about directories only. -/
  directoriesOnly : Bool
  deriving DecidableEq, Repr

namespace IgnoreRule

/-! ### Reading lines -/

/-- A line without blanks at its end, unless the last of them is escaped. -/
def trimLine (line : List Char) : List Char :=
  if [' ', '\\'].isPrefixOf line.reverse then line else Text.Blank.trimEnd line

/-- The sign at the start of a line: whether it is negated, whether it is tied to the directory of
the rules, and what follows. -/
def readStart (line : List Char) : Bool × Bool × List Char :=
  match line with
  | '\\' :: '!' :: _ | '\\' :: '#' :: _ => (false, false, line.drop 1)
  | '!' :: '/' :: rest => (true, true, rest)
  | '!' :: rest => (true, false, rest)
  | '/' :: rest => (false, true, rest)
  | _ => (false, false, line)

/-- The slash at the end of a pattern: whether there is one, and what comes before it. -/
def readEnd (pattern : List Char) : Bool × List Char :=
  match pattern.reverse with
  | '/' :: '\\' :: rest => (true, rest.reverse)
  | '/' :: rest => (true, rest.reverse)
  | _ => (false, pattern)

/-- A pattern made to stand for whole paths: one that is tied to no directory is tried in all of
them, and one for everything in a directory leaves out the directory itself. -/
def wholePath (tied : Bool) (pattern : List Char) : List Char :=
  let anywhere := !tied && !pattern.contains '/' && pattern ≠ ['*', '*']
  let pattern := if anywhere then ['*', '*', '/'] ++ pattern else pattern
  if ['*', '*', '/'].isPrefixOf pattern.reverse then pattern ++ ['/', '*'] else pattern

/-- Reads a line; `lenient` tells whether a bracket that is not closed stands for itself. A line
that is no rule gives nothing, and so does one whose pattern cannot be read. -/
def read? (lenient : Bool) (line : List Char) : Option IgnoreRule :=
  if line.head? = some '#' then none
  else
    let line := trimLine line
    if line.isEmpty then none
    else
      let (negated, tied, pattern) := readStart line
      let (directoriesOnly, pattern) := readEnd pattern
      (Glob.parse? lenient (String.ofList (wholePath tied pattern))).map fun glob =>
        ⟨glob, negated, directoriesOnly⟩

/-- Whether a rule is about a path. -/
def covers (r : IgnoreRule) (path : String) (isDirectory : Bool) : Bool :=
  r.glob.matches path && (isDirectory || !r.directoriesOnly)

/-- What a rule says about the paths it is about. -/
def verdict (r : IgnoreRule) : Verdict := if r.negated then .keep else .ignore

end IgnoreRule

/-- The rules of one directory. -/
structure IgnoreRules where
  /-- The directory, as paths show it. -/
  base : List Char
  /-- The rules in order. -/
  rules : List IgnoreRule
  deriving DecidableEq, Repr

namespace IgnoreRules

/-! ### Verdicts -/

/-- A path without `./` at its start. -/
def withoutDot (path : List Char) : List Char :=
  (Text.Search.dropStart? ['.', '/'] path).getD path

/-- A path as seen from a directory: the directory's text and then one slash are taken off. A path
that is a mere name, and any path as seen from `.`, stays as it is. -/
def seenFrom (base path : List Char) : List Char :=
  let path := withoutDot path
  if (Path.mk (String.ofList base)).same ⟨"."⟩ || !path.contains '/' then path
  else
    match Text.Search.dropStart? base path with
    | some rest => (Text.Search.dropStart? ['/'] rest).getD rest
    | none => path

/-- No rules. -/
def none : IgnoreRules := ⟨[], []⟩

/-- What the last rule says that is about a path. -/
def verdict? (r : IgnoreRules) (path : List Char) (isDirectory : Bool) : Option Verdict :=
  if r.rules.isEmpty then Option.none
  else
    let shown := String.ofList (seenFrom r.base path)
    (r.rules.reverse.find? (·.covers shown isDirectory)).map (·.verdict)

/-! ### Files of rules -/

/-- Lines without the characters that end them. -/
def withoutReturns : List (List Char) → List (List Char)
  | [] => []
  | [last] => [last]
  | line :: rest =>
    (if line.getLast? = some '\r' then line.dropLast else line) :: withoutReturns rest

/-- The lines that can be read: all of a text, and of bytes those before the first one that is no
text. -/
def readableLines : Content → List (List Char)
  | .text s => Text.Search.splitWhere (· = '\n') s.toList
  | .binary bytes =>
    ((splitBytes bytes).map fun line => String.fromUTF8? ⟨line.toArray⟩).takeWhile Option.isSome
      |>.filterMap fun line => line.map String.toList
where
  /-- The pieces between line feeds. -/
  splitBytes : List UInt8 → List (List UInt8)
    | [] => [[]]
    | b :: rest =>
      match splitBytes rest with
      | [] => [[b]]
      | piece :: more => if b = 10 then [] :: piece :: more else (b :: piece) :: more

/-- Lines without byte order marks at the start of the first one. -/
def withoutMarks : List (List Char) → List (List Char)
  | first :: rest => first.dropWhile (· = '\uFEFF') :: rest
  | [] => []

/-- The rules that a file holds for a directory. -/
def ofContent (base : List Char) (c : Content) : IgnoreRules :=
  ⟨withoutDot base,
    (withoutMarks (withoutReturns (readableLines c))).filterMap (IgnoreRule.read? true)⟩

end IgnoreRules

end Trellis
