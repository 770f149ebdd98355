import Trellis.Text.Search

/-! # Paths

A path is a text in which `/` separates components. Two readings are used side by side.

* The *text* is what is shown and what is handed to the file store; joining keeps texts as they
  are.
* The *components* are what a path means: empty pieces count for nothing, and `.` only at the
  start of a relative path; `..` is kept. `Path.same`, `Path.le`, `Path.stripPrefix?` and
  `Path.endsWith` go by components.

`Path.parent?` cuts the last component off and trims what then stands at the end without meaning;
`Path.stem` and `Path.extension?` split a file name at its last dot, unless that starts it. -/

namespace Trellis

/-- A path, as it is written. -/
structure Path where
  /-- The path's text. -/
  text : String
  deriving DecidableEq, Repr, Inhabited

namespace Path

/-- One step of a path. -/
inductive Component where
  /-- The root of the file store. -/
  | root
  /-- The directory itself, at the start of a relative path. -/
  | current
  /-- One directory up. -/
  | parent
  /-- A name. -/
  | normal (name : String)
  deriving DecidableEq, Repr

/-! ### Components -/

/-- The component of a piece between separators, if it means anything. -/
def componentOf? (piece : List Char) : Option Component :=
  if piece = [] || piece = ['.'] then none
  else if piece = ['.', '.'] then some .parent
  else some (.normal (String.ofList piece))

/-- The pieces of a text between separators. -/
def pieces (s : List Char) : List (List Char) := Text.Search.splitWhere (· = '/') s

/-- The first component, when it stands apart from the pieces: the root, or `.` at the start. -/
def leading (s : List Char) : List Component :=
  match s with
  | '/' :: _ => [.root]
  | ['.'] => [.current]
  | '.' :: '/' :: _ => [.current]
  | _ => []

/-- The components of a path's text. -/
def componentsOf (s : List Char) : List Component :=
  leading s ++ (pieces s).filterMap componentOf?

/-- The components of a path. -/
def components (p : Path) : List Component := componentsOf p.text.toList

/-- Whether two paths have the same components. -/
def same (p q : Path) : Bool := p.components = q.components

/-- Whether a path starts at the root. -/
def isAbsolute (p : Path) : Bool := p.text.toList.head? = some '/'

/-! ### Order -/

/-- The rank of a component's kind. -/
def Component.rank : Component → Nat
  | root => 0
  | current => 1
  | parent => 2
  | normal _ => 3

/-- The order of components: by kind, names alphabetically. -/
def Component.before (a b : Component) : Bool :=
  match a, b with
  | normal x, normal y => x < y
  | a, b => a.rank < b.rank

/-- The order of component lists, from the first component on. -/
def listLe : List Component → List Component → Bool
  | [], _ => true
  | _ :: _, [] => false
  | a :: as, b :: bs => a.before b || (a = b && listLe as bs)

/-- The order of paths. -/
def le (p q : Path) : Bool := listLe p.components q.components

/-! ### Cutting -/

/-- Takes what means nothing off the end of a reversed text: separators, but for the root, and
`.` after a separator. -/
def trimEndRev : List Char → List Char
  | '/' :: c :: rest => trimEndRev (c :: rest)
  | '.' :: '/' :: rest => trimEndRev ('/' :: rest)
  | rev => rev

/-- The text without what means nothing at its end. -/
def trimEnd (s : List Char) : List Char := (trimEndRev s.reverse).reverse

/-- The text of the directory of a path; the root and the empty path have none. -/
def parentOf? (s : List Char) : Option (List Char) :=
  let rev := trimEndRev s.reverse
  if rev = [] || rev = ['/'] then none
  else some (trimEndRev (rev.dropWhile (· ≠ '/'))).reverse

/-- The directory of a path. -/
def parent? (p : Path) : Option Path := (parentOf? p.text.toList).map fun s => ⟨String.ofList s⟩

/-- The directory of a path, or the empty path. -/
def parent (p : Path) : Path := p.parent?.getD ⟨""⟩

/-- The name at the end of a path. -/
def fileName? (p : Path) : Option String :=
  match p.components.getLast? with
  | some (.normal name) => some name
  | _ => none

/-- A reversed file name split at its last dot, if there is something before the dot. -/
def splitName? (name : String) : Option (List Char × List Char) :=
  let rev := name.toList.reverse
  match rev.dropWhile (· ≠ '.') with
  | '.' :: before =>
    if before.isEmpty then none
    else some (before.reverse, (rev.takeWhile (· ≠ '.')).reverse)
  | _ => none

/-- The file name up to its last dot. -/
def stem? (p : Path) : Option String :=
  p.fileName?.map fun name =>
    match splitName? name with
    | some (before, _) => String.ofList before
    | none => name

/-- The file name up to its last dot, or nothing. -/
def stem (p : Path) : String := p.stem?.getD ""

/-- What follows the last dot of the file name. -/
def extension? (p : Path) : Option String :=
  p.fileName?.bind fun name => (splitName? name).map fun s => String.ofList s.2

/-! ### Joining and taking apart -/

/-- A path as seen from a directory: an absolute path is itself. -/
def join (dir p : Path) : Path :=
  if p.isAbsolute then p
  else
    match dir.text.toList.getLast? with
    | none => p
    | some '/' => ⟨dir.text ++ p.text⟩
    | some _ => ⟨dir.text ++ "/" ++ p.text⟩

/-- Takes what means nothing off the start of a text that begins between two components. -/
def trimStart : List Char → List Char
  | '/' :: rest => trimStart rest
  | '.' :: '/' :: rest => trimStart rest
  | ['.'] => []
  | s => s

/-- The text after `n` components that are no leading ones. -/
def dropPieces : Nat → List Char → List Char
  | 0, s => trimStart s
  | n + 1, s => dropPieces n ((trimStart s).dropWhile (· ≠ '/'))

/-- The text after `n` components. -/
def dropComponents (n : Nat) (s : List Char) : List Char :=
  if n = 0 then trimEnd s
  else
    match leading s with
    | [] => trimEnd (dropPieces n s)
    | _ => trimEnd (dropPieces (n - 1) (s.drop 1))

/-- What follows the components of `base` in a path that starts with them. -/
def stripPrefix? (p base : Path) : Option Path :=
  let bs := base.components
  if bs.isPrefixOf p.components then some ⟨String.ofList (dropComponents bs.length p.text.toList)⟩
  else none

/-- The path as seen from `base`, when it lies below. -/
def relativeTo (p base : Path) : Path := (p.stripPrefix? base).getD p

/-- Whether a path ends with the components of another. -/
def endsWith (p q : Path) : Bool := q.components.isSuffixOf p.components

/-! ### Laws -/

theorem same_iff (p q : Path) : p.same q = true ↔ p.components = q.components := by simp [same]

end Path

end Trellis
