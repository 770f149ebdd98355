import Trellis.Scan.Candidate
import Trellis.Scan.Patterns
import Trellis.Store.Access

/-! # The walk

All candidates below a root, in the order of paths.

* `Level` holds the ignore rules that stand in one directory. Those of inner directories win over
  those of outer ones, and rules for this program over general ones, general ones over those of
  version control, which count only within a repository.
* `Store.candidates` is the walk itself. Directories that are left out are not entered; links are
  followed only on demand, and never to a directory on the way. -/

namespace Trellis

/-- The ignore rules that stand in a directory. -/
structure Level where
  /-- Whether the directory is the top of a repository. -/
  isRepository : Bool
  /-- The rules for this program. -/
  custom : IgnoreRules
  /-- The rules for all programs. -/
  plain : IgnoreRules
  /-- The rules of version control. -/
  shared : IgnoreRules
  /-- The rules of version control that are not shared. -/
  exclude : IgnoreRules
  deriving DecidableEq, Repr

namespace Level

/-! ### Reading the rules of a directory -/

/-- The rules in a file for a directory, none if it cannot be read. -/
def rulesAt (s : Store) (dir file : Path) : IgnoreRules :=
  match s.read file with
  | .ok c => IgnoreRules.ofContent dir.text.toList c
  | .error _ => .none

/-- The first line of a file. -/
def firstLine? (s : Store) (p : Path) : Option (List Char) :=
  (s.read p).toOption.bind fun c =>
    (IgnoreRules.withoutReturns (IgnoreRules.readableLines c)).head?

/-- The directory that keeps a repository whose top is `dir`. A file in its place names another
directory, in which a file may name the directory shared by several trees. -/
def repository? (s : Store) (dir : Path) : Option Path :=
  let git := dir.join ⟨".git"⟩
  if s.isFile git then
    ((firstLine? s git).bind (Text.Search.dropStart? "gitdir: ".toList)).bind fun line =>
      let tree : Path := ⟨String.ofList line⟩
      (firstLine? s (tree.join ⟨"commondir"⟩)).map fun common =>
        if common.head? = some '.' then tree.join ⟨String.ofList common⟩ else ⟨String.ofList common⟩
  else some git

/-- Whether a directory is the top of a repository. -/
def hasRepository (s : Store) (dir : Path) : Bool := (s.entry? (dir.join ⟨".git"⟩)).isSome

/-- The ignore rules that stand in a directory. -/
def ofDirectory (s : Store) (dir : Path) : Level :=
  { isRepository := hasRepository s dir
    custom := rulesAt s dir (dir.join ⟨".scaffoldignore"⟩)
    plain := rulesAt s dir (dir.join ⟨".ignore"⟩)
    shared := rulesAt s dir (dir.join ⟨".gitignore"⟩)
    exclude :=
      match repository? s dir with
      | some git => rulesAt s dir (git.join ⟨"info/exclude"⟩)
      | none => .none }

end Level

/-! ### Verdicts -/

/-- Levels from the innermost on, each with a path as it is shown to the rules there. -/
abbrev ShownLevels := List (Level × List Char)

namespace ShownLevels

/-- The first verdict of one kind of rules. -/
def first? (levels : ShownLevels) (rules : Level → IgnoreRules) (isDirectory : Bool) :
    Option Verdict :=
  levels.findSome? fun l => (rules l.1).verdict? l.2 isDirectory

/-- The levels up to the top of the innermost repository, none outside of repositories. -/
def withinRepository (levels : ShownLevels) : ShownLevels :=
  if levels.any (·.1.isRepository) then upTo levels else []
where
  /-- The levels up to the first top of a repository. -/
  upTo : ShownLevels → ShownLevels
    | [] => []
    | l :: rest => if l.1.isRepository then [l] else l :: upTo rest

/-- What the ignore rules say. -/
def verdict? (levels : ShownLevels) (isDirectory : Bool) : Option Verdict :=
  let versioned := withinRepository levels
  (first? levels Level.custom isDirectory).orElse fun _ =>
    (first? levels Level.plain isDirectory).orElse fun _ =>
      (first? versioned Level.shared isDirectory).orElse fun _ =>
        first? versioned Level.exclude isDirectory

end ShownLevels

/-- What a walk goes by. -/
structure Walk where
  /-- Where the walk starts. -/
  root : Path
  /-- The root's place in the store, as a path. -/
  top : Path
  /-- The levels above the root, the innermost first. -/
  above : List Level
  /-- The configured patterns. -/
  patterns : Patterns
  /-- The greatest size of a file in bytes. -/
  maxFileSize : Nat
  /-- Whether links are followed. -/
  followsLinks : Bool
  deriving DecidableEq, Repr

namespace Walk

/-- A path below the root as it is shown to the rules above the root. -/
def shownAbove (w : Walk) (path : List Char) : List Char :=
  let path := IgnoreRules.withoutDot path
  let rest :=
    if w.root.same ⟨"."⟩ then path
    else
      let rest := (Text.Search.dropStart? (IgnoreRules.withoutDot w.root.text.toList) path).getD path
      (Text.Search.dropStart? ['/'] rest).getD rest
  (w.top.join ⟨String.ofList rest⟩).text.toList

/-- Whether a path is left out; `levels` are those from its directory up to the root. -/
def ignores (w : Walk) (levels : List Level) (p : Path) (isDirectory : Bool) : Bool :=
  let path := IgnoreRules.withoutDot p.text.toList
  let above := w.shownAbove path
  let shown : ShownLevels := levels.map (·, path) ++ w.above.map (·, above)
  ((w.patterns.verdict? path isDirectory).orElse fun _ => shown.verdict? isDirectory) = some .ignore

/-- A directory on the way, with its place. -/
abbrev Way := List (Place × Level)

/-- What stands under a name in a directory, for the purposes of the walk: a link counts as what it
leads to when links are followed, unless that is a directory on the way. -/
def entryAt? (w : Walk) (s : Store) (way : Way) (p : Path) : Option (Place × Entry) :=
  match s.locate false p with
  | .ok (.at _ (.link _)) =>
    if w.followsLinks then
      match s.locate true p with
      | .ok (.at place .directory) =>
        if way.any (·.1 = place) then none else some (place, .directory)
      | .ok (.at place e) => some (place, e)
      | _ => none
    else none
  | .ok (.at place e) => some (place, e)
  | _ => none

/-- The files below a directory that are not left out; `way` starts with the directory, `n` bounds
how far down it goes. -/
def filesBelow (w : Walk) (s : Store) : (n : Nat) → Way → Path → List Path
  | 0, _, _ => []
  | n + 1, way, dir =>
    (s.children ((way.head?.map (·.1)).getD [])).flatMap fun name =>
      let p := dir.join ⟨name⟩
      match w.entryAt? s way p with
      | some (place, .directory) =>
        if w.ignores (way.map (·.2)) p true then []
        else filesBelow w s n ((place, Level.ofDirectory s p) :: way) p
      | some (_, .file c) =>
        if w.ignores (way.map (·.2)) p false || w.maxFileSize < c.size then [] else [p]
      | _ => []

end Walk

namespace Store

/-- The directories above a place, the innermost first. -/
def placesAbove (place : Place) : List Place := (inits place).dropLast.reverse
where
  /-- All beginnings of a place. -/
  inits : Place → List Place
    | [] => [[]]
    | name :: rest => [] :: (inits rest).map (name :: ·)

/-- The files that a walk meets. The path `-` names no directory. -/
def walkFiles (s : Store) (c : Config.Scan) (root : Path) : List Path :=
  if root.same ⟨"-"⟩ then []
  else
    match s.locate true root with
    | .ok (.at place .directory) =>
      let w : Walk :=
        { root := root
          top := pathOf place
          above := (placesAbove place).map fun p => Level.ofDirectory s (pathOf p)
          patterns := .ofConfig c root
          maxFileSize := c.effectiveMaxFileSize
          followsLinks := c.effectiveFollowSymlinks }
      w.filesBelow s ((s.entries.length + 2) * (s.entries.length + 2)) [(place, Level.ofDirectory s root)] root
    | .ok (.at _ (.file _)) => [root]
    | _ => []

/-- All candidates of the project at a root, in the order of paths. -/
def candidates (s : Store) (c : Config.Scan) (root : Path) : List Path :=
  ((s.walkFiles c root).filter fun p => (CandidateFilter.ofConfig c).accepts p root).mergeSort Path.le

end Store

end Trellis
