import Trellis.Source.File
import Trellis.Store.Access

/-! # Sources in a store

How sources come out of a file store.

* `Source.load` reads a module of any dialect, `Source.loadComponent` one that may hold markup by
  its extension. `Source.open?` is the text that is read on the way, whether or not it is of its
  dialect.
* `Store.resolve?` finds the file behind a specifier: the file itself, then the file with one of some
  extensions, then an index file in the directory. `Store.modules` are the modules found so. -/

namespace Trellis

namespace Source

/-- The text at a path and its dialect. -/
def textAt (s : Store) (p : Path) (d : Dialect) : Except LoadFault (Dialect × String) :=
  if s.isFile p then
    match s.readText p with
    | .ok t => .ok (d, t)
    | .error e => .error (.unreadable p e)
  else .error (.notFound p)

/-- Reads a module. -/
def load (s : Store) (p : Path) : Except LoadFault Source := do
  let (d, t) ← textAt s p (← dialectOf p)
  parse p d t

/-- The dialect of a source that may hold components. -/
def componentDialectOf (p : Path) : Except LoadFault Dialect := do
  let d ← dialectOf p
  if d.admitsMarkup then return d
  else throw (.unsupportedExtension p (p.extension?.getD "none"))

/-- Reads a source that may hold components. -/
def loadComponent (s : Store) (p : Path) : Except LoadFault Source := do
  let (d, t) ← textAt s p (← componentDialectOf p)
  parse p d t

/-- The text that is read for a module, with its dialect. -/
def opened? (s : Store) (p : Path) : Option (Dialect × String) :=
  ((dialectOf p).bind (textAt s p)).toOption

/-- The text that is read for a source that may hold components, with its dialect. -/
def openedComponent? (s : Store) (p : Path) : Option (Dialect × String) :=
  ((componentDialectOf p).bind (textAt s p)).toOption

end Source

/-! ### Specifiers -/

namespace Store

/-- The endings that a specifier may leave out, in the order in which they are tried. -/
def moduleEndings : List String := [".ts", ".tsx", ".d.ts", ".js", ".jsx"]

/-- The names of the files that stand for a directory, in the order in which they are tried. -/
def indexFiles : List String := ["index.ts", "index.tsx", "index.js", "index.jsx"]

/-- The paths that a path without its ending may stand for, in the order in which they are tried. -/
def moduleCandidates (base : Path) : List Path :=
  (if (Dialect.ofPath? base).isSome then [base] else []) ++
    moduleEndings.map (fun e => ⟨base.text ++ e⟩) ++ indexFiles.map (fun f => base.join ⟨f⟩)

/-- The file behind a specifier in the source at a path. -/
def resolve? (s : Store) (source : Path) (specifier : String) : Option Path :=
  if Text.startsWith specifier "." then
    (moduleCandidates (source.parent.join ⟨specifier⟩)).find? s.isFile
  else none

/-- The module behind a specifier in the source at a path. -/
def lookup (s : Store) (source : Path) (specifier : String) : Lookup :=
  match s.resolve? source specifier with
  | none => .missing
  | some p =>
    match Source.load s p with
    | .ok m => .found m
    | .error _ =>
      match Source.opened? s p with
      | some (d, t) => .refused d t
      | none => .missing

/-- The number of texts with less than `pathLimit` bytes, at most. It is there to be compared with, not
to be counted to. -/
@[irreducible] def pathCount : Nat := Nat.pow 256 pathLimit

/-- The modules of a store. Imports that lead from one name to another before a place comes back all
lead to different names in different paths: a path that can be followed has less than `pathLimit`
bytes, and a name that is imported is a part of the text of a file. -/
def modules (s : Store) : Modules :=
  ⟨pathCount * Nat.pow (s.totalSize + s.entries.length) 2 + 1, s.lookup⟩

end Store

end Trellis
