import Trellis.Fault
import Trellis.Source.Dialect
import Trellis.Syntax.Parse

/-! # Sources

A source is a text with the path it comes from and the tree that its dialect gives it.

* `Source.parse` reads a text; it fails exactly when the text is not of its dialect.
* `Modules` is what an analysis may ask for: the module that a specifier in a source stands for. -/

namespace Trellis

/-- A source that has been read. -/
structure Source where
  /-- Where it comes from. -/
  path : Path
  /-- The dialect it is written in. -/
  dialect : Dialect
  /-- Its text. -/
  text : String
  /-- Its tree. -/
  tree : Tree
  deriving Repr

namespace Source

/-- Reads a text as a source. -/
def parse (path : Path) (dialect : Dialect) (text : String) : Except LoadFault Source :=
  match Syntax.parse? dialect text with
  | some tree => .ok ⟨path, dialect, text, tree⟩
  | none => .error (.parseFailed path)

/-- The dialect of a source with a given path, if it has one. -/
def dialectOf (path : Path) : Except LoadFault Dialect :=
  match Dialect.ofPath? path with
  | some d => .ok d
  | none => .error (.unsupportedExtension path (path.extension?.getD "none"))

/-- Reads a text as the source with a given path. -/
def ofText (path : Path) (text : String) : Except LoadFault Source := do
  parse path (← dialectOf path) text

/-- The name of the source without its extension. -/
def stem (s : Source) : String := s.path.stem

/-- The size of the source in bytes. -/
def size (s : Source) : Nat := s.text.utf8ByteSize

/-- The statements of the source. -/
def statements (s : Source) : List Tree := s.tree.parts

end Source

/-! ### Other modules -/

/-- What a specifier leads to. -/
inductive Lookup where
  /-- No module that can be read. -/
  | missing
  /-- A text that is not of its dialect. -/
  | refused (dialect : Dialect) (text : String)
  /-- A module. -/
  | found (module : Source)
  deriving Repr

/-- The text that was read for a specifier, with its dialect. -/
def Lookup.parsed? : Lookup → Option (Dialect × String)
  | missing => none
  | refused d t => some (d, t)
  | found m => some (m.dialect, m.text)

/-- The modules that an analysis may ask for. -/
structure Modules where
  /-- A bound for the number of imports that lead from one module to another before a path comes
  back. -/
  reach : Nat
  /-- What a specifier in the source at a path leads to. -/
  lookup : Path → String → Lookup

/-- No modules at all. -/
def Modules.none : Modules := ⟨0, fun _ _ => .missing⟩

end Trellis
