import Trellis.Source.Library

/-! # The parse cache

Trees that were read before. Every entry holds what its dialect makes of its text, also when that is
nothing at all.

* `ParseCache.parse` takes a tree from the cache or puts it there; what it answers is always what
  the dialect makes of the text.
* `ParseCache.remember` puts in what was read elsewhere. -/

namespace Trellis

/-- A text that was read, with what its dialect makes of it. -/
structure Parsed where
  /-- The dialect. -/
  dialect : Dialect
  /-- The text. -/
  text : String
  /-- What the dialect makes of the text. -/
  tree : Option Tree
  /-- The tree is the text's own. -/
  tree_eq : tree = Syntax.parse? dialect text

/-- The texts that were read, each once. -/
structure ParseCache where
  /-- The entries, in the order in which they came. -/
  entries : List Parsed

namespace ParseCache

/-- No texts. -/
def empty : ParseCache := ⟨[]⟩

/-- The entry of a text. -/
def find? (c : ParseCache) (d : Dialect) (text : String) : Option Parsed :=
  c.entries.find? fun e => e.dialect = d && e.text = text

/-- What a dialect makes of a text, from the cache if it is there. -/
def parse (c : ParseCache) (d : Dialect) (text : String) : ParseCache × Option Tree :=
  match c.find? d text with
  | some e => (c, e.tree)
  | none =>
    let tree := Syntax.parse? d text
    (⟨c.entries ++ [⟨d, text, tree, rfl⟩]⟩, tree)

/-- Puts a text in the cache. -/
def remember (c : ParseCache) (d : Dialect) (text : String) : ParseCache := (c.parse d text).1

/-- Puts some texts in the cache. -/
def rememberAll (c : ParseCache) (texts : List (Dialect × String)) : ParseCache :=
  texts.foldl (fun c t => c.remember t.1 t.2) c

/-- The number of texts. -/
def size (c : ParseCache) : Nat := c.entries.length

/-- Reads a text through the cache. -/
def ofText (c : ParseCache) (p : Path) (d : Dialect) (text : String) :
    ParseCache × Except LoadFault Source :=
  match c.parse d text with
  | (c, some tree) => (c, .ok ⟨p, d, text, tree⟩)
  | (c, none) => (c, .error (.parseFailed p))

/-- Reads the source at a path, of a dialect that was chosen for it, through the cache. -/
def loadAs (c : ParseCache) (s : Store) (p : Path) (dialect : Except LoadFault Dialect) :
    ParseCache × Except LoadFault Source :=
  match dialect with
  | .error e => (c, .error e)
  | .ok d =>
    match Source.textAt s p d with
    | .error e => (c, .error e)
    | .ok (d, text) => c.ofText p d text

/-- Reads a module through the cache. -/
def load (c : ParseCache) (s : Store) (p : Path) : ParseCache × Except LoadFault Source :=
  c.loadAs s p (Source.dialectOf p)

/-- Reads a source that may hold components through the cache. -/
def loadComponent (c : ParseCache) (s : Store) (p : Path) : ParseCache × Except LoadFault Source :=
  c.loadAs s p (Source.componentDialectOf p)

end ParseCache

end Trellis
