import Trellis.Source.Cache

/-! # Contexts

A context reads one source after another and keeps the trees that it made. A tree is kept under the
digest of its text and its dialect, without the text and without the path, and a context may drop
what it keeps.

* `Request` is what is asked of a context, and `Request.answer` the answer that needs none.
* `Eviction` is one way of dropping trees, which leaves them alone while there is room.
* `Context.serve` answers a request through what is kept, and `Context.run` one request after
  another.
* `ParseCache.serve` and `ParseCache.run` do so through the cache, for which a text is its own
  digest. -/

namespace Trellis

/-! ### Requests -/

/-- What is asked for, with the store as it is then. -/
inductive Request where
  /-- A source that may hold components. -/
  | component (store : Store) (path : Path)
  /-- A module. -/
  | module (store : Store) (path : Path)
  /-- A text, as the source at a path. -/
  | text (path : Path) (text : String)

namespace Request

/-- The path of the source. -/
def path : Request → Path
  | component _ p | module _ p | text p _ => p

/-- The text of the source with its dialect. -/
def read : Request → Except LoadFault (Dialect × String)
  | component s p => (Source.componentDialectOf p).bind (Source.textAt s p)
  | module s p => (Source.dialectOf p).bind (Source.textAt s p)
  | text p t => (Source.dialectOf p).map (·, t)

/-- The answer, from the store and the text alone. -/
def answer : Request → Except LoadFault Source
  | component s p => Source.loadComponent s p
  | module s p => Source.load s p
  | text p t => Source.ofText p t

end Request

/-! ### Contexts -/

/-- A tree that is kept: what a dialect makes of a text, also when that is nothing at all. -/
structure Context.Entry (κ : Type) where
  /-- The digest of the text, and the dialect. -/
  key : κ × Dialect
  /-- What the dialect makes of the text. -/
  tree : Option Tree

/-- A way of dropping trees of a context that has room for `capacity` of them. -/
structure Context.Eviction (κ : Type) (capacity : Nat) where
  /-- What is left of some trees. -/
  left : List (Entry κ) → List (Entry κ)
  /-- Nothing is left that was not there. -/
  sublist : ∀ es, (left es).Sublist es
  /-- All is left while there is room. -/
  left_eq : ∀ es, es.length ≤ capacity → left es = es

/-- A context, with what it keeps. -/
structure Context (κ : Type) where
  /-- The trees, in the order in which they were made. -/
  entries : List (Context.Entry κ)

namespace Context

variable {κ : Type} {capacity : Nat}

/-- A fresh context. -/
def empty : Context κ := ⟨[]⟩

/-- The number of trees. -/
def size (c : Context κ) : Nat := c.entries.length

/-- What is left of a context. -/
def drop (c : Context κ) (e : Eviction κ capacity) : Context κ := ⟨e.left c.entries⟩

/-- Nothing is dropped. -/
def Eviction.none : Eviction κ capacity := ⟨id, List.Sublist.refl, fun _ _ => rfl⟩

/-- A request, and what is dropped after it. -/
structure Turn (κ : Type) (capacity : Nat) where
  /-- What is asked for. -/
  request : Request
  /-- What is dropped. -/
  eviction : Eviction κ capacity

section serve
variable [DecidableEq κ] (digest : String → κ)

/-- The tree that is kept under a key. -/
def find? (c : Context κ) (key : κ × Dialect) : Option (Option Tree) :=
  (c.entries.find? (·.key = key)).map (·.tree)

/-- What a dialect makes of a text, unless a tree is kept for it. -/
def parse (c : Context κ) (d : Dialect) (text : String) : Context κ × Option Tree :=
  match c.find? (digest text, d) with
  | some tree => (c, tree)
  | none => (⟨c.entries ++ [⟨(digest text, d), Syntax.parse? d text⟩]⟩, Syntax.parse? d text)

/-- Answers a request. -/
def serve (c : Context κ) (r : Request) : Context κ × Except LoadFault Source :=
  match r.read with
  | .error e => (c, .error e)
  | .ok (d, text) =>
    match c.parse digest d text with
    | (c, some tree) => (c, .ok ⟨r.path, d, text, tree⟩)
    | (c, none) => (c, .error (.parseFailed r.path))

/-- Answers one request after another. -/
def run (c : Context κ) : List (Turn κ capacity) → Context κ × List (Except LoadFault Source)
  | [] => (c, [])
  | t :: ts =>
    let (c, answer) := c.serve digest t.request
    let (c, answers) := run (c.drop t.eviction) ts
    (c, answer :: answers)

end serve

end Context

/-! ### The cache -/

namespace ParseCache

/-- Answers a request through the cache. -/
def serve (c : ParseCache) : Request → ParseCache × Except LoadFault Source
  | .component s p => c.loadComponent s p
  | .module s p => c.load s p
  | .text p t =>
    match Source.dialectOf p with
    | .error e => (c, .error e)
    | .ok d => c.ofText p d t

/-- Answers one request after another through the cache. -/
def run (c : ParseCache) : List Request → ParseCache × List (Except LoadFault Source)
  | [] => (c, [])
  | r :: rs =>
    let (c, answer) := c.serve r
    let (c, answers) := run c rs
    (c, answer :: answers)

end ParseCache

end Trellis
