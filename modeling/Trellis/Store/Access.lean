import Trellis.Store.Basic

/-! # Access by paths

What paths lead to, and what can be done there.

* `Store.locate` follows a path, link by link, to something that stands in the store, or to a name
  that is still free in a directory.
* Reading, writing and removing refuse with a `FileFault`; a refused operation changes nothing, but
  for `Store.createDirectories`, which may have made some of the directories. -/

namespace Trellis

namespace Store

/-! ### Following paths -/

/-- The greatest length of a path in bytes, with the byte that ends it. -/
def pathLimit : Nat := 4096

/-- The greatest length of a name in bytes. -/
def nameLimit : Nat := 255

/-- The greatest number of links on the way. -/
def linkLimit : Nat := 40

/-- What a path leads to. -/
inductive Located where
  /-- Something that stands in the store. -/
  | at (place : Place) (entry : Entry)
  /-- A free name in a directory. -/
  | free (directory : Place) (name : String)
  deriving DecidableEq, Repr

/-- The steps of a path's text. -/
def steps (text : String) : List String :=
  ((Path.pieces text.toList).filter fun p => !p.isEmpty).map String.ofList

/-- Whether a path must lead to a directory. -/
def wantsDirectory (text : String) : Bool := text.toList.getLast? = some '/'

/-- Follows steps from a directory; `follow` tells whether a link at the end is followed, `links` how
many links may still come, `fuel` bounds the steps. -/
def walk (s : Store) (follow : Bool) : (fuel : Nat) → (links : Nat) → Place → List String →
    Except FileFault Located
  | 0, _, _, _ => .error .tooManyLinks
  | _ + 1, _, here, [] => .ok (.at here .directory)
  | fuel + 1, links, here, name :: rest =>
    if name = "." then walk s follow fuel links here rest
    else if name = ".." then walk s follow fuel links here.dropLast rest
    else if nameLimit < name.utf8ByteSize then .error .nameTooLong
    else
      let place := here ++ [name]
      match s.get? place with
      | none => if rest = [] then .ok (.free here name) else .error .notFound
      | some .directory => walk s follow fuel links place rest
      | some (.file c) => if rest = [] then .ok (.at place (.file c)) else .error .notADirectory
      | some (.link target) =>
        if rest = [] && !follow then .ok (.at place (.link target))
        else
          match links with
          | 0 => .error .tooManyLinks
          | links + 1 =>
            if target.text = "" then .error .notFound
            else
              walk s follow fuel links (if target.isAbsolute then [] else here)
                (steps target.text ++ rest)

/-- A bound for the steps on the way. -/
def stepLimit : Nat := (linkLimit + 1) * pathLimit

/-- What a path leads to; `follow` tells whether a link at the end is followed. -/
def locate (s : Store) (follow : Bool) (p : Path) : Except FileFault Located :=
  if p.text = "" then .error .notFound
  else if p.text.toList.contains (Char.ofNat 0) then .error .nulInPath
  else if pathLimit ≤ p.text.utf8ByteSize then .error .nameTooLong
  else
    walk s follow stepLimit linkLimit (if p.isAbsolute then [] else s.cwd)
      (steps p.text ++ if wantsDirectory p.text then ["."] else [])

/-- What stands where a path leads to. -/
def entry? (s : Store) (p : Path) : Option Entry :=
  match s.locate true p with
  | .ok (.at _ e) => some e
  | _ => none

/-- Whether a path leads to a file. -/
def isFile (s : Store) (p : Path) : Bool :=
  match s.entry? p with
  | some (.file _) => true
  | _ => false

/-- Whether a path leads to a directory. -/
def isDirectory (s : Store) (p : Path) : Bool := s.entry? p = some .directory

/-- A place as a path. -/
def pathOf (place : Place) : Path := ⟨"/" ++ String.intercalate "/" place⟩

/-- The place a path leads to, as a path without links and dots. -/
def absolute (s : Store) (p : Path) : Except FileFault Path := do
  match ← s.locate true p with
  | .at place _ => return pathOf place
  | .free .. => throw .notFound

/-! ### Reading -/

/-- What the file holds that a path leads to. -/
def read (s : Store) (p : Path) : Except FileFault Content := do
  match ← s.locate true p with
  | .at _ (.file c) => return c
  | .at _ .directory => throw .isADirectory
  | .at _ (.link _) => throw .tooManyLinks
  | .free .. => throw .notFound

/-- The text of the file that a path leads to. -/
def readText (s : Store) (p : Path) : Except FileFault String := do
  match ← s.read p with
  | .text t => return t
  | .binary _ => throw .notText

/-! ### Writing -/

/-- Makes the file that a path leads to hold something; the file need not exist yet. -/
def write (s : Store) (p : Path) (c : Content) : Except FileFault Store := do
  match ← s.locate true p with
  | .at place (.file _) => return s.put place (.file c)
  | .at _ .directory => throw .isADirectory
  | .at _ (.link _) => throw .tooManyLinks
  | .free directory name => return s.put (directory ++ [name]) (.file c)

/-- Puts something new at the end of a path. -/
def create (s : Store) (p : Path) (e : Entry) : Except FileFault Store := do
  match ← s.locate false ⟨String.ofList (Path.trimEnd p.text.toList)⟩ with
  | .at .. => throw .exists
  | .free directory name => return s.put (directory ++ [name]) e

/-- Makes a directory unless there is one. -/
def ensureDirectory (s : Store) (p : Path) : Store × Option FileFault :=
  match s.create p .directory with
  | .ok s' => (s', none)
  | .error e => (s, if s.isDirectory p then none else some e)

/-- Makes a directory with all directories above it; `n` bounds their number. -/
def createDirectoriesWithin : Nat → Store → Path → Store × Option FileFault
  | 0, s, _ => (s, some .notFound)
  | n + 1, s, p =>
    if p.text = "" then (s, none)
    else
      match s.ensureDirectory p with
      | (s, some .notFound) =>
        match p.parent? with
        | none => (s, some (.other "failed to create whole tree"))
        | some parent =>
          match createDirectoriesWithin n s parent with
          | (s, none) => s.ensureDirectory p
          | (s, some e) => (s, some e)
      | (s, result) => (s, result)

/-- Makes a directory with all directories above it. -/
def createDirectories (s : Store) (p : Path) : Store × Option FileFault :=
  createDirectoriesWithin (p.text.length + 1) s p

/-! ### Removing -/

/-- Takes away the file or link at the end of a path. -/
def removeFile (s : Store) (p : Path) : Except FileFault Store := do
  match ← s.locate false p with
  | .at _ .directory => throw .isADirectory
  | .at place _ => return s.erase place
  | .free .. => throw .notFound

/-- Takes away what is at the end of a path, with everything below it. -/
def removeTree (s : Store) (p : Path) : Except FileFault Store := do
  match ← s.locate false p with
  | .at place .directory => return s.eraseTree place
  | .at place _ => return s.erase place
  | .free .. => throw .notFound

end Store

end Trellis
