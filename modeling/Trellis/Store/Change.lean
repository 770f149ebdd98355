import Trellis.Store.Access

/-! # Changes of a store

What has to be done to bring one store to the state of another: which files and directories to put
where, and which files to take away. -/

namespace Trellis

/-- A change at one path. -/
inductive Change where
  /-- A directory is made. -/
  | makeDirectory (p : Path)
  /-- A file holds this from now on. -/
  | writeFile (p : Path) (c : Content)
  /-- A file or a link is taken away. -/
  | remove (p : Path)
  deriving DecidableEq, Repr

namespace Store

/-- What is put at a place that held nothing or something else. -/
def newAt? (before : Store) (e : Place × Entry) : Option Change :=
  if before.get? e.1 = some e.2 then none
  else
    match e.2 with
    | .directory => some (.makeDirectory (pathOf e.1))
    | .file c => some (.writeFile (pathOf e.1) c)
    | .link _ => none

/-- What is taken away from a place that holds nothing any more. -/
def goneAt? (after : Store) (e : Place × Entry) : Option Change :=
  if (after.get? e.1).isNone && e.2 ≠ .directory then some (.remove (pathOf e.1)) else none

/-- The changes from one store to another: first what goes, then what comes, directories before what
is in them. -/
def changes (before after : Store) : List Change :=
  before.entries.filterMap (goneAt? after) ++ after.entries.filterMap (newAt? before)

end Store

end Trellis
