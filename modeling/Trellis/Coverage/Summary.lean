import Trellis.Config.Basic
import Trellis.Fault
import Trellis.Json.Read
import Trellis.Json.Write
import Trellis.Store.Access

/-! # Coverage summaries

The file that a test run leaves: figures of many sources, each under the path of its source.

* `Summary.read?` reads a text. Of every entry it looks at the figure for lines only; of two entries
  under one path the last counts, but a member that is looked at must be there exactly once.
* `Summary.entryFor?` finds the first entry, in the order of paths, that may be a source's own:
  one whose path leads to the source, or ends with the source's path below the root.
* `SummaryFile.lineCoverage` is the figure of a source, `SummaryFile.reset` takes an old summary
  away before a run. -/

namespace Trellis.Coverage

open Decimal (Binary)

/-! ### Reading summaries -/

/-- The only member of an object under a name, or the only item of a list in the place of it. -/
def onlyMember? (name : String) : Json.Draft → Option Json.Draft
  | .obj members =>
    if members.all (·.1.isSome) then
      match members.filter (·.1 = some name) with
      | [(_, v)] => some v
      | _ => none
    else none
  | .arr [v] => some v
  | _ => none

/-- How deep the figure of an entry may still be nested. -/
def figureDepth : Nat := Json.depthLimit - 3

/-- The figure of an entry, whatever value it is. -/
def figure? (entry : Json.Draft) : Option Json :=
  ((onlyMember? "lines" entry).bind (onlyMember? "pct")).bind (Json.Draft.valueWithin figureDepth)

/-- A summary: figures by the paths of their sources, in the order of paths. -/
structure Summary where
  /-- The entries. -/
  entries : List (String × Json)
  deriving Repr

namespace Summary

/-- Puts entries in order. -/
def ofMembers (members : List (String × Json)) : Summary :=
  ⟨members.foldl (fun sorted m => Json.insertMember m.1 m.2 sorted) []⟩

/-- Reads one entry. -/
def readEntry? (member : Option String × Json.Draft) : Option (String × Json) := do
  return (← member.1, ← figure? member.2)

/-- Reads the entries of a summary. -/
def ofDraft? : Json.Draft → Option Summary
  | .obj members => (members.mapM readEntry?).map ofMembers
  | _ => none

/-- Reads a summary. -/
def read? (text : String) : Option Summary := (Json.scan text.toList).bind ofDraft?

end Summary

/-! ### The summary of a project -/

/-- Where the summary of a project stands. -/
structure SummaryFile where
  /-- The root of the project. -/
  root : Path
  /-- The path of the summary. -/
  path : Path
  deriving DecidableEq, Repr

namespace SummaryFile

/-- The summary that settings describe. -/
def ofConfig (c : Config.Coverage) (root : Path) : SummaryFile :=
  ⟨root, root.join ⟨c.effectiveSummaryPath⟩⟩

/-- Where a path leads, or the path itself when it leads nowhere. -/
def canonical (s : Store) (p : Path) : Path := ((s.absolute p).toOption).getD p

/-- Whether the path of an entry leads to a source. -/
def denotes (f : SummaryFile) (s : Store) (key : String) (source : Path) : Bool :=
  let p := f.root.join ⟨key⟩
  p.same source || (canonical s p).same (canonical s source)

/-- Whether the path of an entry ends with the path of a source below the root. -/
def endsLike (f : SummaryFile) (key : String) (source : Path) : Bool :=
  match source.stripPrefix? f.root with
  | some below => below.text ≠ "" && (Path.mk key).endsWith below
  | none => false

/-- Whether an entry may be that of a source. -/
def isFor (f : SummaryFile) (s : Store) (key : String) (source : Path) : Bool :=
  f.denotes s key source || f.endsLike key source

/-- The name of the entry for all sources together. -/
def totalKey : String := "total"

/-- The figure of a source, whatever value it is. -/
def entryFor? (f : SummaryFile) (s : Store) (summary : Summary) (source : Path) : Option Json :=
  (summary.entries.find? fun e => e.1 ≠ totalKey && f.isFor s e.1 (f.root.join source)).map (·.2)

/-- The summary that stands in the store. -/
def load (f : SummaryFile) (s : Store) : Except CoverageFault Summary :=
  match s.readText f.path with
  | .error .notFound => .error (.summaryMissing f.path)
  | .error e => .error (.malformed f.path e.message)
  | .ok text =>
    match Summary.read? text with
    | some summary => .ok summary
    | none => .error (.malformed f.path "not a coverage summary")

/-- The percentage of a source's lines that were run. -/
def lineCoverage (f : SummaryFile) (s : Store) (source : Path) : Except CoverageFault Binary :=
  match f.load s with
  | .error e => .error e
  | .ok summary =>
    match f.entryFor? s summary source with
    | none => .error (.noEntry source)
    | some v =>
      match v.binary? with
      | some x => .ok x
      | none => .error (.notANumber source v.sortKeys.compact)

/-- Takes an old summary away. -/
def reset (f : SummaryFile) (s : Store) : Store × Except CoverageFault Unit :=
  match s.removeFile f.path with
  | .ok s => (s, .ok ())
  | .error .notFound => (s, .ok ())
  | .error e => (s, .error (.reset f.path e))

end SummaryFile

end Trellis.Coverage
