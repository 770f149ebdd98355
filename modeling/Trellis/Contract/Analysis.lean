import Trellis.Contract.Props
import Trellis.Contract.Tag

/-! # Analysis of a module

From a source to the contracts of its components: the exported candidates that render markup.

* `Markup.visits` lists the elements of a tree in source order, each with what stands around it.
* `Markup.Scan` is what an element adds to a contract: an element under a gate counts when it is
  interactive or the root of a gated side, any other when it is interactive.
* `Analysis.ofSource` joins declarations, props and markup. -/

namespace Trellis

open Syntax

namespace Markup

/-- An element with what stands around it, from the inside outwards. -/
structure Visit where
  /-- The element. -/
  element : Tree
  /-- What stands around it. -/
  around : List Enclosure

mutual

/-- The elements of a tree, in source order. -/
def visits (around : List Enclosure) : Tree → List Visit
  | .node k l text line ts =>
    let t := Tree.node k l text line ts
    (if Enclosure.isElement t then [⟨t, around⟩] else []) ++ visitsOfAll t around ts

/-- The elements of the children of a tree. -/
def visitsOfAll (parent : Tree) (around : List Enclosure) : List Tree → List Visit
  | [] => []
  | t :: ts =>
    (if t.kind = .mark then []
      else visits ((Enclosure.between parent t).toList ++ around) t) ++
    visitsOfAll parent around ts

end

/-- What an element adds to a contract. -/
inductive Scan where
  /-- An element that is always rendered. -/
  | always (element : InteractiveElement)
  /-- An element that is rendered under a condition. -/
  | gated (element : ConditionalElement)

namespace Scan

/-- The element, when it is always rendered. -/
def always? : Scan → Option InteractiveElement
  | always e => some e
  | gated _ => none

/-- The element, when it is rendered under a condition. -/
def gated? : Scan → Option ConditionalElement
  | gated e => some e
  | always _ => none

/-- What an element with a name adds to a contract. -/
def ofVisit? (props : List ComponentProp) (v : Visit) : Option Scan := do
  let tag ← Enclosure.tagOf? v.element
  let name ← Enclosure.tagName? v.element
  let attributes := Attributes.ofTag tag
  let kind := ElementKind.classify name attributes
  let text := if kind.isInput then none else staticText v.element
  let selector := Selector.derive attributes text kind
  let line := v.element.line + 1
  match Gate.ofEnclosures (props.map (·.name)) v.around with
  | some g =>
    if kind.isInteractive || g.isRoot then
      some (gated
        { kind := kind, tag := name, selector := selector, requiredProps := g.required,
          falsyProps := g.falsy, line := line })
    else none
  | none =>
    if kind.isInteractive then
      some (always
        { kind := kind, tag := name, selector := selector, handlerProps := handlers props tag,
          controlled := attributes.contains "value" || attributes.contains "checked",
          disabled := attributes.get? "disabled" = some (.flag true), line := line })
    else none

end Scan

end Markup

namespace Candidate

/-- The elements in the body of the candidate. -/
def visits (c : Candidate) : List Markup.Visit :=
  (c.function.part? .body).elim [] (Markup.visits [])

/-- The component that an exported candidate is, if it renders markup. -/
def component? (c : Candidate) (kind : ExportKind) (exported : String)
    (props : List ComponentProp) : Option Component :=
  if c.visits.isEmpty then none
  else
    let scans := c.visits.filterMap (Markup.Scan.ofVisit? props)
    some
      { name := c.name
        exportKind := kind
        exportedAs := exported
        props := props
        interactive := scans.filterMap Markup.Scan.always?
        conditional := scans.filterMap Markup.Scan.gated?
        markupCount := c.visits.length
        line := c.line }

end Candidate

namespace Analysis

/-- The candidates of a source that are exported, with how they leave the module. -/
def exported (s : Source) : List (Candidate × ExportKind × String) :=
  (Candidate.ofSource s).filterMap fun c =>
    (Export.lookup (Export.ofSource s) c.name).map fun e => (c, e)

/-- The components of a source. -/
def components (modules : Modules) (s : Source) : List Component :=
  (exported s).filterMap fun (c, kind, name) => c.component? kind name (c.props modules s)

/-- The modules that had to be looked at, in order. -/
def lookups (modules : Modules) (s : Source) : List Lookup :=
  (exported s).flatMap fun (c, _) => (c.expansion modules s).lookups

end Analysis

end Trellis
