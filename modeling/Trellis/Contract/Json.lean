import Trellis.Contract.Basic
import Trellis.Json.Value

/-! # Contracts as values

Component contracts in the form in which they are shown to other programs. A selector without a role
has no member for it. -/

namespace Trellis

/-- The name of a flavour of inputs. -/
def InputKind.label : InputKind → String
  | text => "text"
  | number => "number"
  | checkbox => "checkbox"
  | radio => "radio"
  | select => "select"

/-- A kind of elements as a value. -/
def ElementKind.toJson : ElementKind → Json
  | button => .str "button"
  | input kind => .obj [("input", .str kind.label)]
  | other role => .obj [("other", .ofText? role)]

/-- A selector as a value. -/
def Selector.toJson (s : Selector) : Json :=
  .obj ([("strategy", .str s.strategy.name), ("value", .str s.value)] ++
    (s.role.map fun role => ("role", Json.str role)).toList)

/-- A prop as a value. -/
def ComponentProp.toJson (p : ComponentProp) : Json :=
  .obj [("name", .str p.name), ("type", .str p.type), ("is_required", .bool p.isRequired),
    ("is_callback", .bool p.isCallback), ("is_boolean", .bool p.isBoolean)]

/-- An interactive element as a value. -/
def InteractiveElement.toJson (e : InteractiveElement) : Json :=
  .obj [("kind", e.kind.toJson), ("tag", .str e.tag), ("selector", e.selector.toJson),
    ("handler_props", .texts e.handlerProps), ("controlled", .bool e.controlled),
    ("disabled", .bool e.disabled), ("line", .nat e.line)]

/-- A conditional element as a value. -/
def ConditionalElement.toJson (e : ConditionalElement) : Json :=
  .obj [("kind", e.kind.toJson), ("tag", .str e.tag), ("selector", e.selector.toJson),
    ("required_props", .texts e.requiredProps), ("falsy_props", .texts e.falsyProps),
    ("line", .nat e.line)]

/-- The name of a way to leave a module. -/
def ExportKind.label : ExportKind → String
  | default => "default"
  | named => "named"

/-- A contract as a value. -/
def Component.toJson (c : Component) : Json :=
  .obj [("name", .str c.name), ("export_kind", .str c.exportKind.label),
    ("exported_as", .str c.exportedAs), ("props", .arr (c.props.map (·.toJson))),
    ("interactive_elements", .arr (c.interactive.map (·.toJson))),
    ("conditional_elements", .arr (c.conditional.map (·.toJson))),
    ("markup_count", .nat c.markupCount), ("line", .nat c.line)]

end Trellis
