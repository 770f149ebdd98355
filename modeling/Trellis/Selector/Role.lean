/-! # Implicit roles

The accessibility role that a host tag has without a `role` attribute. Only roles by which a
rendered element can be queried are listed; a tag without one has none. -/

namespace Trellis

/-- The implicit role of an `input` of a given type; an absent type is `text`. -/
def inputRole (type : Option String) : Option String :=
  match type.getD "text" with
  | "checkbox" => some "checkbox"
  | "radio" => some "radio"
  | "range" => some "slider"
  | "number" => some "spinbutton"
  | "search" => some "searchbox"
  | "button" | "submit" | "reset" | "image" => some "button"
  | "hidden" | "file" | "color" | "date" | "datetime-local" | "month" | "time" | "week"
  | "password" => none
  | _ => some "textbox"

/-- The implicit role of a host tag; `type` is the `type` attribute, which matters for `input`. -/
def implicitRole (tag : String) (type : Option String) : Option String :=
  match tag with
  | "a" => some "link"
  | "article" => some "article"
  | "aside" => some "complementary"
  | "button" => some "button"
  | "dialog" => some "dialog"
  | "footer" => some "contentinfo"
  | "form" => some "form"
  | "h1" | "h2" | "h3" | "h4" | "h5" | "h6" => some "heading"
  | "header" => some "banner"
  | "hr" => some "separator"
  | "img" => some "img"
  | "input" => inputRole type
  | "li" => some "listitem"
  | "main" => some "main"
  | "nav" => some "navigation"
  | "ol" | "ul" => some "list"
  | "option" => some "option"
  | "progress" => some "progressbar"
  | "section" => some "region"
  | "select" => some "combobox"
  | "table" => some "table"
  | "tbody" | "thead" | "tfoot" => some "rowgroup"
  | "td" => some "cell"
  | "textarea" => some "textbox"
  | "th" => some "columnheader"
  | "tr" => some "row"
  | _ => none

end Trellis
