import Trellis.Path

/-! # Dialects

The dialects in which components and the modules they import are written, told by a file's
extension. Two dialects admit type ascriptions, and all but one admit markup. -/

namespace Trellis

/-- A dialect of sources. -/
inductive Dialect where
  /-- Types and markup. -/
  | tsx
  /-- Markup. -/
  | jsx
  /-- Types, no markup. -/
  | typescript
  /-- Markup. -/
  | javascript
  deriving DecidableEq, Repr

namespace Dialect

/-- The dialect of an extension. -/
def ofExtension? (ext : String) : Option Dialect :=
  if ext = "tsx" then some tsx
  else if ext = "jsx" then some jsx
  else if ext = "ts" || ext = "mts" || ext = "cts" then some typescript
  else if ext = "js" || ext = "mjs" || ext = "cjs" then some javascript
  else none

/-- The dialect of a file. -/
def ofPath? (p : Path) : Option Dialect := p.extension?.bind ofExtension?

/-- Whether markup may be written. -/
def admitsMarkup : Dialect → Bool
  | typescript => false
  | _ => true

/-- Whether type ascriptions may be written. -/
def isTyped : Dialect → Bool
  | tsx | typescript => true
  | jsx | javascript => false

/-- The name of a dialect. -/
def name : Dialect → String
  | tsx => "TSX"
  | jsx => "JSX"
  | typescript => "TypeScript"
  | javascript => "JavaScript"

end Dialect

end Trellis
