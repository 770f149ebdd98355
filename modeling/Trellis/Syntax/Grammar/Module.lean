import Trellis.Syntax.Grammar.Declaration

/-! # Imports and exports

What a module takes from other modules and what it offers to them. -/

namespace Trellis.Syntax.Grammar

open Reader

variable {source : List Char} (g : Grammar source)

/-- The module that an import or export refers to. -/
def fromClause : Reader source Draft := do
  let _ ← keyword "from"
  return (← string).as .source

/-- Attributes of an import. -/
def importAttribute : Reader source Draft := build .importAttribute do
  let _ ← anyKeyword ["with", "assert"]
  return [← g.object]

/-- A name of an export, which may be any word or text. -/
def exportName : Reader source Draft := string <|> name .identifier

/-- A name, perhaps with another name for it, perhaps of a type. -/
def specifier (kind : Kind) : Reader source Draft :=
  let plain : Reader source (List Draft) := do
    let n ← exportName
    let renamed ← maybe (do let _ ← keyword "as"; exportName)
    lookahead (op "," <|> op "\x7d")
    return n.as .name :: renamed.map (·.as .alias)
  build kind ((do
    require g.typed
    let _ ← anyKeyword ["type", "typeof"]
    plain) <|> plain)

/-- Names in braces. -/
def specifiers (kind member : Kind) : Reader source Draft := build kind do
  let _ ← op "\x7b"
  let ds ← list (g.specifier member)
  let _ ← op "\x7d"
  return ds

/-! ### Imports -/

/-- All exports of a module under one name. -/
def namespaceImport : Reader source Draft := build .namespaceImport do
  let _ ← op "*"
  let _ ← keyword "as"
  return [← name .identifier]

/-- What an import binds. -/
def importClause : Reader source Draft := build .importClause do
  let inBraces := namespaceImport <|> g.specifiers .namedImports .importSpecifier
  (do return [← inBraces]) <|> (do
    let n ← name .identifier
    let more ← maybe (do let _ ← op ","; inBraces)
    return n :: more)

/-- An import of a whole module by a call. -/
def importRequire : Reader source Draft := build .importRequire do
  let n ← name .identifier
  let _ ← op "="
  let _ ← keyword "require"
  let _ ← op "("
  let s ← string
  let _ ← op ")"
  return [n, s.as .source]

/-- What an import binds, with its module. -/
def importBinding : Reader source (List Draft) :=
  (do
    let c ← g.importClause
    return [c, ← fromClause]) <|>
  (do
    require g.typed
    return [← importRequire])

/-- An import. -/
def importStatement : Reader source Draft :=
  build .importStatement (do
    let _ ← keyword "import"
    let parts ←
      (do
        require g.typed
        let _ ← anyKeyword ["type", "typeof"]
        g.importBinding) <|> g.importBinding <|> (do return [(← string).as .source])
    let attributes ← maybe g.importAttribute
    g.endOfStatement
    return parts ++ attributes) <|>
  build .importAlias (do
    require g.typed
    let _ ← keyword "import"
    let n ← name .identifier
    let _ ← op "="
    let m ← namespaceRest .nestedIdentifier (← name .identifier) (← limit)
    g.endOfStatement
    return [n.as .name, m])

/-! ### Exports -/

/-- Exported names in braces. -/
def exportClause : Reader source Draft := g.specifiers .exportClause .exportSpecifier

/-- An export of names or of another module. -/
def reexport : Reader source (List Draft) := do
  let parts ←
    (do
      let n ← build .namespaceExport do
        let _ ← op "*"
        let _ ← keyword "as"
        return [← exportName]
      return [n, ← fromClause]) <|>
    (do
      let _ ← op "*"
      return [← fromClause]) <|>
    (do
      let c ← g.exportClause
      return c :: (← maybe fromClause))
  let attributes ← maybe g.importAttribute
  g.endOfStatement
  return parts ++ attributes

/-- What follows the word `export` in typed sources only. -/
def typedExport : Reader source (List Draft) := do
  require g.typed
  (do
    let _ ← keyword "type"
    g.reexport) <|>
  (do
    let _ ← op "="
    let e ← g.expression
    g.endOfExpression
    return [e]) <|>
  (do
    let _ ← keyword "as"
    let _ ← keyword "namespace"
    let n ← name .identifier
    g.endOfStatement
    return [n]) <|>
  (do return [← g.importStatement])

/-- The export a module stands for. -/
def defaultExport : Reader source (List Draft) := do
  let mark := Draft.leaf .mark (← keyword "default")
  (do return [mark, (← g.declaration).as .declaration]) <|>
  (do
    let e ← g.expression
    g.endOfExpression
    return [mark, e.as .value])

/-- An export. -/
def exportStatement : Reader source Draft := build .exportStatement do
  let decorators ← many g.decorator
  let _ ← keyword "export"
  let parts ←
    g.typedExport <|> g.reexport <|> g.defaultExport <|>
    (do return [(← g.declaration).as .declaration])
  return decorators ++ parts

end Trellis.Syntax.Grammar
