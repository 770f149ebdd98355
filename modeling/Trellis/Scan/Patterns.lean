import Trellis.Config.Basic
import Trellis.Scan.Ignore

/-! # Configured patterns

The patterns of a run: those of which a file must match one, when there are any, and those of what
is left out. Some directories are always left out.

* `Patterns.verdict?` decides before any file of ignore rules is asked. What is left out wins over
  what must match, and what must match over a file's rules. -/

namespace Trellis

/-- The names of the directories that are never entered. -/
def ignoredNames : List String :=
  ["node_modules", ".git", "dist", "build", "coverage", ".next", ".nuxt", ".cache", "out",
    "storybook-static", "target", "vendor"]

/-- The patterns of a run, as rules that are read the other way around: what a rule would leave out
is taken. -/
structure Patterns where
  /-- The rules. -/
  rules : IgnoreRules
  deriving DecidableEq, Repr

namespace Patterns

/-- The lines for everything that is never entered. -/
def ignoredLines : List String := ignoredNames.flatMap fun name => ["!" ++ name ++ "/**", "!" ++ name]

/-- The patterns that settings describe, for a walk from `root`. A pattern that cannot be read is
dropped. -/
def ofConfig (s : Config.Scan) (root : Path) : Patterns :=
  ⟨IgnoreRules.withoutDot root.text.toList,
    (s.includes ++ ignoredLines ++ s.extraIgnore.map ("!" ++ ·)).filterMap
      fun line => IgnoreRule.read? false line.toList⟩

/-- Whether there are patterns of which a file must match one. -/
def mustMatch (p : Patterns) : Bool := p.rules.rules.any (!·.negated)

/-- What the patterns say about a path. -/
def verdict? (p : Patterns) (path : List Char) (isDirectory : Bool) : Option Verdict :=
  match p.rules.verdict? path isDirectory with
  | some v => some v.opposite
  | none => if p.mustMatch && !isDirectory then some .ignore else none

end Patterns

end Trellis
