import Trellis.CommandLine.Arguments
import Trellis.Path

/-! # Commands

What the command line may ask for: to generate modules, or to show the contracts of one source.

* `Command.read` reads a whole command line. -/

namespace Trellis.CommandLine

/-- How modules are generated. -/
structure Generate where
  /-- The sources; all of the project when there are none. -/
  paths : List Path
  /-- The root of the project. -/
  root : Path
  /-- Whether only sources that version control calls changed are taken. -/
  changed : Bool
  /-- A file of settings in place of the project's. -/
  config : Option Path
  /-- The name of the test framework. -/
  framework : Option String
  /-- Whether boolean props get no tests of their own. -/
  noVariants : Bool
  /-- Whether modules are measured, if the command line says so. -/
  coverage : Option Bool
  /-- The figure below which a module is enriched. -/
  threshold : Option Decimal.Binary
  /-- Whether modules are enriched from the start. -/
  refine : Bool
  /-- Whether the report is for programs. -/
  json : Bool
  /-- Whether a failed source makes the whole run a failure. -/
  failOnError : Bool
  deriving DecidableEq, Repr

/-- A command. -/
inductive Command where
  /-- Generates modules. -/
  | generate (g : Generate)
  /-- Shows the contracts of a source. -/
  | analyze (file : Path)
  deriving DecidableEq, Repr

/-- What the program says when it is asked for help. -/
def helpText : String :=
  "Generate Testing Library scaffolds for React components\n\n" ++
  "Usage: scaffold generate [OPTIONS] [PATHS]...\n" ++
  "       scaffold analyze <FILE>\n\n" ++
  "Options of generate:\n" ++
  "  --root <ROOT>            project root\n" ++
  "  --changed                only files changed in the working tree\n" ++
  "  --config <CONFIG>        config file in place of scaffold.toml\n" ++
  "  --framework <FRAMEWORK>  jest or vitest\n" ++
  "  --no-variants            skip true/false variants for boolean props\n" ++
  "  --coverage               run the coverage feedback loop\n" ++
  "  --no-coverage            do not run it\n" ++
  "  --threshold <THRESHOLD>  coverage below which a file is regenerated\n" ++
  "  --refine                 write the enriched pass directly\n" ++
  "  --json                   print the batch report as JSON\n" ++
  "  --fail-on-error          exit non-zero when any file failed\n"

/-- What the program says about a command line that it does not carry out. -/
def UsageFault.message : UsageFault → String
  | help | nothing => helpText
  | version => "scaffold 0.1.0\n"
  | unknownCommand => "error: unrecognized subcommand\n"
  | unknownArgument => "error: unexpected argument\n"
  | missingArgument => "error: a required argument was not provided\n"
  | conflict => "error: an argument cannot be used with another one or more than once\n"
  | unwantedValue => "error: an unexpected value was provided\n"
  | emptyValue => "error: a value is required\n"
  | malformedValue => "error: invalid value\n"

namespace Command

/-- The names of the commands, with the one that asks for help. -/
def names : List String := ["generate", "analyze", "help"]

/-- The arguments of `generate`. -/
def generateSignature : Signature :=
  { flags := ["changed", "no-variants", "coverage", "no-coverage", "refine", "json", "fail-on-error"]
    options := [("root", .path), ("config", .path), ("framework", .text), ("threshold", .number)]
    manyPaths := true }

/-- The arguments of `analyze`. -/
def analyzeSignature : Signature := ⟨[], [], false⟩

/-- Reads what is to be generated. -/
def readGenerate (words : List String) : Except UsageFault Generate := do
  let a ← Arguments.read generateSignature words
  if a.has "changed" && !a.paths.isEmpty then throw .conflict
  if a.has "coverage" && a.has "no-coverage" then throw .conflict
  return {
    paths := a.paths.map Path.mk
    root := ⟨(a.value? "root").getD "."⟩
    changed := a.has "changed"
    config := (a.value? "config").map Path.mk
    framework := a.value? "framework"
    noVariants := a.has "no-variants"
    coverage :=
      if a.has "coverage" then some true else if a.has "no-coverage" then some false else none
    threshold := (a.value? "threshold").bind fun v => Decimal.Binary.read? v.toList
    refine := a.has "refine"
    json := a.has "json"
    failOnError := a.has "fail-on-error" }

/-- Reads which source is to be analyzed. -/
def readAnalyze (words : List String) : Except UsageFault Path := do
  let a ← Arguments.read analyzeSignature words
  match a.paths with
  | p :: _ => return ⟨p⟩
  | [] => throw .missingArgument

/-- Reads for which command help is wanted. -/
def readHelp : List String → UsageFault
  | [] => .help
  | [name] => if names.contains name then .help else .unknownCommand
  | _ => .unknownCommand

/-- Reads words after a lone `--`, where no command may stand. -/
def readPlain : List String → UsageFault
  | [] => .nothing
  | name :: _ => if names.contains name then .unknownArgument else .unknownCommand

/-- Reads a word in the place of a command that is none. -/
def readOther (word : String) : UsageFault :=
  match word.toList with
  | '-' :: '-' :: s =>
    let (name, attached) := Arguments.splitOption s
    if name = "help" || name = "version" then
      if attached.isSome then .unwantedValue else if name = "help" then .help else .version
    else .unknownArgument
  | '-' :: 'h' :: _ => .help
  | '-' :: 'V' :: _ => .version
  | '-' :: _ :: _ => .unknownArgument
  | _ => .unknownCommand

/-- Reads a command line. -/
def read : List String → Except UsageFault Command
  | [] => .error .nothing
  | "generate" :: words => (readGenerate words).map generate
  | "analyze" :: words => (readAnalyze words).map analyze
  | "help" :: words => .error (readHelp words)
  | "--" :: words => .error (readPlain words)
  | word :: _ => .error (readOther word)

end Command

end Trellis.CommandLine
