import Trellis.Decimal.Digits
import Trellis.Text.Search

/-! # Arguments

How the words of a command line are told apart.

* Words that start with `--` are options; one that takes a value takes it after `=` or as the next
  word. After a lone `--` every word is a value.
* `Arguments.read` reads the words one by one and stops at the first that is wrong. A value is
  judged only when its option is complete, that is, when the next option or value of another kind
  begins; until then a later word may fail first. -/

namespace Trellis.CommandLine

/-- Why a command line is not carried out. -/
inductive UsageFault where
  /-- It asks for help. -/
  | help
  /-- It asks for the version. -/
  | version
  /-- It asks for nothing. -/
  | nothing
  /-- There is no such command. -/
  | unknownCommand
  /-- There is no such option, or no place for a value. -/
  | unknownArgument
  /-- An argument that must be there is missing. -/
  | missingArgument
  /-- Two arguments exclude each other, or one is there twice. -/
  | conflict
  /-- An option that takes no value has one. -/
  | unwantedValue
  /-- A value is missing or empty. -/
  | emptyValue
  /-- A value is not of its form. -/
  | malformedValue
  deriving DecidableEq, Repr

/-- The status with which the program ends. -/
def UsageFault.exit : UsageFault → Nat
  | help | version => 0
  | _ => 2

/-- The form of a value. -/
inductive ValueForm where
  /-- Any text. -/
  | text
  /-- A path, which is not empty. -/
  | path
  /-- A number. -/
  | number
  deriving DecidableEq, Repr

/-- Judges a value. -/
def ValueForm.check (v : String) : ValueForm → Except UsageFault Unit
  | text => .ok ()
  | path => if v = "" then .error .emptyValue else .ok ()
  | number =>
    if (Decimal.Binary.read? v.toList).isSome then .ok () else .error .malformedValue

/-- The arguments that a command takes. -/
structure Signature where
  /-- The options without a value. -/
  flags : List String
  /-- The options with a value, each with its form. -/
  options : List (String × ValueForm)
  /-- Whether any number of paths may be given, not only one. -/
  manyPaths : Bool
  deriving DecidableEq, Repr

/-- The arguments that were given. -/
structure Arguments where
  /-- The options without a value. -/
  flags : List String
  /-- The options with a value. -/
  options : List (String × String)
  /-- The paths in order. -/
  paths : List String
  deriving DecidableEq, Repr

namespace Arguments

/-- Whether an option without a value is given. -/
def has (a : Arguments) (flag : String) : Bool := a.flags.contains flag

/-- The value of an option. -/
def value? (a : Arguments) (option : String) : Option String := a.options.lookup option

/-- What is not complete yet. -/
inductive Pending where
  /-- Nothing. -/
  | none
  /-- An option with its value, if that has come. -/
  | option (name : String) (form : ValueForm) (value : Option String)
  /-- Paths one after the other. -/
  | paths (values : List String)
  deriving DecidableEq, Repr

/-- Where reading stands. -/
structure Reading where
  /-- The arguments that are complete. -/
  complete : Arguments
  /-- What is not complete yet. -/
  pending : Pending
  deriving DecidableEq, Repr

/-- Nothing read. -/
def Reading.start : Reading := ⟨⟨[], [], []⟩, .none⟩

namespace Reading

/-- Adds an option with its value. -/
def addOption (r : Reading) (name : String) (form : ValueForm) (v : String) :
    Except UsageFault Reading := do
  if (r.complete.value? name).isSome then throw .conflict
  form.check v
  return ⟨{ r.complete with options := r.complete.options ++ [(name, v)] }, .none⟩

/-- Completes what is pending. -/
def resolve (r : Reading) : Except UsageFault Reading :=
  match r.pending with
  | .none => .ok r
  | .option _ _ none => .error .emptyValue
  | .option name form (some v) => addOption r name form v
  | .paths vs => do
    for v in vs do ValueForm.path.check v
    return ⟨{ r.complete with paths := r.complete.paths ++ vs }, .none⟩

/-- Adds an option without a value. -/
def addFlag (r : Reading) (name : String) : Except UsageFault Reading := do
  let r ← r.resolve
  if r.complete.has name then throw .conflict
  return ⟨{ r.complete with flags := r.complete.flags ++ [name] }, .none⟩

/-- Asks for help once everything before is complete. -/
def askHelp (r : Reading) : Except UsageFault Reading := do
  let _ ← r.resolve
  throw .help

/-- Takes in an option. -/
def addLong (g : Signature) (r : Reading) (name : String) (attached : Option String) :
    Except UsageFault Reading :=
  if name = "help" then
    if attached.isSome then .error .unwantedValue else r.askHelp
  else if g.flags.contains name then
    if attached.isSome then .error .unwantedValue else r.addFlag name
  else
    match g.options.lookup name with
    | none => .error .unknownArgument
    | some form => do
      let r ← r.resolve
      match attached with
      | some v => r.addOption name form v
      | none => return { r with pending := .option name form none }

/-- Whether there is no place for another path. -/
def isFull (g : Signature) (r : Reading) : Bool :=
  !g.manyPaths &&
    (!r.complete.paths.isEmpty ||
      match r.pending with
      | .paths _ => true
      | _ => false)

/-- Takes in a path. -/
def addPath (g : Signature) (r : Reading) (v : String) : Except UsageFault Reading :=
  if r.isFull g then .error .unknownArgument
  else
    match r.pending with
    | .paths vs => .ok { r with pending := .paths (vs ++ [v]) }
    | _ => do
      let r ← r.resolve
      return { r with pending := .paths [v] }

/-- Takes in a word that is no option. -/
def addWord (g : Signature) (r : Reading) (v : String) : Except UsageFault Reading :=
  match r.pending with
  | .option name form none => .ok { r with pending := .option name form (some v) }
  | _ => r.addPath g v

end Reading

/-- The name and the attached value of an option that is spelled so after its dashes. -/
def splitOption (s : List Char) : String × Option String :=
  (String.ofList (s.takeWhile (· ≠ '=')),
    match s.dropWhile (· ≠ '=') with
    | _ :: v => some (String.ofList v)
    | [] => none)

/-- Reads words; `plain` tells whether all of them are values. -/
def readWords (g : Signature) : (plain : Bool) → Reading → List String → Except UsageFault Reading
  | _, r, [] => r.resolve
  | true, r, w :: ws => do readWords g true (← r.addPath g w) ws
  | false, r, w :: ws =>
    match w.toList with
    | ['-', '-'] => readWords g true r ws
    | '-' :: '-' :: s => do
      let (name, attached) := splitOption s
      readWords g false (← r.addLong g name attached) ws
    | '-' :: 'h' :: _ => r.askHelp
    | '-' :: _ :: _ => .error .unknownArgument
    | _ => do readWords g false (← r.addWord g w) ws

/-- Reads the words after a command. -/
def read (g : Signature) (words : List String) : Except UsageFault Arguments :=
  (readWords g false .start words).map (·.complete)

end Arguments

end Trellis.CommandLine
