import Trellis.Config.Layer
import Trellis.Toml.Read
import Trellis.Toml.Write

/-! # Settings as text

* `Config.ofToml?` takes the settings out of a document. Unknown names are passed over; a setting
  of the wrong type makes the whole document useless. A section may also be written as an array of
  its settings in order.
* `Config.parse` reads a text and checks the settings.
* `Config.toToml?` writes all settings that are set, and every list; it fails only for whole numbers
  that the format cannot hold. -/

namespace Trellis.Config

open Decimal (Binary)

/-! ### Reading -/

/-- How a setting's value is read; `none` for a value of the wrong type. -/
abbrev Reader (α : Type) := Toml → Option α

/-- A text. -/
def readString : Reader String
  | .string s => some s
  | _ => none

/-- A truth value. -/
def readBool : Reader Bool
  | .boolean b => some b
  | _ => none

/-- A whole number that is not negative. -/
def readNat : Reader Nat
  | .integer n => if n < 0 then none else some n.toNat
  | _ => none

/-- A number. -/
def readBinary : Reader Binary
  | .integer n => some (Binary.ofInt n)
  | .float x => some x
  | _ => none

/-- Texts in order. -/
def readStrings : Reader (List String)
  | .array items => items.mapM readString
  | _ => none

/-- A framework by its exact name; the name may also be the only key of a table, with an empty
value. -/
def readFramework : Reader Framework
  | .string "jest" => some .jest
  | .string "vitest" => some .vitest
  | .table [("jest", v)] => if isEmptyValue v then some .jest else none
  | .table [("vitest", v)] => if isEmptyValue v then some .vitest else none
  | _ => none
where
  /-- Whether a value holds nothing. -/
  isEmptyValue : Toml → Bool
    | .table [] => true
    | .array [] => true
    | _ => false

/-- Where the settings of a section are looked up: by name, or by place in an array. -/
def settingAt? (v : Toml) (place : Nat) (name : String) : Option Toml :=
  match v with
  | .table entries => Toml.lookup name entries
  | .array items => items[place]?
  | _ => none

/-- Reads a setting that may be unset. -/
def readSetting {α : Type} (v : Toml) (read : Reader α) (place : Nat) (name : String) :
    Option (Option α) :=
  match settingAt? v place name with
  | none => some none
  | some x => (read x).map some

/-- Reads a setting that is a list. -/
def readList (v : Toml) (place : Nat) (name : String) : Option (List String) :=
  match settingAt? v place name with
  | none => some []
  | some x => readStrings x

/-- Whether a value can hold settings. -/
def isSection : Toml → Bool
  | .table _ => true
  | .array _ => true
  | _ => false

/-- The section on files. -/
def Scan.ofToml? (v : Toml) : Option Scan := do
  if !isSection v then none else
  let maxFileSize ← readSetting v readNat 0 "max_file_size"
  let includes ← readList v 1 "include"
  let extraIgnore ← readList v 2 "extra_ignore"
  let followSymlinks ← readSetting v readBool 3 "follow_symlinks"
  let extensions ← readList v 4 "extensions"
  let testDirNames ← readList v 5 "test_dir_names"
  let testFileMarkers ← readList v 6 "test_file_markers"
  some { maxFileSize, includes, extraIgnore, followSymlinks, extensions, testDirNames,
         testFileMarkers }

/-- The section on modules. -/
def Generation.ofToml? (v : Toml) : Option Generation := do
  if !isSection v then none else
  let framework ← readSetting v readFramework 0 "framework"
  let variants ← readSetting v readBool 1 "variants"
  let maxButtons ← readSetting v readNat 2 "max_buttons"
  let maxInputs ← readSetting v readNat 3 "max_inputs"
  let testSuffix ← readSetting v readString 4 "test_suffix"
  let testDirectory ← readSetting v readString 5 "test_directory"
  let renderModule ← readSetting v readString 6 "render_module"
  let userEventModule ← readSetting v readString 7 "user_event_module"
  let wrapperImport ← readSetting v readString 8 "wrapper_import"
  let wrapperName ← readSetting v readString 9 "wrapper_name"
  some { framework, variants, maxButtons, maxInputs, testSuffix, testDirectory, renderModule,
         userEventModule, wrapperImport, wrapperName }

/-- The section on coverage. -/
def Coverage.ofToml? (v : Toml) : Option Coverage := do
  if !isSection v then none else
  let enabled ← readSetting v readBool 0 "enabled"
  let threshold ← readSetting v readBinary 1 "threshold"
  let command ← readList v 2 "command"
  let summaryPath ← readSetting v readString 3 "summary_path"
  let timeoutSeconds ← readSetting v readNat 4 "timeout_seconds"
  let inheritOutput ← readSetting v readBool 5 "inherit_output"
  some { enabled, threshold, command, summaryPath, timeoutSeconds, inheritOutput }

/-- A section of a document, or the empty one. -/
def readSection {α : Type} (document : List (String × Toml)) (read : Toml → Option α) (empty : α)
    (name : String) : Option α :=
  match Toml.lookup name document with
  | none => some empty
  | some v => read v

/-- The settings in a document. -/
def ofToml? (document : List (String × Toml)) : Option Config := do
  let scan ← readSection document Scan.ofToml? .empty "scan"
  let generation ← readSection document Generation.ofToml? .empty "generation"
  let coverage ← readSection document Coverage.ofToml? .empty "coverage"
  some { scan, generation, coverage }

/-- The settings in a text that comes from `path`, not checked. -/
def readText (path text : String) : Except ConfigFault Config :=
  match Toml.read? text with
  | none => .error (.parseError path "not a settings document")
  | some document =>
    match ofToml? document with
    | none => .error (.parseError path "a setting has the wrong type")
    | some c => .ok c

/-- The checked settings in a text. -/
def parse (text : String) : Except ConfigFault Config := do
  check (← readText "<string>" text)

/-! ### Writing -/

/-- A whole number as a value, when the format can hold it. -/
def natValue? (n : Nat) : Option String := if n < Nat.pow 2 63 then some (toString n) else none

/-- The line of a setting that is set. -/
def settingLine {α : Type} (key : String) (write : α → String) : Option α → String
  | none => ""
  | some x => Toml.line key (write x)

/-- The line of a whole number that is set. -/
def natLine? (key : String) : Option Nat → Option String
  | none => some ""
  | some n => (natValue? n).map (Toml.line key)

/-- The lines of the section on files. -/
def Scan.lines? (s : Scan) : Option String := do
  let maxFileSize ← natLine? "max_file_size" s.maxFileSize
  some (maxFileSize ++
    Toml.line "include" (Toml.textsValue s.includes) ++
    Toml.line "extra_ignore" (Toml.textsValue s.extraIgnore) ++
    settingLine "follow_symlinks" Toml.truthValue s.followSymlinks ++
    Toml.line "extensions" (Toml.textsValue s.extensions) ++
    Toml.line "test_dir_names" (Toml.textsValue s.testDirNames) ++
    Toml.line "test_file_markers" (Toml.textsValue s.testFileMarkers))

/-- The lines of the section on modules. -/
def Generation.lines? (g : Generation) : Option String := do
  let maxButtons ← natLine? "max_buttons" g.maxButtons
  let maxInputs ← natLine? "max_inputs" g.maxInputs
  some (settingLine "framework" (fun f => Toml.textValue f.name) g.framework ++
    settingLine "variants" Toml.truthValue g.variants ++ maxButtons ++ maxInputs ++
    settingLine "test_suffix" Toml.textValue g.testSuffix ++
    settingLine "test_directory" Toml.textValue g.testDirectory ++
    settingLine "render_module" Toml.textValue g.renderModule ++
    settingLine "user_event_module" Toml.textValue g.userEventModule ++
    settingLine "wrapper_import" Toml.textValue g.wrapperImport ++
    settingLine "wrapper_name" Toml.textValue g.wrapperName)

/-- The lines of the section on coverage. -/
def Coverage.lines? (c : Coverage) : Option String := do
  let timeoutSeconds ← natLine? "timeout_seconds" c.timeoutSeconds
  some (settingLine "enabled" Toml.truthValue c.enabled ++
    settingLine "threshold" Binary.plain c.threshold ++
    Toml.line "command" (Toml.textsValue c.command) ++
    settingLine "summary_path" Toml.textValue c.summaryPath ++ timeoutSeconds ++
    settingLine "inherit_output" Toml.truthValue c.inheritOutput)

/-- All settings as a text. -/
def toToml? (c : Config) : Option String := do
  let scan ← c.scan.lines?
  let generation ← c.generation.lines?
  let coverage ← c.coverage.lines?
  some ("[scan]\n" ++ scan ++ "\n[generation]\n" ++ generation ++ "\n[coverage]\n" ++ coverage)

/-- All settings as a text, or the fault of a number that cannot be written. -/
def write (c : Config) : Except ConfigFault String :=
  match c.toToml? with
  | some text => .ok text
  | none => .error (.parseError "<serialization>" "a number is out of range")

end Trellis.Config
