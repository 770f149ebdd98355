import Trellis.Path

/-! # Faults

Everything that can go wrong, by cause. Each kind of fault has one code, by which reports can be
searched, and one function that words its message.

* `FileFault` is what the file store refuses.
* `LoadFault` concerns one source, `WriteFault` one target; they end up in the report.
* `RunFault` and `CoverageFault` stop the coverage loop of one file.
* `ConfigFault` and `EnvironmentFault` stop the whole run. -/

namespace Trellis

/-- Why the file store refuses an operation. -/
inductive FileFault where
  /-- Nothing is there. -/
  | notFound
  /-- A file stands where a directory is needed. -/
  | notADirectory
  /-- A directory stands where a file is needed. -/
  | isADirectory
  /-- Something is there already. -/
  | exists
  /-- A chain of symbolic links has no end. -/
  | tooManyLinks
  /-- A directory is not empty. -/
  | notEmpty
  /-- The caller has no right to do this. -/
  | denied
  /-- A name is longer than names may be. -/
  | nameTooLong
  /-- The content is no text. -/
  | notText
  /-- A path holds a character that no path may hold. -/
  | nulInPath
  /-- Any other refusal, in the words of the store. -/
  | other (message : String)
  deriving DecidableEq, Repr

/-- The wording of a refusal. -/
def FileFault.message : FileFault → String
  | notFound => "No such file or directory (os error 2)"
  | notADirectory => "Not a directory (os error 20)"
  | isADirectory => "Is a directory (os error 21)"
  | .exists => "File exists (os error 17)"
  | tooManyLinks => "Too many levels of symbolic links (os error 40)"
  | notEmpty => "Directory not empty (os error 39)"
  | denied => "Permission denied (os error 13)"
  | nameTooLong => "File name too long (os error 36)"
  | notText => "stream did not contain valid UTF-8"
  | nulInPath => "file name contained an unexpected NUL byte"
  | other message => message

/-- Why a source cannot be analyzed. -/
inductive LoadFault where
  /-- There is no such file. -/
  | notFound (path : Path)
  /-- The extension names no dialect that is fit. -/
  | unsupportedExtension (path : Path) (extension : String)
  /-- The file cannot be read. -/
  | unreadable (path : Path) (cause : FileFault)
  /-- The text is not of its dialect. -/
  | parseFailed (path : Path)
  deriving DecidableEq, Repr

namespace LoadFault

/-- The code of load faults. -/
def code : String := "SOURCE_UNREADABLE"

/-- The file that a fault concerns. -/
def path : LoadFault → Path
  | notFound p | unsupportedExtension p _ | unreadable p _ | parseFailed p => p

/-- The wording of a load fault. -/
def message : LoadFault → String
  | notFound p => "Source file not found: " ++ p.text
  | unsupportedExtension p ext => "Unsupported source extension '" ++ ext ++ "' for " ++ p.text
  | unreadable p cause => "Failed to read " ++ p.text ++ ": " ++ cause.message
  | parseFailed p => "Syntax errors in " ++ p.text

end LoadFault

/-- Why settings cannot be used. -/
inductive ConfigFault where
  /-- There is no such file. -/
  | fileNotFound (path : String)
  /-- The text is not in the settings' format. -/
  | parseError (path : String) (reason : String)
  /-- A setting has a value that it must not have. -/
  | invalid (field : String) (reason : String)
  deriving DecidableEq, Repr

namespace ConfigFault

/-- The code of config faults. -/
def code : String := "CONFIG_ERROR"

/-- The wording of a config fault. -/
def message : ConfigFault → String
  | fileNotFound p => "Config file not found: " ++ p
  | parseError p reason => "Config parse error in " ++ p ++ ": " ++ reason
  | invalid field reason => "Config validation failed for " ++ field ++ ": " ++ reason

end ConfigFault

/-- Why no run is possible at all. -/
inductive EnvironmentFault where
  /-- A dialect cannot be read. -/
  | grammarUnavailable (dialect : String) (reason : String)
  /-- The root is no directory. -/
  | rootUnavailable (path : String) (reason : String)
  deriving DecidableEq, Repr

namespace EnvironmentFault

/-- The code of environment faults. -/
def code : String := "ENVIRONMENT_UNAVAILABLE"

/-- The wording of an environment fault. -/
def message : EnvironmentFault → String
  | grammarUnavailable d reason => "Grammar for " ++ d ++ " could not be loaded: " ++ reason
  | rootUnavailable p reason => "Project root " ++ p ++ " is not accessible: " ++ reason

end EnvironmentFault

/-- Why a test run is no success. -/
inductive RunFault where
  /-- There is no program to run. -/
  | emptyCommand
  /-- The program cannot be started. -/
  | spawn (command : String) (cause : FileFault)
  /-- The program ended with a status other than zero. -/
  | nonZeroExit (command : String) (status : Int)
  /-- The program took too long. -/
  | timedOut (command : String) (seconds : Nat)
  deriving DecidableEq, Repr

namespace RunFault

/-- The code of run faults. -/
def code : String := "RUNNER_INVOCATION_FAILED"

/-- The wording of a run fault. -/
def message : RunFault → String
  | emptyCommand => "Test runner command is empty"
  | spawn c cause => "Failed to spawn test runner '" ++ c ++ "': " ++ cause.message
  | nonZeroExit c status => "Test runner '" ++ c ++ "' exited with status " ++ toString status
  | timedOut c seconds => "Test runner '" ++ c ++ "' timed out after " ++ toString seconds ++ "s"

end RunFault

/-- Why no coverage figure can be had. -/
inductive CoverageFault where
  /-- There is no summary. -/
  | summaryMissing (path : Path)
  /-- The summary is not in its format. -/
  | malformed (path : Path) (reason : String)
  /-- The summary has no entry for the source. -/
  | noEntry (source : Path)
  /-- The entry has no figure. -/
  | notANumber (source : Path) (value : String)
  /-- An old summary cannot be removed. -/
  | reset (path : Path) (cause : FileFault)
  deriving DecidableEq, Repr

namespace CoverageFault

/-- The code of coverage faults. -/
def code : String := "COVERAGE_UNREADABLE"

/-- The wording of a coverage fault. -/
def message : CoverageFault → String
  | summaryMissing p => "Coverage summary not found at " ++ p.text
  | malformed p reason => "Coverage summary " ++ p.text ++ " is malformed: " ++ reason
  | noEntry s => "Coverage summary has no entry for " ++ s.text
  | notANumber s v => "Line coverage for " ++ s.text ++ " is not a number: " ++ v
  | reset p cause => "Failed to clear stale coverage summary " ++ p.text ++ ": " ++ cause.message

end CoverageFault

/-- Why a module cannot be written. -/
inductive WriteFault where
  /-- The target is written by hand. -/
  | manualTestPresent (path : Path)
  /-- The content does not carry the marker. -/
  | missingMarker (path : Path)
  /-- The file store refuses. -/
  | store (path : Path) (cause : FileFault)
  deriving DecidableEq, Repr

namespace WriteFault

/-- The code of write faults. -/
def code : String := "WRITE_ERROR"

/-- The wording of a write fault. -/
def message : WriteFault → String
  | manualTestPresent p => "Refusing to overwrite hand-written test " ++ p.text
  | missingMarker p => "Generated content for " ++ p.text ++ " lacks the generated-file marker"
  | store p cause => "I/O error writing " ++ p.text ++ ": " ++ cause.message

end WriteFault

/-- A fault in a report: its code in brackets, then its message. -/
def reportText (code message : String) : String := "[" ++ code ++ "] " ++ message

end Trellis
