import Trellis.Config.Basic
import Trellis.Fault

/-! # Valid settings

`Config.check` refuses settings that must not be used. The rules are tried in a fixed order and the
first one broken is reported: the threshold, the greatest file size, the test suffix, the test
directory, the wrapper, the command. -/

namespace Trellis.Config

open Decimal (Binary)

/-- Whether a percentage lies between 0 and 100. -/
def isPercentage (x : Binary) : Bool := (Binary.ofNat 0).le x && x.le (Binary.ofNat 100)

/-- Whether a text can be a test suffix: a name without dots and separators. -/
def isSuffix (s : String) : Bool :=
  s ≠ "" && s.toList.all fun c => c ≠ '/' && c ≠ '\\' && c ≠ '.'

/-- Whether a text can be a test directory: a relative path that never goes up. -/
def isTestDirectory (s : String) : Bool :=
  s ≠ "" && !(Path.mk s).isAbsolute && !Text.contains s ".."

/-- Whether a command has a program, or none is set. -/
def hasProgram (command : List String) : Bool :=
  match command.head? with
  | some program => !Text.isBlankText program
  | none => true

/-- Whether an unset value or a set one that satisfies `p`. -/
def unsetOr {α : Type} (p : α → Bool) : Option α → Bool
  | none => true
  | some x => p x

/-- The rules that settings obey, each with the setting it concerns and its wording. -/
def rules (c : Config) : List (Bool × String × String) :=
  [(unsetOr isPercentage c.coverage.threshold,
      "coverage.threshold", "must be between 0 and 100"),
    (unsetOr (· ≠ 0) c.scan.maxFileSize,
      "scan.max_file_size", "must be greater than 0"),
    (unsetOr isSuffix c.generation.testSuffix,
      "generation.test_suffix", "must be a non-empty name without dots or separators"),
    (unsetOr isTestDirectory c.generation.testDirectory,
      "generation.test_directory", "must be a relative directory below the source file"),
    (c.generation.wrapperImport.isSome = c.generation.wrapperName.isSome,
      "generation.wrapper_import", "wrapper_import and wrapper_name must be set together"),
    (hasProgram c.coverage.command,
      "coverage.command", "program name must not be blank")]

/-- Whether settings obey all rules. -/
def isValid (c : Config) : Bool := (rules c).all (·.1)

/-- Settings that obey all rules, or the first rule that is broken. -/
def check (c : Config) : Except ConfigFault Config :=
  match (rules c).find? (! ·.1) with
  | some (_, field, reason) => .error (.invalid field reason)
  | none => .ok c

theorem check_eq_ok_iff (c d : Config) : check c = .ok d ↔ c.isValid = true ∧ d = c := by
  unfold check isValid
  cases h : (rules c).find? (! ·.1) with
  | none =>
    have hall : (rules c).all (·.1) = true := by
      simpa [List.find?_eq_none] using h
    simp only [Except.ok.injEq, hall, true_and]
    exact eq_comm
  | some r =>
    obtain ⟨ok, field, reason⟩ := r
    have hr := List.find?_some h
    have hm := List.mem_of_find?_eq_some h
    have hall : (rules c).all (·.1) = false := by
      rw [List.all_eq_false]
      exact ⟨_, hm, by simpa using hr⟩
    simp [hall]

end Trellis.Config
