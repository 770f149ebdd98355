import Trellis.Shell.Script
import Trellis.Store.Access

/-! # Sessions

What a running script works on: the file store, its variables, what was printed and what is left of
the time. A `Step` changes a session and may end the script early. -/

namespace Trellis.Shell

/-- What a running script works on. -/
structure Session where
  /-- The file store, with the directory in which the script runs. -/
  store : Store
  /-- The variables. -/
  bindings : List (String × String)
  /-- The arguments, that of number 0 first. -/
  arguments : List String
  /-- The number of scripts around this one. -/
  depth : Nat
  /-- The status of the last command. -/
  status : Nat
  /-- What is read. -/
  input : Content
  /-- What was printed. -/
  out : String
  /-- What was complained. -/
  err : String
  /-- How many milliseconds are left, if time is limited. -/
  left : Option Nat
  deriving Repr

/-- Why a script ends early. -/
inductive Stop where
  /-- It wants to, with a status. -/
  | exit (status : Nat)
  /-- It is killed. -/
  | killed
  /-- Time is up. -/
  | outOfTime
  deriving DecidableEq, Repr

/-- A step of a script. -/
abbrev Step := ExceptT Stop (StateM Session)

/-- Sets the status. -/
def setStatus (n : Nat) : Step Unit := modify fun s => { s with status := n }

/-- Prints a text. -/
def print (text : String) : Step Unit := modify fun s => { s with out := s.out ++ text }

/-- Changes the store, or fails. -/
def change (f : Store → Except FileFault Store) : Step Bool := do
  match f (← get).store with
  | .ok store => do
    modify fun s => { s with store := store }
    return true
  | .error _ => return false

/-- The text of a content, with a mark in place of bytes that are none. -/
def shownText (c : Content) : String :=
  match c with
  | .text t => t
  | .binary bytes => String.ofList (bytes.map fun b => if b < 128 then Char.ofNat b.toNat else '\uFFFD')

/-- The file that always is empty. -/
def nowhere : String := "/dev/null"

/-- What a file holds. -/
def readFile (p : String) : Step (Option Content) := do
  if p = nowhere then return some (.text "")
  else return ((← get).store.read ⟨p⟩).toOption

/-- Puts text into a file, at its end or in place of what it holds. -/
def putFile (p : String) (atEnd : Bool) (text : String) : Step Bool := do
  if p = nowhere then return true
  else
    change fun s =>
      let old : Content := if atEnd then ((s.read ⟨p⟩).toOption).getD (.text "") else .text ""
      s.write ⟨p⟩ (old.append (.text text))

end Trellis.Shell
