import Trellis.Shell.Program

/-! # Running scripts

What the commands of a script do to a session.

* A word is expanded: variables and what scripts print are put in, and outside of quotes the result
  is split at blanks.
* `Command.run` runs a command. A redirection that cannot be made fails the command without running
  it; a program that is not known fails with status 127.
* `launch?` starts a program from outside of any script. -/

namespace Trellis.Shell

/-! ### Words -/

/-- Whether a character splits words. -/
def splits (c : Char) : Bool := c = ' ' || c = '\t' || c = '\n'

/-- Words as they are put together: those that are done, and the one that is open, both from the
end on. -/
structure Fields where
  /-- The words that are done, the last one first. -/
  done : List (List Char)
  /-- The characters of the open word, the last one first. -/
  current : Option (List Char)

namespace Fields

/-- Closes the open word. -/
def close (f : Fields) : Fields :=
  match f.current with
  | some w => ⟨w :: f.done, none⟩
  | none => f

/-- Adds characters to the open word. -/
def add (f : Fields) (s : List Char) : Fields := { f with current := some (s.reverse ++ f.current.getD []) }

/-- Adds text that is split at blanks. -/
def addSplit (f : Fields) (s : List Char) : Fields :=
  s.foldl (fun f c => if splits c then f.close else f.add [c]) f

/-- Adds words as they are: the first one to the open word, the last one stays open. -/
def addWords (f : Fields) : List (List Char) → Fields
  | [] => f
  | [w] => f.add w
  | w :: ws => addWords (f.add w).close ws

/-- The words in order. -/
def toList (f : Fields) : List String := f.close.done.reverse.map fun w => String.ofList w.reverse

end Fields

/-- The value of a variable. -/
def valueOf (s : Session) (name : String) : String :=
  if name = "?" then toString s.status
  else if name = "$" then Program.ownProcess s
  else if name = "#" then toString (s.arguments.length - 1)
  else if name = "@" || name = "*" then String.intercalate " " (s.arguments.drop 1)
  else if name.length = 1 && name.all Char.isDigit then
    (s.arguments[Nat.ofDigitChars 10 name.toList 0]?).getD ""
  else (s.bindings.lookup name).getD ""

/-- Sets a variable. -/
def setVariable (name value : String) : Step Unit :=
  modify fun s => { s with bindings := (name, value) :: s.bindings.filter (·.1 ≠ name) }

/-- Adds a piece to words; `printed` is what a script prints. -/
def addPiece (printed : List Char → Step String) (f : Fields) : Piece → Step Fields
  | .plain s => return f.add s
  | .quoted s => return f.add s
  | .variable true "@" => return f.addWords (((← get).arguments.drop 1).map String.toList)
  | .variable inQuotes name => do
    let value := (valueOf (← get) name).toList
    return if inQuotes then f.add value else f.addSplit value
  | .output inQuotes script => do
    let value := (← printed script).toList
    return if inQuotes then f.add value else f.addSplit value

/-- The words that a word stands for. -/
def expandWords (printed : List Char → Step String) (w : Word) : Step (List String) := do
  return (← w.foldlM (addPiece printed) ⟨[], none⟩).toList

/-- The text that a word stands for where nothing is split. -/
def expandText (printed : List Char → Step String) (w : Word) : Step String := do
  let unsplit : Word := w.map fun piece =>
    match piece with
    | .variable _ name => .variable true name
    | .output _ script => .output true script
    | piece => piece
  return String.intercalate " " (← expandWords printed unsplit)

/-! ### Streams -/

/-- Where a stream goes. -/
inductive Sink where
  /-- Where a stream of the surrounding command goes. -/
  | stream (s : Stream)
  /-- To the end of a file. -/
  | file (p : String)

/-- Where the streams of a command go. -/
structure Sinks where
  /-- Where it prints. -/
  out : Sink
  /-- Where it complains. -/
  err : Sink

/-- Where one stream goes. -/
def Sinks.of (s : Sinks) : Stream → Sink
  | .out => s.out
  | .err => s.err

/-- Sends a stream elsewhere. -/
def Sinks.set (s : Sinks) (stream : Stream) (sink : Sink) : Sinks :=
  match stream with
  | .out => { s with out := sink }
  | .err => { s with err := sink }

/-- Sends text where a stream goes. -/
def Sink.send (text : String) : Sink → Step Unit
  | .stream .out => print text
  | .stream .err => modify fun s => { s with err := s.err ++ text }
  | .file p => discard (putFile p true text)

/-- Makes redirections, one after the other; gives nothing when one fails. -/
def openSinks (expand : Word → Step String) : List Redirection → Sinks → Step (Option Sinks)
  | [], sinks => return some sinks
  | .toStream stream target :: rs, sinks => openSinks expand rs (sinks.set stream (sinks.of target))
  | .toFile stream atEnd w :: rs, sinks => do
    let p ← expand w
    if ← putFile p atEnd "" then openSinks expand rs (sinks.set stream (.file p)) else return none
  | .fromFile w :: rs, sinks => do
    match ← readFile (← expand w) with
    | some c => do
      modify fun s => { s with input := c }
      openSinks expand rs sinks
    | none => return none

/-- Runs a step with its streams redirected. -/
def withRedirections (expand : Word → Step String) (rs : List Redirection) (f : Step Unit) :
    Step Unit := do
  if rs.isEmpty then f
  else
    let before ← get
    match ← openSinks expand rs ⟨.stream .out, .stream .err⟩ with
    | none => do
      modify fun s => { s with input := before.input }
      setStatus 2
    | some sinks => do
      modify fun s => { s with out := "", err := "" }
      let stop ← try f; pure none catch e => pure (some e)
      let after ← get
      modify fun s => { s with input := before.input, out := before.out, err := before.err }
      sinks.out.send after.out
      sinks.err.send after.err
      match stop with
      | some e => throw e
      | none => return ()

/-- What a step prints. -/
def printedBy (f : Step Unit) : Step String := do
  let before ← get
  modify fun s => { s with out := "" }
  f
  let after ← get
  modify fun s => { s with out := before.out }
  return after.out

/-! ### Scripts within scripts -/

/-- Runs a step that keeps its variables and its directory to itself and may exit. -/
def apart (f : Step Unit) : Step Unit := do
  let before ← get
  try f catch
    | .exit n => setStatus n
    | e => throw e
  modify fun s => { s with
    bindings := before.bindings, arguments := before.arguments, depth := before.depth
    store := { s.store with cwd := before.store.cwd } }

/-- The status of a script that was killed. -/
def killedStatus : Nat := 137

/-- The text without line ends at its end. -/
def withoutLineEnds (s : String) : String :=
  String.ofList (s.toList.reverse.dropWhile (· = '\n')).reverse

section

variable (go : Command → Step Unit)

/-- Runs a script. One that cannot be read fails. -/
def runText (script : String) : Step Unit :=
  match Command.read? script with
  | some c => go c
  | none => throw (.exit 2)

/-- What a script prints, without line ends at its end. -/
def printedByText (script : List Char) : Step String := do
  return withoutLineEnds (← printedBy (apart (runText go (String.ofList script))))

/-- Runs a script that is given as the arguments of a shell say. -/
def runShell : List String → Step Unit
  | "-c" :: script :: names => do
    modify fun s => { s with arguments := if names.isEmpty then ["sh"] else names }
    runText go script
  | [] => do runText go (shownText (← get).input)
  | file :: args => do
    match ← readFile file with
    | some c => do
      modify fun s => { s with arguments := file :: args }
      runText go (shownText c)
    | none => throw (.exit 2)

/-- Runs a shell within a script. -/
def runInner (args : List String) : Step Unit := do
  let before ← get
  modify fun s => { s with depth := s.depth + 1 }
  try apart (runShell go args) catch
    | .killed => do
      modify fun s => { s with
        bindings := before.bindings, arguments := before.arguments
        store := { s.store with cwd := before.store.cwd } }
      setStatus killedStatus
    | e => throw e
  modify fun s => { s with depth := before.depth }

/-- The names of shells. -/
def shellNames : List String := ["sh", "dash"]

/-- The directories of programs. -/
def programDirectories : List String := ["/bin/", "/usr/bin/"]

/-- The name of a program without the directory of programs. -/
def programName (name : String) : String :=
  match programDirectories.find? (Text.startsWith name ·) with
  | some dir => String.ofList (name.toList.drop dir.length)
  | none => name

/-- Changes the directory. -/
def changeDirectory (args : List String) : Step Unit := do
  match (← get).store.locate true ⟨args.headD "/"⟩ with
  | .ok (.at place .directory) => do
    modify fun s => { s with store := { s.store with cwd := place } }
    setStatus 0
  | _ => setStatus 2

/-- Calls a program by its name, or what only scripts know. -/
def call (name : String) (args : List String) : Step Unit := do
  match name with
  | ":" => setStatus 0
  | "exit" =>
    match args with
    | [] => throw (.exit (← get).status)
    | a :: _ => throw (.exit ((a.toNat?.map (· % 256)).getD 2))
  | "cd" => changeDirectory args
  | "export" => do
    for a in args do
      match Command.assignment? [.plain a.toList] with
      | some (n, [.plain value]) => setVariable n (String.ofList value)
      | some (n, _) => setVariable n ""
      | none => pure ()
    setStatus 0
  | _ =>
    let program := programName name
    if shellNames.contains program then runInner go args
    else
      match Program.run? program args with
      | some f => f
      | none => setStatus (if name.toList.contains '/' && (← get).store.isFile ⟨name⟩ then 126 else 127)

/-- Runs a simple command. -/
def runSimple (assignments : List (String × Word)) (words : List Word) (rs : List Redirection) :
    Step Unit := do
  let printed := printedByText go
  setStatus 0
  match (← words.mapM (expandWords printed)).flatten with
  | [] => do
    for a in assignments do setVariable a.1 (← expandText printed a.2)
    withRedirections (expandText printed) rs (pure ())
  | name :: args => do
    let before := (← get).bindings
    for a in assignments do setVariable a.1 (← expandText printed a.2)
    withRedirections (expandText printed) rs (call go name args)
    if !assignments.isEmpty then modify fun s => { s with bindings := before }

end

/-- Whether the last command succeeded. -/
def succeeded : Step Bool := return (← get).status = 0

/-- Runs a command; `n` bounds how deep commands are nested. -/
def Command.run : (n : Nat) → Command → Step Unit
  | 0, _ => throw .outOfTime
  | n + 1, c =>
    match c with
    | .nothing => setStatus 0
    | .simple assignments words rs => runSimple (run n) assignments words rs
    | .sequence first second => do
      run n first
      run n second
    | .both first second => do
      run n first
      if ← succeeded then run n second
    | .either first second => do
      run n first
      unless ← succeeded do run n second
    | .negated c => do
      run n c
      setStatus (if ← succeeded then 1 else 0)
    | .pipe first second => do
      let before ← get
      let text ← printedBy (Shell.apart (run n first))
      modify fun s => { s with input := .text text }
      Shell.apart (run n second)
      modify fun s => { s with input := before.input }
    | .conditional condition yes no => do
      run n condition
      if ← succeeded then run n yes
      else do
        setStatus 0
        run n no
    | .redirected c rs =>
      Shell.withRedirections (expandText (printedByText (run n))) rs (run n c)
    | .apart c => Shell.apart (run n c)

/-- How deep commands may be nested. -/
def nestingLimit : Nat := 10000

/-- Starts a program by its name, from outside of any script. -/
def launch? (name : String) (args : List String) : Option (Step Unit) :=
  let program := programName name
  if shellNames.contains program then some (runShell (Command.run nestingLimit) args)
  else Program.run? program args

end Trellis.Shell
