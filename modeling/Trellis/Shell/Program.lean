import Trellis.Shell.Session

/-! # Programs

The programs that scripts may call. They do what is usual under their names, with the most usual
options; none but `sleep` takes any time, and complaints have no text.

* `Program.run?` calls a program by its name. -/

namespace Trellis.Shell

namespace Program

/-! ### Texts -/

/-- The character of an escape with one letter. -/
def escape? (c : Char) : Option Char :=
  if c = 'n' then some '\n' else if c = 't' then some '\t' else if c = 'r' then some '\r'
  else if c = '\\' then some '\\' else if c = 'a' then some (Char.ofNat 7)
  else if c = 'b' then some (Char.ofNat 8) else if c = 'f' then some (Char.ofNat 12)
  else if c = 'v' then some (Char.ofNat 11) else none

/-- A text with its escapes replaced; whether it goes on after that. -/
def unescape : List Char → List Char × Bool
  | [] => ([], true)
  | ['\\'] => (['\\'], true)
  | '\\' :: c :: s =>
    if c = 'c' then ([], false)
    else
      let (t, more) := unescape s
      match escape? c with
      | some d => (d :: t, more)
      | none => ('\\' :: c :: t, more)
  | c :: s =>
    let (t, more) := unescape s
    (c :: t, more)

/-- Prints words with blanks between them, and ends the line unless told otherwise. -/
def echo (args : List String) : Step Unit := do
  let (words, ends) := match args with
    | "-n" :: rest => (rest, false)
    | words => (words, true)
  let (text, more) := unescape (String.intercalate " " words).toList
  print (String.ofList (if ends && more then text ++ ['\n'] else text))
  setStatus 0

/-- Fills a format once; gives the words that are left and whether one was used. -/
def fill : List Char → List String → List Char × List String × Bool
  | [], args => ([], args, false)
  | '%' :: '%' :: s, args =>
    let (t, args, used) := fill s args
    ('%' :: t, args, used)
  | '%' :: c :: s, args =>
    if c = 's' || c = 'd' || c = 'i' || c = 'b' then
      let value := match args with
        | a :: _ => a.toList
        | [] => if c = 's' || c = 'b' then [] else ['0']
      let (t, args, _) := fill s args.tail
      ((if c = 'b' then (unescape value).1 else value) ++ t, args, true)
    else
      let (t, args, used) := fill s args
      ('%' :: c :: t, args, used)
  | '\\' :: c :: s, args =>
    let (t, args, used) := fill s args
    match escape? c with
    | some d => (d :: t, args, used)
    | none => if c = '"' then ('"' :: t, args, used) else ('\\' :: c :: t, args, used)
  | c :: s, args =>
    let (t, args, used) := fill s args
    (c :: t, args, used)

/-- Fills a format as long as there are words left for it; `n` bounds how often. -/
def fillAll (format : List Char) : (n : Nat) → List String → List Char
  | 0, _ => []
  | n + 1, args =>
    let (t, left, used) := fill format args
    if used && !left.isEmpty then t ++ fillAll format n left else t

/-- Prints words in a format. -/
def printf (args : List String) : Step Unit := do
  match args with
  | [] => setStatus 2
  | format :: words => do
    print (String.ofList (fillAll format.toList (words.length + 1) words))
    setStatus 0

/-! ### Patterns -/

/-- Whether a text starts with what a pattern describes; `n` bounds the steps. -/
def startsLike : (n : Nat) → List Char → List Char → Bool
  | 0, _, _ => false
  | _ + 1, [], _ => true
  | _ + 1, ['$'], s => s.isEmpty
  | n + 1, '\\' :: c :: p, s =>
    match s with
    | d :: s => c = d && startsLike n p s
    | [] => false
  | n + 1, c :: '*' :: p, s =>
    startsLike n p s ||
      (match s with
      | d :: r => (c = '.' || c = d) && startsLike n (c :: '*' :: p) r
      | [] => false)
  | n + 1, c :: p, s =>
    match s with
    | d :: r => (c = '.' || c = d) && startsLike n p r
    | [] => false

/-- Whether a pattern describes some part of a line. -/
def occurs (literally : Bool) (pattern line : List Char) : Bool :=
  if literally then Text.Search.contains pattern line
  else
    let n := pattern.length + line.length + 2
    match pattern with
    | '^' :: p => startsLike n p line
    | p => go p n line
where
  /-- Tries every place in turn. -/
  go (p : List Char) (n : Nat) : List Char → Bool
    | [] => startsLike n p []
    | c :: s => startsLike n p (c :: s) || go p n s

/-- The lines of a text. -/
def linesOf (text : String) : List (List Char) :=
  let lines := Text.Search.splitWhere (· = '\n') text.toList
  if lines.getLast? = some [] then lines.dropLast else lines

/-- Looks for a pattern in files. -/
def grep (args : List String) : Step Unit := do
  let isOption (a : String) : Bool := a.length ≥ 2 && a.toList.head? = some '-'
  let options := (args.takeWhile isOption).flatMap fun a => a.toList.drop 1
  match args.dropWhile isOption with
  | [] => setStatus 2
  | pattern :: files => do
    let texts ← if files.isEmpty then do pure [some (← get).input] else files.mapM readFile
    let chosen (line : List Char) : Bool :=
      occurs (options.contains 'F') pattern.toList line != options.contains 'v'
    let found := (texts.filterMap id).flatMap fun c => (linesOf (shownText c)).filter chosen
    if !options.contains 'q' then
      if options.contains 'c' then print (toString found.length ++ "\n")
      else print (String.join (found.map fun line => String.ofList (line ++ ['\n'])))
    let failed := texts.any Option.isNone
    setStatus (if failed && (found.isEmpty || !options.contains 'q') then 2
      else if found.isEmpty then 1 else 0)

/-! ### Files -/

/-- Prints files one after another. -/
def cat (args : List String) : Step Unit := do
  let texts ← if args.isEmpty then do pure [some (← get).input] else args.mapM readFile
  print (String.join ((texts.filterMap id).map shownText))
  setStatus (if texts.any Option.isNone then 1 else 0)

/-- Does something to every file, and fails if that fails for one of them. -/
def forEach (args : List String) (f : String → Step Bool) : Step Unit := do
  let done ← args.mapM f
  setStatus (if done.all id && !args.isEmpty then 0 else 1)

/-- The arguments that are no options, and the letters of those that are. -/
def split (args : List String) : List String × List Char :=
  let isOption (a : String) : Bool := a.length ≥ 2 && a.toList.head? = some '-'
  (args.filter fun a => !isOption a, (args.filter isOption).flatMap fun a => a.toList.drop 1)

/-- Makes directories. -/
def mkdir (args : List String) : Step Unit := do
  let (paths, options) := split args
  forEach paths fun p => do
    if options.contains 'p' then
      let (store, fault) := (← get).store.createDirectories ⟨p⟩
      modify fun s => { s with store := store }
      return fault.isNone
    else change fun s => s.create ⟨p⟩ .directory

/-- Takes files away. -/
def rm (args : List String) : Step Unit := do
  let (paths, options) := split args
  let force := options.contains 'f'
  let deep := options.contains 'r' || options.contains 'R'
  let done ← paths.mapM fun p =>
    change fun s =>
      match if deep then s.removeTree ⟨p⟩ else s.removeFile ⟨p⟩ with
      | .error .notFound => if force then .ok s else .error .notFound
      | result => result
  setStatus (if done.all id && (force || !paths.isEmpty) then 0 else 1)

/-- Makes files that are not there. -/
def touch (args : List String) : Step Unit :=
  forEach args fun p => do
    if ((← get).store.entry? ⟨p⟩).isSome then return true
    else change fun s => s.write ⟨p⟩ (.text "")

/-- Puts what a file holds into another one. -/
def cp (args : List String) : Step Unit := do
  match (split args).1 with
  | [source, target] => do
    let done ← change fun s => do
      let goal : Path := if s.isDirectory ⟨target⟩ then
        Path.join ⟨target⟩ ⟨(Path.mk source).fileName?.getD source⟩ else ⟨target⟩
      s.write goal (← s.read ⟨source⟩)
    setStatus (if done then 0 else 1)
  | _ => setStatus 1

/-! ### Tests -/

/-- Compares whole numbers. -/
def compare? (f : Int → Int → Bool) (a b : String) : Option Bool :=
  match a.toInt?, b.toInt? with
  | some a, some b => some (f a b)
  | _, _ => none

/-- Whether a condition holds; none when it is no condition. -/
def holds? (s : Store) : List String → Option Bool
  | [] => some false
  | [a] => some (a ≠ "")
  | ["!", a] => some (a = "")
  | ["-f", p] => some (s.isFile ⟨p⟩)
  | ["-d", p] => some (s.isDirectory ⟨p⟩)
  | ["-e", p] => some (s.entry? ⟨p⟩).isSome
  | ["-s", p] => some (((s.read ⟨p⟩).toOption.map Content.size).getD 0 ≠ 0)
  | ["-n", a] => some (a ≠ "")
  | ["-z", a] => some (a = "")
  | [a, "=", b] => some (a = b)
  | [a, "!=", b] => some (a ≠ b)
  | [a, "-eq", b] => compare? (· = ·) a b
  | [a, "-ne", b] => compare? (· ≠ ·) a b
  | [a, "-lt", b] => compare? (· < ·) a b
  | [a, "-le", b] => compare? (· ≤ ·) a b
  | [a, "-gt", b] => compare? (· > ·) a b
  | [a, "-ge", b] => compare? (· ≥ ·) a b
  | "!" :: rest => (holds? s rest).map (!·)
  | _ => none

/-- Succeeds if a condition holds. -/
def test (args : List String) : Step Unit := do
  match holds? (← get).store args with
  | some holds => setStatus (if holds then 0 else 1)
  | none => setStatus 2

/-- Succeeds if a condition in brackets holds. -/
def bracket (args : List String) : Step Unit :=
  if args.getLast? = some "]" then test args.dropLast else setStatus 2

/-! ### Time and processes -/

/-- A time in milliseconds. -/
def duration? (s : String) : Option Nat :=
  let cs := s.toList
  let (number, unit) := match cs.getLast? with
    | some 's' => (cs.dropLast, 1000)
    | some 'm' => (cs.dropLast, 60000)
    | some 'h' => (cs.dropLast, 3600000)
    | some 'd' => (cs.dropLast, 86400000)
    | _ => (cs, 1000)
  let whole := number.takeWhile Char.isDigit
  match number.dropWhile Char.isDigit with
  | [] => if whole.isEmpty then none else some (Nat.ofDigitChars 10 whole 0 * unit)
  | '.' :: places =>
    if (whole.isEmpty && places.isEmpty) || !places.all Char.isDigit then none
    else
      some (Nat.ofDigitChars 10 (whole ++ places) 0 * unit / Nat.pow 10 places.length)
  | _ => none

/-- Waits. -/
def sleep (args : List String) : Step Unit := do
  match args.mapM duration? with
  | none => setStatus 1
  | some [] => setStatus 1
  | some times =>
    let time := times.foldl (· + ·) 0
    match (← get).left with
    | none => setStatus 0
    | some left => do
      if left ≤ time then throw .outOfTime
      modify fun s => { s with left := some (left - time) }
      setStatus 0

/-- The name of the running script as a process. -/
def ownProcess (s : Session) : String := toString (1000 + s.depth)

/-- Kills the script, if it is the one that is named. -/
def kill (args : List String) : Step Unit := do
  let (signal, targets) := match args with
    | "-s" :: name :: rest => (name, rest)
    | a :: rest => if a.toList.head? = some '-' then (String.ofList (a.toList.drop 1), rest)
      else ("TERM", a :: rest)
    | [] => ("TERM", [])
  let own := ownProcess (← get)
  if targets.contains own && signal ≠ "0" then throw .killed
  setStatus (if !targets.isEmpty && targets.all (· = own) then 0 else 1)

/-- Calls a program by its name. -/
def run? (name : String) (args : List String) : Option (Step Unit) :=
  match name with
  | "true" => some (setStatus 0)
  | "false" => some (setStatus 1)
  | "echo" => some (echo args)
  | "printf" => some (printf args)
  | "grep" => some (grep args)
  | "cat" => some (cat args)
  | "mkdir" => some (mkdir args)
  | "rm" => some (rm args)
  | "touch" => some (touch args)
  | "cp" => some (cp args)
  | "test" => some (test args)
  | "[" => some (bracket args)
  | "sleep" => some (sleep args)
  | "kill" => some (kill args)
  | "pwd" => some do
    print ((Store.pathOf (← get).store.cwd).text ++ "\n")
    setStatus 0
  | _ => none

end Program

end Trellis.Shell
