/-! # Scripts

Scripts of a small command language: simple commands with quotes, variables and redirections, put
together by sequence, condition, pipe and group.

* `Token` is what a script is cut into, `Token.scan?` cuts it.
* `Command` is what tokens mean, `Command.read?` reads a whole script. -/

namespace Trellis.Shell

/-! ### Words -/

/-- A piece of a word. Only what stands outside of quotes may be split and may vanish. -/
inductive Piece where
  /-- Characters outside of quotes. -/
  | plain (s : List Char)
  /-- Characters in quotes. -/
  | quoted (s : List Char)
  /-- The value of a variable. -/
  | variable (inQuotes : Bool) (name : String)
  /-- What a script prints. -/
  | output (inQuotes : Bool) (script : List Char)
  deriving DecidableEq, Repr

/-- A word. -/
abbrev Word := List Piece

/-- Where a command prints. -/
inductive Stream where
  /-- What it has to say. -/
  | out
  /-- Complaints. -/
  | err
  deriving DecidableEq, Repr

/-- A redirection. -/
inductive Redirection where
  /-- Prints into a file, at its end or in place of what it holds. -/
  | toFile (stream : Stream) (atEnd : Bool) (file : Word)
  /-- Prints where another stream prints. -/
  | toStream (stream target : Stream)
  /-- Reads from a file. -/
  | fromFile (file : Word)
  deriving DecidableEq, Repr

/-- Adds a character to a word that is read from its end. -/
def addPlain (c : Char) : Word → Word
  | .plain s :: rest => .plain (c :: s) :: rest
  | w => .plain [c] :: w

/-- Adds a quoted character to a word that is read from its end. -/
def addQuoted (c : Char) : Word → Word
  | .quoted s :: rest => .quoted (c :: s) :: rest
  | w => .quoted [c] :: w

/-- Whether a character may start a name. -/
def isNameStart (c : Char) : Bool := c.isAlpha || c = '_'

/-- Whether a character may continue a name. -/
def isNamePart (c : Char) : Bool := isNameStart c || c.isDigit

/-- The text up to the parenthesis that closes `depth` open ones, and what follows. -/
def untilClosed : (depth : Nat) → List Char → Option (List Char × List Char)
  | _, [] => none
  | depth, c :: s =>
    if c = ')' then
      match depth with
      | 0 => some ([], s)
      | depth + 1 => (untilClosed depth s).map fun (t, r) => (c :: t, r)
    else
      (untilClosed (if c = '(' then depth + 1 else depth) s).map fun (t, r) => (c :: t, r)

/-- The piece that a dollar sign starts, and what follows; none when it stands for itself. -/
def readDollar (inQuotes : Bool) (s : List Char) : Option (Option (Piece × List Char)) :=
  match s with
  | '\x7b' :: r =>
    let name := r.takeWhile isNamePart
    match r.dropWhile isNamePart with
    | '\x7d' :: r =>
      if name.isEmpty then none else some (some (.variable inQuotes (String.ofList name), r))
    | _ => none
  | '(' :: r => (untilClosed 0 r).map fun (t, r) => some (.output inQuotes t, r)
  | c :: r =>
    if isNameStart c then
      some (some (.variable inQuotes (String.ofList (s.takeWhile isNamePart)), s.dropWhile isNamePart))
    else if c.isDigit || c = '?' || c = '$' || c = '#' || c = '@' || c = '*' then
      some (some (.variable inQuotes (String.ofList [c]), r))
    else some none
  | [] => some none

/-- Adds text up to a closing double quote to a word; `n` bounds the steps. -/
def readQuoted : (n : Nat) → Word → List Char → Option (Word × List Char)
  | 0, _, _ => none
  | _ + 1, _, [] => none
  | n + 1, w, c :: s =>
    match c with
    | '"' => some (w, s)
    | '\\' =>
      match s with
      | d :: r =>
        if d = '\n' then readQuoted n w r
        else if d = '$' || d = '\x60' || d = '"' || d = '\\' then readQuoted n (addQuoted d w) r
        else readQuoted n (addQuoted c w) s
      | [] => none
    | '$' =>
      match readDollar true s with
      | none => none
      | some none => readQuoted n (addQuoted c w) s
      | some (some (piece, r)) => readQuoted n (piece :: w) r
    | '\x60' =>
      let script := s.takeWhile (· ≠ '\x60')
      match s.dropWhile (· ≠ '\x60') with
      | _ :: r => readQuoted n (.output true script :: w) r
      | [] => none
    | _ => readQuoted n (addQuoted c w) s

/-- Whether a character ends a word. -/
def endsWord (c : Char) : Bool := " \t\n;&|<>()".toList.contains c

/-- Adds text up to the end of a word to it; `n` bounds the steps. -/
def readWord : (n : Nat) → Word → List Char → Option (Word × List Char)
  | 0, _, _ => none
  | _ + 1, w, [] => some (w, [])
  | n + 1, w, c :: s =>
    if endsWord c then some (w, c :: s)
    else
      match c with
      | '\'' =>
        match s.dropWhile (· ≠ '\'') with
        | _ :: r => readWord n (.quoted (s.takeWhile (· ≠ '\'')).reverse :: w) r
        | [] => none
      | '"' =>
        match readQuoted (s.length + 1) (.quoted [] :: w) s with
        | some (w, r) => readWord n w r
        | none => none
      | '\\' =>
        match s with
        | '\n' :: r => readWord n w r
        | d :: r => readWord n (addQuoted d w) r
        | [] => readWord n (addPlain c w) []
      | '$' =>
        match readDollar false s with
        | none => none
        | some none => readWord n (addPlain c w) s
        | some (some (piece, r)) => readWord n (piece :: w) r
      | '\x60' =>
        let script := s.takeWhile (· ≠ '\x60')
        match s.dropWhile (· ≠ '\x60') with
        | _ :: r => readWord n (.output false script :: w) r
        | [] => none
      | _ => readWord n (addPlain c w) s

/-- A word in reading order. -/
def finish (w : Word) : Word :=
  w.reverse.map fun piece =>
    match piece with
    | .plain s => .plain s.reverse
    | .quoted s => .quoted s.reverse
    | piece => piece

/-! ### Tokens -/

/-- A token of a script. -/
inductive Token where
  /-- A word. -/
  | word (w : Word)
  /-- A sign between commands. -/
  | sign (s : String)
  /-- A redirection of a stream, by its number, whose word follows. -/
  | redirect (stream : Nat) (kind : String)
  deriving DecidableEq, Repr

namespace Token

/-- The signs, longer ones before those that they start with. -/
def signs : List String := ["&&", "||", ";", "&", "|", "(", ")", "\n"]

/-- The signs of redirections, longer ones before those that they start with, each with the stream
it is about when none is named. -/
def redirections : List (String × Nat) := [(">>", 1), (">&", 1), (">|", 1), (">", 1), ("<", 0)]

/-- The redirection that a text starts with, and what follows. -/
def redirection? (s : List Char) : Option (String × Nat × List Char) :=
  redirections.findSome? fun r =>
    if r.1.toList.isPrefixOf s then some (r.1, r.2, s.drop r.1.length) else none

/-- The next token of a text that does not start with a blank, and what follows. -/
def next? (s : List Char) : Option (Token × List Char) :=
  match signs.find? fun mark => mark.toList.isPrefixOf s with
  | some mark => some (.sign mark, s.drop mark.length)
  | none =>
    let digits := s.takeWhile Char.isDigit
    match redirection? (s.dropWhile Char.isDigit) with
    | some (kind, usual, r) =>
      some (.redirect (if digits.isEmpty then usual else Nat.ofDigitChars 10 digits 0) kind, r)
    | none => (readWord (s.length + 1) [] s).map fun (w, r) => (.word (finish w), r)

/-- Cuts a script into tokens; `n` bounds the steps. -/
def scanWithin : (n : Nat) → List Char → Option (List Token)
  | 0, _ => none
  | _ + 1, [] => some []
  | n + 1, c :: s =>
    if c = ' ' || c = '\t' then scanWithin n s
    else if c = '\\' && s.head? = some '\n' then scanWithin n (s.drop 1)
    else if c = '#' then scanWithin n (s.dropWhile (· ≠ '\n'))
    else
      match next? (c :: s) with
      | some (t, r) => (scanWithin n r).map (t :: ·)
      | none => none

/-- Cuts a script into tokens. -/
def scan? (s : String) : Option (List Token) := scanWithin (s.length + 1) s.toList

/-- The word that is this text without quotes. -/
def bare (s : String) : Token := .word [.plain s.toList]

/-- Whether commands go on after a token. -/
def closesList (t : Token) : Bool :=
  t = .sign ")" ||
    ["then", "elif", "else", "fi", "\x7d"].any fun word => t = bare word

end Token

/-! ### Commands -/

/-- A command. -/
inductive Command where
  /-- Does nothing. -/
  | nothing
  /-- Sets variables, or runs a program with variables set for it. -/
  | simple (assignments : List (String × Word)) (words : List Word)
      (redirections : List Redirection)
  /-- One after the other. -/
  | sequence (first second : Command)
  /-- The second if the first succeeds. -/
  | both (first second : Command)
  /-- The second if the first fails. -/
  | either (first second : Command)
  /-- Succeeds if the command fails. -/
  | negated (command : Command)
  /-- The second reads what the first prints. -/
  | pipe (first second : Command)
  /-- One of two, by the success of a third. -/
  | conditional (condition yes no : Command)
  /-- A command with its streams redirected. -/
  | redirected (command : Command) (redirections : List Redirection)
  /-- A command that keeps its variables and its directory to itself. -/
  | apart (command : Command)
  deriving Repr

namespace Command

/-- The assignment that a word is. -/
def assignment? : Word → Option (String × Word)
  | .plain s :: rest =>
    let name := s.takeWhile isNamePart
    match s.dropWhile isNamePart with
    | '=' :: value =>
      if (name.head?.map isNameStart).getD false then
        some (String.ofList name, (if value.isEmpty then [] else [.plain value]) ++ rest)
      else none
    | _ => none
  | _ => none

/-- The stream of a number. -/
def stream? : Nat → Option Stream
  | 1 => some .out
  | 2 => some .err
  | _ => none

/-- The redirection of a stream to what a word says. -/
def redirection? (stream : Nat) (kind : String) (w : Word) : Option Redirection :=
  if kind = "<" then some (.fromFile w)
  else
    match stream? stream with
    | none => none
    | some source =>
      if kind = ">&" then
        match w with
        | [.plain ['1']] => some (.toStream source .out)
        | [.plain ['2']] => some (.toStream source .err)
        | _ => none
      else some (.toFile source (kind = ">>") w)

/-- Reads redirections as long as there are any. -/
def readRedirections : List Token → Option (List Redirection × List Token)
  | .redirect stream kind :: .word w :: ts =>
    match redirection? stream kind w, readRedirections ts with
    | some r, some (rs, ts) => some (r :: rs, ts)
    | _, _ => none
  | .redirect _ _ :: _ => none
  | ts => some ([], ts)

/-- Reads the rest of a simple command. -/
def readSimple (assignments : List (String × Word)) (words : List Word) (rs : List Redirection) :
    List Token → Option (Command × List Token)
  | .word w :: ts =>
    match if words.isEmpty then assignment? w else none with
    | some a => readSimple (assignments ++ [a]) words rs ts
    | none => readSimple assignments (words ++ [w]) rs ts
  | .redirect stream kind :: .word w :: ts =>
    match redirection? stream kind w with
    | some r => readSimple assignments words (rs ++ [r]) ts
    | none => none
  | .redirect _ _ :: _ => none
  | ts =>
    if assignments.isEmpty && words.isEmpty && rs.isEmpty then none
    else some (.simple assignments words rs, ts)

/-- The tokens after line ends. -/
def skipLines (ts : List Token) : List Token := ts.dropWhile (· = .sign "\n")

/-- A command with the redirections after it. -/
def withRedirections (c : Command) (ts : List Token) : Option (Command × List Token) :=
  (readRedirections ts).map fun (rs, ts) => (if rs.isEmpty then c else .redirected c rs, ts)

/-- What follows a token that has to come. -/
def expect (t : Token) : List Token → Option (List Token)
  | u :: ts => if u = t then some ts else none
  | [] => none

mutual

/-- Reads one command; `n` bounds the steps. -/
def readCommand : (n : Nat) → List Token → Option (Command × List Token)
  | 0, _ => none
  | n + 1, t :: ts =>
    if t = .bare "if" then do
      let (c, ts) ← readConditional n ts
      withRedirections c ts
    else if t = .bare "\x7b" then do
      let (c, ts) ← readList n ts
      withRedirections c (← expect (.bare "\x7d") ts)
    else if t = .sign "(" then do
      let (c, ts) ← readList n ts
      withRedirections (.apart c) (← expect (.sign ")") ts)
    else if t.closesList then none
    else readSimple [] [] [] (t :: ts)
  | _ + 1, [] => none

/-- Reads a condition and its branches, up to the word that ends them. -/
def readConditional : (n : Nat) → List Token → Option (Command × List Token)
  | 0, _ => none
  | n + 1, ts => do
    let (condition, ts) ← readList n ts
    let (yes, ts) ← readList n (← expect (.bare "then") ts)
    match ts with
    | t :: ts =>
      if t = .bare "fi" then some (.conditional condition yes .nothing, ts)
      else if t = .bare "elif" then
        let (no, ts) ← readConditional n ts
        some (.conditional condition yes no, ts)
      else if t = .bare "else" then
        let (no, ts) ← readList n ts
        some (.conditional condition yes no, ← expect (.bare "fi") ts)
      else none
    | [] => none

/-- Reads commands joined by pipes. -/
def readPipe : (n : Nat) → List Token → Option (Command × List Token)
  | 0, _ => none
  | n + 1, ts =>
    match ts with
    | t :: rest =>
      if t = .bare "!" then (readPipe n rest).map fun (c, ts) => (.negated c, ts)
      else do
        let (first, ts) ← readCommand n ts
        match ts with
        | .sign "|" :: ts =>
          let (second, ts) ← readPipe n (skipLines ts)
          some (.pipe first second, ts)
        | ts => some (first, ts)
    | [] => none

/-- Reads what may come after a command: what depends on its success. -/
def readChain : (n : Nat) → Command → List Token → Option (Command × List Token)
  | 0, _, _ => none
  | n + 1, first, ts =>
    match ts with
    | .sign "&&" :: ts => do
      let (second, ts) ← readPipe n (skipLines ts)
      readChain n (.both first second) ts
    | .sign "||" :: ts => do
      let (second, ts) ← readPipe n (skipLines ts)
      readChain n (.either first second) ts
    | ts => some (first, ts)

/-- Reads commands one after another, at least one. -/
def readList : (n : Nat) → List Token → Option (Command × List Token)
  | 0, _ => none
  | n + 1, ts => do
    let (first, ts) ← readPipe n (skipLines ts)
    let (first, ts) ← readChain n first ts
    match ts with
    | .sign s :: rest =>
      if s = ";" || s = "&" || s = "\n" then
        match skipLines rest with
        | [] => some (first, [])
        | t :: rest =>
          if t.closesList then some (first, t :: rest)
          else (readList n (t :: rest)).map fun (c, ts) => (.sequence first c, ts)
      else some (first, ts)
    | ts => some (first, ts)

end

/-- Reads a whole script. -/
def read? (script : String) : Option Command := do
  let ts ← Token.scan? script
  if (skipLines ts).isEmpty then some .nothing
  else
    match ← readList (4 * ts.length + 4) ts with
    | (c, []) => some c
    | _ => none

end Command

end Trellis.Shell
