import TapeLang.Shell.Token

/-!
# Commands of a script

A script is a list of commands: simple ones with assignments, words and redirections, and those
that choose or repeat.

* `Command`: the commands.
* `Command.parse`: the command that a script is.
-/

namespace TapeLang.Shell

/-- What a redirection does. -/
inductive Redirection where
  | read
  | write
  | append
  /-- Sends a channel to where another one goes. -/
  | duplicate
  deriving DecidableEq, Repr

/-- A redirection of a channel. -/
structure Redirect where
  channel : Nat
  kind : Redirection
  target : Word
  deriving DecidableEq, Repr

/-- The parts of a simple command. -/
structure Simple where
  /-- The line the command stands in. -/
  line : Nat := 0
  assignments : List (Bytes × Word) := []
  words : List Word := []
  redirects : List Redirect := []
  deriving DecidableEq, Repr

/-- The commands of a script. -/
inductive Command where
  | skip
  | simple (parts : Simple)
  | sequence (first second : Command)
  /-- The second is run if the first succeeds. -/
  | both (first second : Command)
  /-- The second is run if the first fails. -/
  | either (first second : Command)
  | negated (command : Command)
  | choice (test yes no : Command)
  /-- The body is run as long as the test succeeds, or, if not `positive`, fails. -/
  | loop (positive : Bool) (test body : Command)
  /-- The body is run if the subject has the form of one of the patterns. -/
  | arm (subject : Word) (patterns : List Word) (body otherwise : Command)
  deriving Repr

/-! ## Simple commands -/

/-- The name and value of a word that is an assignment. -/
def assignment? (w : Word) : Option (Bytes × Word) :=
  go w []
where
  /-- The bytes of the name so far, last first. -/
  go : Word → Bytes → Option (Bytes × Word)
    | .byte b false :: rest, name =>
      if b = Text.ascii '=' then if name.isEmpty then none else some (name.reverse, rest)
      else if Token.isNameByte b && !(name.isEmpty && (Char.ofNat b.toNat).isDigit) then
        go rest (b :: name)
      else none
    | _, _ => none

/-- The redirection of an operator, and the channel it is for if none is named. -/
def redirection? : Operator → Option (Redirection × Nat)
  | .less => some (.read, 0)
  | .greater => some (.write, 1)
  | .doubleGreater => some (.append, 1)
  | .greaterAmpersand => some (.duplicate, 1)
  | _ => none

namespace Simple

/-- Adds a word; an assignment counts as such only before the first word. -/
def addWord (s : Simple) (w : Word) (line : Nat) : Simple :=
  let s := if s.line = 0 then { s with line } else s
  match s.words.isEmpty, assignment? w with
  | true, some a => { s with assignments := s.assignments ++ [a] }
  | _, _ => { s with words := s.words ++ [w] }

/-- Adds a redirection. -/
def addRedirect (s : Simple) (channel : Nat) (kind : Redirection) (target : Word) (line : Nat) :
    Simple :=
  let s := if s.line = 0 then { s with line } else s
  { s with redirects := s.redirects ++ [⟨channel, kind, target⟩] }

/-- Reads the parts of a simple command. -/
def parse : List Token → Simple → Option (Simple × List Token)
  | .word w line :: rest, s => parse rest (s.addWord w line)
  | .channel n :: .operator op :: .word w line :: rest, s => do
    let (kind, _) ← redirection? op
    parse rest (s.addRedirect n kind w line)
  | .operator op :: .word w line :: rest, s =>
    match redirection? op with
    | some (kind, n) => parse rest (s.addRedirect n kind w line)
    | none => some (s, .operator op :: .word w line :: rest)
  | tokens, s => some (s, tokens)

end Simple

/-! ## All commands -/

namespace Command

/-- The reserved word that tokens begin with. -/
def keyword? : List Token → Option String
  | .word w _ :: _ => do
    let text ← Word.literal? w
    reserved.find? fun k => utf8 k = text
  | _ => none
where
  /-- The reserved words. -/
  reserved : List String :=
    ["while", "until", "do", "done", "if", "then", "elif", "else", "fi", "case", "in", "esac", "!",
      "\x7b", "\x7d"]

/-- The tokens after a reserved word. -/
def expect (k : String) (tokens : List Token) : Option (List Token) :=
  if keyword? tokens = some k then some tokens.tail else none

/-- The tokens after line ends. -/
def skipLines : List Token → List Token
  | .operator .newline :: rest => skipLines rest
  | tokens => tokens

/-- Whether a list of commands is at its end. -/
def atEnd (tokens : List Token) : Bool :=
  match tokens with
  | [] => true
  | .operator .doubleSemicolon :: _ | .operator .closeParen :: _ => true
  | _ =>
    match keyword? tokens with
    | some k => ["do", "done", "then", "elif", "else", "fi", "esac", "\x7d"].contains k
    | none => false

/-- The patterns before a closing parenthesis. -/
def patterns : List Token → Option (List Word × List Token)
  | .word w _ :: .operator .closeParen :: rest => some ([w], rest)
  | .word w _ :: .operator .bar :: rest => do
    let (ws, rest) ← patterns rest
    return (w :: ws, rest)
  | _ => none

mutual

/-- Reads a list of commands. -/
def list : (fuel : Nat) → List Token → Option (Command × List Token)
  | 0, _ => none
  | fuel + 1, tokens =>
    let tokens := skipLines tokens
    if atEnd tokens then some (.skip, tokens)
    else do
      let (first, tokens) ← chain fuel tokens
      match tokens with
      | .operator .newline :: rest | .operator .semicolon :: rest =>
        let (second, rest) ← list fuel rest
        return (.sequence first second, rest)
      | tokens => if atEnd tokens then return (first, tokens) else none

/-- Reads commands that depend on each other's success. -/
def chain : (fuel : Nat) → List Token → Option (Command × List Token)
  | 0, _ => none
  | fuel + 1, tokens => do
    let (first, tokens) ← command fuel tokens
    links fuel first tokens

/-- Reads the links of a chain after its first command. -/
def links : (fuel : Nat) → Command → List Token → Option (Command × List Token)
  | 0, _, _ => none
  | fuel + 1, first, .operator .doubleAmpersand :: rest => do
    let (second, rest) ← command fuel (skipLines rest)
    links fuel (.both first second) rest
  | fuel + 1, first, .operator .doubleBar :: rest => do
    let (second, rest) ← command fuel (skipLines rest)
    links fuel (.either first second) rest
  | _, first, tokens => some (first, tokens)

/-- Reads one command. -/
def command : (fuel : Nat) → List Token → Option (Command × List Token)
  | 0, _ => none
  | fuel + 1, tokens =>
    match keyword? tokens with
    | some "while" => repetition fuel true tokens.tail
    | some "until" => repetition fuel false tokens.tail
    | some "if" => branches fuel tokens.tail
    | some "case" => do
      match tokens.tail with
      | .word subject _ :: rest => arms fuel subject (← expect "in" (skipLines rest))
      | _ => none
    | some "!" => do
      let (c, rest) ← command fuel tokens.tail
      return (.negated c, rest)
    | some "\x7b" => do
      let (c, rest) ← list fuel tokens.tail
      return (c, ← expect "\x7d" rest)
    | some _ => none
    | none => do
      let (s, rest) ← Simple.parse tokens {}
      if s.line = 0 then none else return (.simple s, rest)

/-- Reads a loop after its first word. -/
def repetition : (fuel : Nat) → Bool → List Token → Option (Command × List Token)
  | 0, _, _ => none
  | fuel + 1, positive, tokens => do
    let (test, rest) ← list fuel tokens
    let (body, rest) ← list fuel (← expect "do" rest)
    return (.loop positive test body, ← expect "done" rest)

/-- Reads the branches of a choice after its first word. -/
def branches : (fuel : Nat) → List Token → Option (Command × List Token)
  | 0, _ => none
  | fuel + 1, tokens => do
    let (test, rest) ← list fuel tokens
    let (yes, rest) ← list fuel (← expect "then" rest)
    match keyword? rest with
    | some "elif" =>
      let (no, rest) ← branches fuel rest.tail
      return (.choice test yes no, rest)
    | some "else" =>
      let (no, rest) ← list fuel rest.tail
      return (.choice test yes no, ← expect "fi" rest)
    | _ => return (.choice test yes .skip, ← expect "fi" rest)

/-- Reads the arms of a choice by patterns. -/
def arms : (fuel : Nat) → Word → List Token → Option (Command × List Token)
  | 0, _, _ => none
  | fuel + 1, subject, tokens =>
    let tokens := skipLines tokens
    if keyword? tokens = some "esac" then some (.skip, tokens.tail)
    else do
      let tokens := match tokens with
        | .operator .openParen :: rest => rest
        | _ => tokens
      let (ps, rest) ← patterns tokens
      let (body, rest) ← list fuel rest
      match rest with
      | .operator .doubleSemicolon :: rest =>
        let (otherwise, rest) ← arms fuel subject rest
        return (.arm subject ps body otherwise, rest)
      | _ => return (.arm subject ps body .skip, ← expect "esac" rest)

end

/-- The command that a script is, or nothing if it makes no sense. -/
def parse (script : Bytes) : Option Command := do
  let tokens ← Token.scan script
  let (c, rest) ← list (8 * tokens.length + 8) tokens
  if rest.isEmpty then return c else none

end Command

end TapeLang.Shell
