import TapeLang.Shell.Word

/-!
# Tokens of a script

A script is cut into words and operators by reading it byte by byte. A backslash or quotes take
away the meaning of what they cover; a number sign at the start of a word begins a comment.

* `Token.scan`: the tokens of a script.
-/

namespace TapeLang.Shell

/-- The operators of a script. -/
inductive Operator where
  | newline
  | semicolon
  | doubleSemicolon
  | ampersand
  | doubleAmpersand
  | bar
  | doubleBar
  | openParen
  | closeParen
  | less
  | greater
  | doubleGreater
  | greaterAmpersand
  deriving DecidableEq, Repr

/-- The tokens of a script. -/
inductive Token where
  | word (word : Word) (line : Nat)
  | operator (op : Operator)
  /-- A number right before a redirection. -/
  | channel (number : Nat)
  deriving DecidableEq, Repr

namespace Token

/-- What the next byte belongs to. -/
inductive Mode where
  | plain
  | comment
  | single (fresh : Bool)
  | double (fresh : Bool)
  /-- After a backslash. -/
  | escape (quoted : Bool)
  /-- After a dollar sign. -/
  | dollar (quoted : Bool)
  /-- In the name of a variable, last byte first. -/
  | name (quoted : Bool) (letters : Bytes)
  /-- In a name between braces. -/
  | braces (quoted : Bool) (letters : Bytes)
  deriving DecidableEq, Repr

/-- What has been read so far. -/
structure Scanner where
  mode : Mode := .plain
  /-- The word being read, last piece first. -/
  word : Option (List Piece) := none
  /-- The tokens before it, last first. -/
  tokens : List Token := []
  line : Nat := 1
  /-- Whether the byte before was an operator that a second byte may extend. -/
  joins : Bool := false
  deriving Repr

/-- The operator of a byte. -/
def operator? (b : UInt8) : Option Operator :=
  match Char.ofNat b.toNat with
  | '\n' => some .newline
  | ';' => some .semicolon
  | '&' => some .ampersand
  | '|' => some .bar
  | '(' => some .openParen
  | ')' => some .closeParen
  | '<' => some .less
  | '>' => some .greater
  | _ => none

/-- The operator of two bytes. -/
def joined? : Operator → Operator → Option Operator
  | .semicolon, .semicolon => some .doubleSemicolon
  | .ampersand, .ampersand => some .doubleAmpersand
  | .bar, .bar => some .doubleBar
  | .greater, .greater => some .doubleGreater
  | .greater, .ampersand => some .greaterAmpersand
  | _, _ => none

/-- Whether a byte can be part of the name of a variable. -/
def isNameByte (b : UInt8) : Bool :=
  let c := Char.ofNat b.toNat
  c.isAlphanum || c = '_'

/-- The parameter that one byte after a dollar sign means. -/
def parameter? (b : UInt8) : Option Param :=
  match Char.ofNat b.toNat with
  | '@' => some .each
  | '*' => some .all
  | '#' => some .count
  | '?' => some .status
  | '$' => some .process
  | c => if c.isDigit then some (.argument (c.toNat - '0'.toNat)) else none

/-- The parameter with a name between braces. -/
def named (name : Bytes) : Param :=
  if !name.isEmpty && name.all fun b => (Char.ofNat b.toNat).isDigit then
    .argument (name.foldl (fun n b => n * 10 + (b.toNat - 0x30)) 0)
  else
    match name with
    | [b] => (parameter? b).getD (.var name)
    | _ => .var name

namespace Scanner

/-- Adds a piece to the word being read. -/
def add (s : Scanner) (piece : Piece) : Scanner :=
  { s with word := some (piece :: s.word.getD []) }

/-- The mode around a parameter. -/
def around : (quoted : Bool) → Mode
  | true => .double false
  | false => .plain

/-- Ends the word being read. Before a redirection, a number names the channel. -/
def closeWord (s : Scanner) (redirects : Bool) : Scanner :=
  match s.word with
  | none => s
  | some pieces =>
    let word := pieces.reverse
    let digits := match Word.literal? word with
      | some text => redirects && text.all fun b => (Char.ofNat b.toNat).isDigit
      | none => false
    let token := if digits then
        .channel (((Word.literal? word).getD []).foldl (fun n b => n * 10 + (b.toNat - 0x30)) 0)
      else .word word s.line
    { s with word := none, tokens := token :: s.tokens }

/-- Adds an operator, or extends the one before. -/
def addOperator (s : Scanner) (op : Operator) : Scanner :=
  let s := s.closeWord (op = .less || op = .greater)
  match s.joins, s.tokens with
  | true, .operator before :: rest =>
    match joined? before op with
    | some both => { s with tokens := .operator both :: rest, joins := false }
    | none => { s with tokens := .operator op :: s.tokens, joins := true }
  | _, _ => { s with tokens := .operator op :: s.tokens, joins := true }

/-- Reads a byte outside of quotes. -/
def readPlain (s : Scanner) (b : UInt8) : Scanner :=
  match operator? b with
  | some op =>
    let s := s.addOperator op
    if op = .newline then { s with line := s.line + 1 } else s
  | none =>
    let s := { s with joins := false }
    match Char.ofNat b.toNat with
    | ' ' | '\t' => s.closeWord false
    | '\'' => { s with mode := .single true, word := some (s.word.getD []) }
    | '"' => { s with mode := .double true, word := some (s.word.getD []) }
    | '\\' => { s with mode := .escape false }
    | '$' => { s with mode := .dollar false }
    | '#' => if s.word.isNone then { s with mode := .comment } else s.add (.byte b false)
    | _ => s.add (.byte b false)

/-- Reads a byte between double quotes. -/
def readDouble (s : Scanner) (fresh : Bool) (b : UInt8) : Scanner :=
  match Char.ofNat b.toNat with
  | '"' => if fresh then { s.add .nothing with mode := .plain } else { s with mode := .plain }
  | '\\' => { s with mode := .escape true }
  | '$' => { s with mode := .dollar true }
  | '\n' => { s.add (.byte b true) with mode := .double false, line := s.line + 1 }
  | _ => { s.add (.byte b true) with mode := .double false }

/-- Reads a byte in the mode around a parameter that has just ended. -/
def resume (s : Scanner) (quoted : Bool) (b : UInt8) : Scanner :=
  let s := { s with mode := around quoted }
  if quoted then s.readDouble false b else s.readPlain b

/-- Reads the byte after a backslash. Between quotes it is kept unless it covers something. -/
def readEscaped (s : Scanner) (quoted : Bool) (b : UInt8) : Scanner :=
  let s := { s with mode := around quoted }
  if b = Text.ascii '\n' then { s with line := s.line + 1 }
  else if quoted && !(utf8 "$\"\\\x60").contains b then
    (s.add (.byte (Text.ascii '\\') true)).add (.byte b true)
  else s.add (.byte b true)

/-- Reads the byte after a dollar sign. -/
def readDollar (s : Scanner) (quoted : Bool) (b : UInt8) : Scanner :=
  if b = Text.ascii '\x7b' then { s with mode := .braces quoted [] }
  else
    match parameter? b with
    | some param => { s.add (.value param quoted) with mode := around quoted }
    | none =>
      if isNameByte b then { s with mode := .name quoted [b] }
      else (s.add (.byte (Text.ascii '$') quoted)).resume quoted b

/-- Reads a byte. -/
def read (s : Scanner) (b : UInt8) : Scanner :=
  match s.mode with
  | .plain => s.readPlain b
  | .comment => if b = Text.ascii '\n' then { s with mode := .plain }.readPlain b else s
  | .single fresh =>
    if b = Text.ascii '\'' then
      if fresh then { s.add .nothing with mode := .plain } else { s with mode := .plain }
    else
      { s.add (.byte b true) with
        mode := .single false
        line := if b = Text.ascii '\n' then s.line + 1 else s.line }
  | .double fresh => s.readDouble fresh b
  | .escape quoted => s.readEscaped quoted b
  | .dollar quoted => s.readDollar quoted b
  | .name quoted letters =>
    if isNameByte b then { s with mode := .name quoted (b :: letters) }
    else (s.add (.value (.var letters.reverse) quoted)).resume quoted b
  | .braces quoted letters =>
    if b = Text.ascii '\x7d' then
      { s.add (.value (named letters.reverse) quoted) with mode := around quoted }
    else { s with mode := .braces quoted (b :: letters) }

end Scanner

/-- The tokens of a script, or nothing if quotes are left open. -/
def scan (script : Bytes) : Option (List Token) :=
  let s := (script ++ [Text.ascii '\n']).foldl Scanner.read {}
  if s.mode = .plain then some s.tokens.reverse else none

end Token

end TapeLang.Shell
