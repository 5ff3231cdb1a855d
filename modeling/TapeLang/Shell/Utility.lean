import TapeLang.Shell.Process
import TapeLang.Text.Integer

/-!
# Utilities

The utilities that a script can call. Some are part of the shell; `cat` and `cp` are programs that
have to be found along the search path.

* `Process.call`: calls a utility by its name.
-/

namespace TapeLang.Shell

/-! ## Echo -/

/-- Whether a byte is an octal digit. -/
def isOctal (b : UInt8) : Bool :=
  0x30 ≤ b && b ≤ 0x37

/-- The byte of a one-letter escape. -/
def escapeByte? (b : UInt8) : Option UInt8 :=
  match Char.ofNat b.toNat with
  | '\\' => some 0x5C
  | 'a' => some 0x07
  | 'b' => some 0x08
  | 'f' => some 0x0C
  | 'n' => some 0x0A
  | 'r' => some 0x0D
  | 't' => some 0x09
  | 'v' => some 0x0B
  | _ => none

/-- A text with its escapes carried out. Nothing is left if an escape ends the output, which is the
second part of the result. `acc` holds the bytes so far, last first. -/
def unescape (text acc : Bytes) : Bytes × Bool :=
  match text with
  | [] => (acc.reverse, false)
  | [b] => ((b :: acc).reverse, false)
  | b :: c :: rest =>
    if b ≠ Text.ascii '\\' then unescape (c :: rest) (b :: acc)
    else if c = Text.ascii 'c' then (acc.reverse, true)
    else if isOctal c then
      let more := (rest.take (if c = Text.ascii '0' then 3 else 2)).takeWhile isOctal
      let value := (c :: more).foldl (fun n d => n * 8 + (d.toNat - 0x30)) 0
      unescape (rest.drop more.length) (UInt8.ofNat value :: acc)
    else
      match escapeByte? c with
      | some e => unescape rest (e :: acc)
      | none => unescape (c :: rest) (b :: acc)
termination_by text.length
decreasing_by
  all_goals simp only [List.length_drop, List.length_cons]
  all_goals omega

/-- The text that `echo` writes. -/
def echoText (arguments : List Bytes) : Bytes :=
  match arguments with
  | first :: rest =>
    if first = utf8 "-n" then (unescape (Text.joinWith (utf8 " ") rest) []).1
    else written arguments
  | [] => written []
where
  /-- Arguments with blanks between them, on a line of their own unless an escape ends them. -/
  written (arguments : List Bytes) : Bytes :=
    match unescape (Text.joinWith (utf8 " ") arguments) [] with
    | (text, true) => text
    | (text, false) => text ++ utf8 "\n"

/-! ## Tests -/

/-- The number of a decimal text with an optional sign. -/
def integer? (text : Bytes) : Option Int :=
  match text with
  | [] => none
  | sign :: rest =>
    if sign = Text.ascii '-' then (natural? rest).map fun n => -n
    else if sign = Text.ascii '+' then (natural? rest).map Int.ofNat
    else (natural? text).map Int.ofNat
where
  /-- The number of decimal digits. -/
  natural? (digits : Bytes) : Option Nat :=
    if digits.isEmpty || !digits.all fun b => 0x30 ≤ b && b ≤ 0x39 then none
    else some (digits.foldl (fun n d => n * 10 + (d.toNat - 0x30)) 0)

/-- The comparison of numbers with a name. -/
def comparison? (name : Bytes) : Option (Int → Int → Bool) :=
  if name = utf8 "-eq" then some fun a b => a == b
  else if name = utf8 "-ne" then some fun a b => a != b
  else if name = utf8 "-gt" then some fun a b => b < a
  else if name = utf8 "-ge" then some fun a b => b ≤ a
  else if name = utf8 "-lt" then some fun a b => a < b
  else if name = utf8 "-le" then some fun a b => a ≤ b
  else none

/-- What a test says of a file. -/
def fileTest? (w : Workspace) (name path : Bytes) : Option Bool :=
  let entry := (w.find path).toOption
  if name = utf8 "-e" || name = utf8 "-r" || name = utf8 "-w" then some entry.isSome
  else if name = utf8 "-d" then some (entry = some .directory)
  else if name = utf8 "-f" then some (entry matches some (.file _ _))
  else if name = utf8 "-s" then some (entry matches some (.file (_ :: _) _))
  else if name = utf8 "-x" then
    some (entry = some .directory || entry matches some (.file _ true))
  else none

/-- The value of a test, or what is wrong with it. -/
def evaluate (w : Workspace) : List Bytes → Except Bytes Bool
  | [] => .ok false
  | [text] => .ok (!text.isEmpty)
  | [op, text] =>
    if op = utf8 "!" then .ok text.isEmpty
    else if op = utf8 "-n" then .ok (!text.isEmpty)
    else if op = utf8 "-z" then .ok text.isEmpty
    else
      match fileTest? w op text with
      | some value => .ok value
      | none => .error (op ++ utf8 ": unexpected operator")
  | [a, op, b] =>
    if op = utf8 "=" then .ok (a = b)
    else if op = utf8 "!=" then .ok (a ≠ b)
    else
      match comparison? op with
      | some compare =>
        match integer? a, integer? b with
        | some m, some n => .ok (compare m n)
        | none, _ => .error (utf8 "Illegal number: " ++ a)
        | _, none => .error (utf8 "Illegal number: " ++ b)
      | none => if a = utf8 "!" then (evaluate w [op, b]).map (!·)
        else .error (op ++ utf8 ": unexpected operator")
  | not :: rest =>
    if not = utf8 "!" then (evaluate w rest).map (!·) else .error (utf8 "too many arguments")

/-! ## Lines -/

/-- The next line of an input without its line end, whether it has one, and the rest. A backslash
takes away the meaning of the byte after it. `acc` holds the bytes so far, last first. -/
def nextLine (raw : Bool) : (input acc : Bytes) → Bytes × Bool × Bytes
  | [], acc => (acc.reverse, false, [])
  | [b], acc =>
    if b = Text.ascii '\n' then (acc.reverse, true, []) else ((b :: acc).reverse, false, [])
  | b :: c :: rest, acc =>
    if b = Text.ascii '\n' then (acc.reverse, true, c :: rest)
    else if b = Text.ascii '\\' && !raw then
      if c = Text.ascii '\n' then nextLine raw rest acc else nextLine raw rest (c :: acc)
    else nextLine raw (c :: rest) (b :: acc)

/-- A text without the blanks at its ends. -/
def trimBlanks (text : Bytes) : Bytes :=
  ((text.dropWhile isBlank).reverse.dropWhile isBlank).reverse

/-- Gives each name a word of a line, and the last one what is left. -/
def assignWords (e : Env) : List Bytes → Bytes → Env
  | [], _ => e
  | [name], text => e.assign name (trimBlanks text)
  | name :: names, text =>
    let text := text.dropWhile isBlank
    assignWords (e.assign name (text.takeWhile fun b => !isBlank b)) names
      (text.dropWhile fun b => !isBlank b)

namespace Process

/-- Reads a line into variables; the status tells whether it had an end. -/
def readLine (p : Process) (s : Streams) (arguments : List Bytes) : Process :=
  let raw := arguments.head? = some (utf8 "-r")
  let names := if raw then arguments.tail else arguments
  let (line, ended, rest) := nextLine raw (p.inputOf s) []
  let p := p.leaveInput s rest
  { p with env := assignWords p.env names line }.withStatus (if ended then 0 else 1)

/-! ## Ends and signals -/

/-- Drops arguments from the front. Too few of them end the script. -/
def shift (p : Process) (line : Nat) (arguments : List Bytes) : Process :=
  let n := ((arguments.head?.bind integer?).getD 1).toNat
  if p.env.arguments.length < n then
    { p.complain line (utf8 "shift: can't shift that many") 2 with ending := some (.exited 2) }
  else { p with env := { p.env with arguments := p.env.arguments.drop n, status := 0 } }

/-- Ends the script with a status, or with the one of the command before. -/
def exit (p : Process) (line : Nat) (arguments : List Bytes) : Process :=
  match arguments with
  | [] => { p with ending := some (.exited p.env.status) }
  | text :: _ =>
    match integer? text with
    | some n => { p with ending := some (.exited (n % 256).toNat) }
    | none =>
      { p.complain line (utf8 "exit: Illegal number: " ++ text) 2 with
        ending := some (.exited 2) }

/-- The numbers of signals that a script survives. -/
def harmless : List Int :=
  [0, 17, 18, 19, 20, 21, 22, 23, 28]

/-- The number of a signal. -/
def signal? (text : Bytes) : Option Int :=
  match integer? text with
  | some n => some n
  | none =>
    [("HUP", 1), ("INT", 2), ("QUIT", 3), ("ABRT", 6), ("KILL", 9), ("SEGV", 11), ("PIPE", 13),
      ("ALRM", 14), ("TERM", 15)].findSome? fun (name, n) =>
        if text = utf8 name || text = utf8 ("SIG" ++ name) then some n else none

/-- Sends a signal. Only the script itself can be reached. -/
def kill (p : Process) (line : Nat) (arguments : List Bytes) : Process :=
  let (name, targets) := match arguments with
    | option :: rest =>
      if option = utf8 "-s" then (rest.headD [], rest.tail)
      else if option.head? = some (Text.ascii '-') then (option.tail, rest)
      else (utf8 "TERM", arguments)
    | [] => (utf8 "TERM", [])
  match signal? name with
  | none => p.complain line (utf8 "kill: Illegal option -" ++ name) 2
  | some n =>
    if targets ≠ [Text.decimal processId] then
      p.complain line (utf8 "kill: No such process") 1
    else if harmless.contains n then p.withStatus 0
    else { p with ending := some .killed }

/-! ## Files -/

/-- A complaint of a program. -/
def protest (p : Process) (s : Streams) (text : Bytes) : Process :=
  (p.send s.errors (text ++ utf8 "\n")).withStatus 1

/-- Writes files, or the input, one after the other. -/
def cat (p : Process) (s : Streams) (arguments : List Bytes) : Process :=
  (if arguments.isEmpty then [utf8 "-"] else arguments).foldl (fun p path =>
    if path = utf8 "-" then (p.send s.output (p.inputOf s)).leaveInput s []
    else
      match p.workspace.read path with
      | .ok content => p.send s.output content
      | .error e => p.protest s (utf8 "cat: " ++ path ++ utf8 (": " ++ causeText e.cause)))
    (p.withStatus 0)

/-- A path between single quotes. -/
def shownPath (path : Bytes) : Bytes :=
  utf8 "'" ++ path ++ utf8 "'"

/-- Copies a file to a path, or into a directory. -/
def copyFile (p : Process) (s : Streams) (source target : Bytes) : Process :=
  let target :=
    if p.workspace.isDirectory target then Path.join target (Path.base source) else target
  match p.workspace.find source with
  | .error cause =>
    p.protest s (utf8 "cp: cannot stat " ++ shownPath source ++ utf8 (": " ++ causeText cause))
  | .ok .directory =>
    p.protest s (utf8 "cp: -r not specified; omitting directory " ++ shownPath source)
  | .ok entry =>
    match p.workspace.writable target with
    | .error cause =>
      p.protest s (utf8 "cp: cannot create regular file " ++ shownPath target ++
        utf8 (": " ++ causeText cause))
    | .ok place =>
      if (p.workspace.locate source).toOption = some place then
        p.protest s (utf8 "cp: " ++ shownPath source ++ utf8 " and " ++ shownPath target ++
          utf8 " are the same file")
      else
        let workspace := match entry, p.workspace.entry? place with
          | .file content executable, none => p.workspace.set place (.file content executable)
          | .file content _, _ => p.workspace.put place content
          | _, _ => p.workspace.put place []
        { p with workspace }.withStatus 0

/-- Copies a file. -/
def cp (p : Process) (s : Streams) : List Bytes → Process
  | [source, target] => p.copyFile s source target
  | [] => p.protest s (utf8 "cp: missing file operand\nTry 'cp --help' for more information.")
  | [source] =>
    p.protest s (utf8 "cp: missing destination file operand after " ++ shownPath source ++
      utf8 "\nTry 'cp --help' for more information.")
  | arguments =>
    p.protest s (utf8 "cp: target " ++ shownPath (arguments.getLastD []) ++
      utf8 ": No such file or directory")

/-! ## Calls -/

/-- Carries out a test. -/
def test (p : Process) (line : Nat) (name : Bytes) (arguments : List Bytes) : Process :=
  match evaluate p.workspace arguments with
  | .ok value => p.withStatus (if value then 0 else 1)
  | .error text => p.complain line (name ++ utf8 ": " ++ text) 2

/-- Calls a utility that is part of the shell. -/
def builtin? (p : Process) (s : Streams) (line : Nat) (name : Bytes) (arguments : List Bytes) :
    Option Process :=
  if name = utf8 ":" || name = utf8 "true" then some (p.withStatus 0)
  else if name = utf8 "false" then some (p.withStatus 1)
  else if name = utf8 "echo" then some ((p.send s.output (echoText arguments)).withStatus 0)
  else if name = utf8 "test" then some (p.test line name arguments)
  else if name = utf8 "[" then
    if arguments.getLast? = some (utf8 "]") then some (p.test line name arguments.dropLast)
    else some (p.complain line (utf8 "[: missing ]") 2)
  else if name = utf8 "read" then some (p.readLine s arguments)
  else if name = utf8 "shift" then some (p.shift line arguments)
  else if name = utf8 "exit" then some (p.exit line arguments)
  else if name = utf8 "kill" then some (p.kill line arguments)
  else none

/-- Calls a program of the system. -/
def program? (p : Process) (s : Streams) (name : Bytes) (arguments : List Bytes) :
    Option Process :=
  if name = utf8 "cat" then some (p.cat s arguments)
  else if name = utf8 "cp" then some (p.cp s arguments)
  else none

/-- The directories with the programs of the system. -/
def systemDirectories : List Bytes :=
  [utf8 "/bin", utf8 "/usr/bin"]

/-- The name of a program, if it lies in a directory of the system: named with it, or found along
the search path. -/
def systemName? (e : Env) (name : Bytes) : Option Bytes :=
  if name.contains Path.separator then
    systemDirectories.findSome? fun d => Text.dropStart? (d ++ [Path.separator]) name
  else if (Text.splitAt (Text.ascii ':') (e.valueOf (utf8 "PATH"))).any
      systemDirectories.contains then some name
  else none

/-- Calls a utility by its name. -/
def call (p : Process) (s : Streams) (line : Nat) (name : Bytes) (arguments : List Bytes) :
    Process :=
  match p.builtin? s line name arguments with
  | some p => p
  | none =>
    match (systemName? p.env name).bind fun program => p.program? s program arguments with
    | some p => p
    | none => p.complain line (name ++ utf8 ": not found") 127

end Process

end TapeLang.Shell
