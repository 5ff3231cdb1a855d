import TapeLang.Bracket
import TapeLang.Cursor
import TapeLang.Node

/-!
# From source to tree

The parser passes every byte of a source once. It keeps one scope for each open loop; a closing
bracket turns the innermost scope into a loop node of the scope around it. Bracket errors do not
stop it: unmatched closers are reported in source order, then unclosed openers from the innermost
out.

* `Cursor.parse`: parses from a cursor's position to the end.
* `parse`: parses a whole source.
-/

namespace TapeLang

/-- A loop that is being read; the bottom scope is the program itself. -/
structure Scope where
  /-- The nodes read so far, last first. -/
  nodes : List Node := []
  /-- Where the scope was opened. -/
  loc : Location
  deriving Repr

/-- Adds a node to a scope. -/
def Scope.add (s : Scope) (n : Node) : Scope :=
  { s with nodes := n :: s.nodes }

/-- The loop node that a closed scope becomes. -/
def Scope.toLoop (s : Scope) : Node :=
  { kind := .loop, children := s.nodes.reverse, loc := s.loc }

/-- What the parser has built so far. -/
structure Draft where
  scopes : Stack Scope
  /-- The errors found so far, last first. -/
  errors : List BracketError := []
  deriving Repr

namespace Draft

/-- A draft with the program's scope only. -/
def start (loc : Location) : Draft :=
  { scopes := { root := { loc } } }

/-- Adds a node to the innermost scope. -/
def add (d : Draft) (n : Node) : Draft :=
  { d with scopes := d.scopes.modifyTop (·.add n) }

/-- Opens a loop. -/
def openLoop (d : Draft) (loc : Location) : Draft :=
  { d with scopes := d.scopes.push { loc } }

/-- Closes the innermost loop; without one, the closing bracket is an error. -/
def closeLoop (d : Draft) (loc : Location) : Draft :=
  match d.scopes.pop? with
  | some (s, scopes) => { d with scopes := scopes.modifyTop (·.add s.toLoop) }
  | none => { d with errors := { defect := .unmatchedTerminator, loc } :: d.errors }

/-- All errors of a finished draft: those found on the way, then the loops still open. -/
def allErrors (d : Draft) : List BracketError :=
  d.errors.reverse ++
    d.scopes.above.map fun s => { defect := .unterminatedLoop, loc := s.loc }

/-- The tree of a finished draft, or its errors. -/
def result (d : Draft) : Except (List BracketError) (List Node) :=
  match d.allErrors with
  | [] => .ok d.scopes.root.nodes.reverse
  | errors => .error errors

end Draft

namespace Cursor

/-- Passes the copies of `b` ahead and counts them on from `n`. -/
def passRun (b : UInt8) (c : Cursor) (n : Nat) : Nat × Cursor :=
  match h : c.advance? with
  | none => (n, c)
  | some d => if c.peek? = some b then passRun b d (n + 1) else (n, c)
termination_by c.after.length
decreasing_by
  have := length_after_advance? h
  omega

theorem length_after_passRun (b : UInt8) (c : Cursor) (n : Nat) :
    (passRun b c n).2.after.length ≤ c.after.length := by
  fun_induction passRun b c n with
  | case1 => exact Nat.le_refl _
  | case2 c n d h _ ih =>
    have := length_after_advance? h
    omega
  | case3 => exact Nat.le_refl _

/-- Reads on to the end of the source. -/
def readAll (c : Cursor) (draft : Draft) : Draft × Cursor :=
  match _h : c.advance? with
  | none => (draft, c)
  | some d =>
    match c.peek? with
    | none => (draft, c)
    | some b =>
      if b = Text.ascii '[' then readAll d (draft.openLoop c.location)
      else if b = Text.ascii ']' then readAll d (draft.closeLoop c.location)
      else
        match Kind.ofByte? b with
        | none => readAll d draft
        | some kind =>
          if kind.coalesces then
            let run := passRun b d 1
            readAll run.2 (draft.add { kind, count := Int64.ofNat run.1, loc := c.location })
          else readAll d (draft.add { kind, loc := c.location })
termination_by c.after.length
decreasing_by
  all_goals
    have hd := length_after_advance? _h
    have hr := fun b => length_after_passRun b d 1
    grind

/-- Parses what lies ahead, and ends at the end of the source. -/
def parse (c : Cursor) : Except (List BracketError) (List Node) × Cursor :=
  let (draft, c') := c.readAll (Draft.start c.location)
  (draft.result, c')

end Cursor

/-- The tree of a source, or all of its bracket errors. -/
def parse (file source : Bytes) : Except (List BracketError) (List Node) :=
  (Cursor.start file source).parse.1

end TapeLang
