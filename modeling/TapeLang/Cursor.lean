import TapeLang.Location
import TapeLang.Stack

/-!
# Cursors

A cursor stands between two bytes of a source and knows its line and column. It keeps one column
counter for each line it has entered, so that going back over a line end finds the column again.

* `Cursor.advance?`, `Cursor.retreat?`: one byte forward or back.
* `Cursor.location`: where the next byte stands.
-/

namespace TapeLang

/-- A position in a source that can move in both directions. -/
structure Cursor where
  file : Bytes
  /-- The bytes already passed, last first. -/
  before : Bytes := []
  /-- The bytes still ahead. -/
  after : Bytes
  line : Nat := 1
  /-- The column in each line entered so far, the current line on top. -/
  columns : Stack Nat := { root := 1 }
  deriving DecidableEq, Repr

namespace Cursor

/-- The byte that ends a line. -/
def newline : UInt8 := Text.ascii '\n'

/-- A cursor before the first byte of a source. -/
def start (file source : Bytes) : Cursor :=
  { file, after := source }

/-- The byte ahead. -/
def peek? (c : Cursor) : Option UInt8 :=
  c.after.head?

/-- Moves over one byte, unless all are passed. -/
def advance? (c : Cursor) : Option Cursor :=
  match c.after with
  | [] => none
  | b :: after =>
    let c := { c with before := b :: c.before, after }
    if b = newline then some { c with line := c.line + 1, columns := c.columns.push 1 }
    else some { c with columns := c.columns.modifyTop (· + 1) }

/-- Moves back over one byte, unless none is passed. -/
def retreat? (c : Cursor) : Option Cursor :=
  match c.before with
  | [] => none
  | b :: before =>
    let c := { c with before, after := b :: c.after }
    if b = newline then
      let columns := match c.columns.pop? with
        | some (_, columns) => columns
        | none => c.columns
      some { c with line := c.line - 1, columns }
    else some { c with columns := c.columns.modifyTop (· - 1) }

/-- Whether every byte is passed. -/
def atEnd (c : Cursor) : Bool :=
  c.after.isEmpty

/-- Whether no byte is passed. -/
def atStart (c : Cursor) : Bool :=
  c.before.isEmpty

/-- The location of the byte ahead. -/
def location (c : Cursor) : Location :=
  { file := c.file, line := Int64.ofNat c.line, column := Int64.ofNat c.columns.top }

/-- All that a step forward changes. -/
theorem advance?_inv {c d : Cursor} (h : c.advance? = some d) : ∃ b, c.after = b :: d.after ∧
    (b = newline ∧ d = { c with
        before := b :: c.before, after := d.after, line := c.line + 1,
        columns := c.columns.push 1 } ∨
      b ≠ newline ∧ d = { c with
        before := b :: c.before, after := d.after, columns := c.columns.modifyTop (· + 1) }) := by
  unfold advance? at h
  split at h
  next => cases h
  next b after hc =>
    split at h
    next hb =>
      cases h
      exact ⟨b, hc, .inl ⟨hb, rfl⟩⟩
    next hb =>
      cases h
      exact ⟨b, hc, .inr ⟨hb, rfl⟩⟩

theorem length_after_advance? {c d : Cursor} (h : c.advance? = some d) :
    d.after.length + 1 = c.after.length := by
  obtain ⟨b, hafter, -⟩ := advance?_inv h
  rw [hafter, List.length_cons]

end Cursor

end TapeLang
