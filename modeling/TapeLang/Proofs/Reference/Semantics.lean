import Mathlib.Data.List.Infix
import Mathlib.Logic.Function.Iterate
import Mathlib.Order.Monotone.Basic
import TapeLang.Text.Bytes

/-!
# The reference semantics

A source is run byte by byte on a tape of 16-bit cells that has no ends. Beside the run there is an
account of the instructions that compiled code takes for it. Compiled code does a run of equal bytes
at once, so the whole run is charged to its last byte.

* `World.perform`: what a byte does to the tape and the streams.
* `Config.next`, `trace`: one byte of a run, and several.
* `Account.next`, `account`: the same with the instructions taken and the cells reached.
* **`account_halted`**: nothing changes after the end of a source.
-/

namespace TapeLang.Reference

/-! ## The tape and the streams -/

/-- A tape with the place on it, the input that is left and the output so far. -/
structure World where
  cells : Int → UInt16 := fun _ => 0
  position : Int := 0
  input : Bytes
  output : Bytes := []

namespace World

/-- The current cell. -/
def cell (w : World) : UInt16 := w.cells w.position

/-- Writes the current cell. -/
def put (w : World) (v : UInt16) : World :=
  { w with cells := Function.update w.cells w.position v }

/-- Moves along the tape. -/
def move (w : World) (distance : Int) : World :=
  { w with position := w.position + distance }

/-- Outputs the low byte of the current cell. -/
def write (w : World) : World :=
  { w with output := w.output ++ [w.cell.toUInt8] }

/-- Stores the next byte of the input, or `0xffff` at its end. -/
def read (w : World) : World :=
  match w.input with
  | [] => w.put 0xffff
  | b :: rest => { w.put b.toUInt16 with input := rest }

/-- Does what a byte that is no bracket says. -/
def perform (b : UInt8) (w : World) : World :=
  if b = Text.ascii '+' then w.put (w.cell + 1)
  else if b = Text.ascii '-' then w.put (w.cell - 1)
  else if b = Text.ascii '>' then w.move 1
  else if b = Text.ascii '<' then w.move (-1)
  else if b = Text.ascii '.' then w.write
  else if b = Text.ascii ',' then w.read
  else w

theorem read_nil {w : World} (h : w.input = []) : w.read = w.put 0xffff := by
  rw [read, h]

theorem read_cons {w : World} {b : UInt8} {rest : Bytes} (h : w.input = b :: rest) :
    w.read = { w.put b.toUInt16 with input := rest } := by
  rw [read, h]

theorem output_read (w : World) : w.read.output = w.output := by
  unfold read
  split <;> rfl

theorem position_read (w : World) : w.read.position = w.position := by
  unfold read
  split <;> rfl

theorem output_perform (b : UInt8) (w : World) : w.output <+: (w.perform b).output := by
  unfold perform
  split
  · exact List.prefix_rfl
  split
  · exact List.prefix_rfl
  split
  · exact List.prefix_rfl
  split
  · exact List.prefix_rfl
  split
  · exact List.prefix_append _ _
  split
  · rw [output_read]
  · exact List.prefix_rfl

end World

/-! ## Runs of a source -/

/-- What follows the loop that is open, with so many loops open in it. -/
def afterLoop : (depth : Nat) → Bytes → Bytes
  | _, [] => []
  | depth, b :: rest =>
    if b = Text.ascii '[' then afterLoop (depth + 1) rest
    else if b = Text.ascii ']' then
      match depth with
      | 0 => rest
      | depth + 1 => afterLoop depth rest
    else afterLoop depth rest

/-- A run of a source: the bytes ahead, and for each open loop the bytes from its body on. -/
structure Config where
  code : Bytes
  loops : List Bytes := []
  world : World

namespace Config

/-- A source before its first byte. -/
def start (source input : Bytes) : Config :=
  { code := source, world := { input } }

/-- Runs the byte ahead. Loops go on while the cell is not zero. -/
def next (c : Config) : Config :=
  match c.code with
  | [] => c
  | b :: rest =>
    if b = Text.ascii '[' then
      if c.world.cell = 0 then { c with code := afterLoop 0 rest }
      else { c with code := rest, loops := rest :: c.loops }
    else if b = Text.ascii ']' then
      match c.loops with
      | [] => { c with code := rest }
      | body :: loops =>
        if c.world.cell = 0 then { c with code := rest, loops } else { c with code := body }
    else { c with code := rest, world := c.world.perform b }

/-- Whether the byte ahead reads or writes the current cell. -/
def accesses (c : Config) : Prop :=
  ∃ b ∈ c.code.head?, b ∈ utf8 "+-.,[]"

instance (c : Config) : Decidable c.accesses :=
  inferInstanceAs (Decidable (∃ b ∈ c.code.head?, _))

/-- Whether the byte ahead is the last of a run of moves forward. -/
def endsForward (c : Config) : Prop :=
  c.code.head? = some (Text.ascii '>') ∧ c.code.tail.head? ≠ some (Text.ascii '>')

instance (c : Config) : Decidable c.endsForward :=
  inferInstanceAs (Decidable (_ ∧ _))

/-- The instructions that compiled code takes for the byte ahead, if the cells up to `backed` are in
memory. -/
def cost (c : Config) (backed : Nat) : Nat :=
  match c.code with
  | [] => 0
  | b :: rest =>
    if b = Text.ascii '.' then 5
    else if b = Text.ascii ',' then if c.world.input.isEmpty then 9 else 8
    else if b = Text.ascii '[' then 3
    else if b = Text.ascii ']' then 2
    else if rest.head? = some b then 0
    else if b = Text.ascii '>' then 4 + 3 * ((c.world.position + 1).toNat - backed)
    else if b = Text.ascii '+' ∨ b = Text.ascii '-' ∨ b = Text.ascii '<' then 1
    else 0

/-- The instructions that compiled code takes before it accesses the cell for the byte ahead. -/
def lead (c : Config) : Nat :=
  if c.code.head? = some (Text.ascii '.') then 4
  else if c.code.head? = some (Text.ascii '[') then 1
  else 0

theorem cost_pos_of_endsForward {c : Config} (h : c.endsForward) (backed : Nat) :
    0 < c.cost backed := by
  rcases c with ⟨_ | ⟨b, rest⟩, loops, w⟩
  · cases h.1
  · obtain rfl : b = Text.ascii '>' := Option.some.inj h.1
    have hlast : rest.head? ≠ some (Text.ascii '>') := h.2
    change 0 < if rest.head? = some _ then _ else 4 + _
    rw [if_neg hlast]
    exact Nat.lt_of_lt_of_le (by decide) (Nat.le_add_right 4 _)

variable {b : UInt8} {rest body : Bytes} {loops : List Bytes} {w : World}

theorem next_perform (ho : b ≠ Text.ascii '[') (hc : b ≠ Text.ascii ']') :
    next ⟨b :: rest, loops, w⟩ = ⟨rest, loops, w.perform b⟩ := by
  simp only [next, if_neg ho, if_neg hc]

theorem next_open :
    next ⟨Text.ascii '[' :: rest, loops, w⟩ =
      if w.cell = 0 then ⟨afterLoop 0 rest, loops, w⟩ else ⟨rest, rest :: loops, w⟩ := rfl

theorem next_close :
    next ⟨Text.ascii ']' :: rest, body :: loops, w⟩ =
      if w.cell = 0 then ⟨rest, loops, w⟩ else ⟨body, body :: loops, w⟩ := rfl

end Config

/-- The run of a source after so many bytes. -/
def trace (source input : Bytes) (n : Nat) : Config :=
  Config.next^[n] (.start source input)

/-! ## Runs with an account -/

/-- A run with what compiled code has done for it. -/
structure Account where
  config : Config
  /-- The furthest position at the end of a forward move: the cells up to it are in memory. -/
  backed : Nat := 0
  /-- The furthest position so far. -/
  furthest : Nat := 0
  /-- The instructions taken so far; two come before the first byte. -/
  elapsed : Nat := 2

namespace Account

/-- Runs the byte ahead. -/
def next (a : Account) : Account :=
  let config := a.config.next
  let reached := config.world.position.toNat
  { config
    backed := if a.config.endsForward then max a.backed reached else a.backed
    furthest := max a.furthest reached
    elapsed := a.elapsed + a.config.cost a.backed }

@[simp] theorem config_next (a : Account) : a.next.config = a.config.next := rfl

theorem backed_next (a : Account) :
    a.next.backed = if a.config.endsForward then
      max a.backed a.config.next.world.position.toNat else a.backed := rfl

theorem elapsed_next (a : Account) : a.elapsed ≤ a.next.elapsed := Nat.le_add_right _ _

theorem next_of_halted {a : Account} (h : a.config.code = [])
    (hp : a.config.world.position.toNat ≤ a.furthest) : a.next = a := by
  rcases a with ⟨⟨code, loops, w⟩, backed, furthest, elapsed⟩
  obtain rfl : code = [] := h
  have hf : max furthest w.position.toNat = furthest := max_eq_left hp
  change Account.mk ⟨[], loops, w⟩ backed (max furthest w.position.toNat) elapsed = _
  rw [hf]

end Account

/-- The run of a source after so many bytes, with its account. -/
def account (source input : Bytes) (n : Nat) : Account :=
  Account.next^[n] { config := .start source input }

variable (source input : Bytes)

theorem account_succ (n : Nat) : account source input (n + 1) = (account source input n).next :=
  Function.iterate_succ_apply' _ _ _

theorem config_account (n : Nat) : (account source input n).config = trace source input n := by
  induction n with
  | zero => rfl
  | succ n ih =>
    rw [account_succ, Account.config_next, ih]
    exact (Function.iterate_succ_apply' Config.next n _).symm

theorem position_le_furthest (n : Nat) :
    (account source input n).config.world.position.toNat ≤ (account source input n).furthest := by
  cases n with
  | zero => exact le_rfl
  | succ n =>
    rw [account_succ]
    exact le_max_right _ _

variable {source input}

/-- **Nothing changes after the end of a source.** -/
theorem account_halted {n m : Nat} (h : (account source input n).config.code = []) (hm : n ≤ m) :
    account source input m = account source input n := by
  induction m, hm using Nat.le_induction with
  | base => rfl
  | succ m _ ih =>
    rw [account_succ, ih]
    exact Account.next_of_halted h (position_le_furthest source input n)

/-- What is true of a source up to its end is true for ever. -/
theorem forall_trace_of_halted {P : Config → Prop} {n : Nat} (h : (trace source input n).code = [])
    (hP : ∀ i ≤ n, P (trace source input i)) (i : Nat) : P (trace source input i) := by
  rcases Nat.le_total i n with hi | hi
  · exact hP i hi
  · rw [← config_account] at h
    rw [← config_account, account_halted h hi, config_account]
    exact hP n le_rfl

theorem elapsed_mono : Monotone fun n => (account source input n).elapsed := by
  refine monotone_nat_of_le_succ fun n => ?_
  simp only [account_succ]
  exact Account.elapsed_next _

theorem elapsed_lt_of_endsForward {n : Nat} (h : (account source input n).config.endsForward) :
    (account source input n).elapsed < (account source input (n + 1)).elapsed := by
  rw [account_succ]
  exact Nat.lt_add_of_pos_right (Config.cost_pos_of_endsForward h _)

end TapeLang.Reference
