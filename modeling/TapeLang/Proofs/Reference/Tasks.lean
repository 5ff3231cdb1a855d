import Mathlib.Tactic.WLOG
import TapeLang.Node
import TapeLang.Proofs.Reference.Semantics

/-!
# Runs of a tree

A tree is run node by node. What is left to do is a list of tasks: nodes, and loops whose body has
just been run. Every task takes as many instructions as its compiled code does.

* `Task`, `Work`: what is left to do, and the run so far.
* `Work.next`: one task.
* `Runnable`: the trees whose nodes all have a byte.
* **`elapsed_lt`**: a task of such a tree takes time.
-/

namespace TapeLang.Reference

/-! ## Repeated bytes -/

namespace World

variable (w : World)

@[simp] theorem cell_put (v : UInt16) : (w.put v).cell = v := by
  simp [cell, put]

@[simp] theorem put_put (v u : UInt16) : (w.put v).put u = w.put u := by
  simp [put]

@[simp] theorem put_cell : w.put w.cell = w := by
  simp [put, cell]

theorem iterate_increment (n : Nat) :
    (perform (Text.ascii '+'))^[n] w = w.put (w.cell + UInt16.ofNat n) := by
  induction n with
  | zero => simp
  | succ n ih =>
    rw [Function.iterate_succ_apply', ih]
    change ((w.put _).put ((w.put _).cell + 1)) = _
    rw [cell_put, put_put, UInt16.ofNat_add, UInt16.add_assoc]
    rfl

theorem iterate_decrement (n : Nat) :
    (perform (Text.ascii '-'))^[n] w = w.put (w.cell - UInt16.ofNat n) := by
  induction n with
  | zero => simp
  | succ n ih =>
    rw [Function.iterate_succ_apply', ih]
    change ((w.put _).put ((w.put _).cell - 1)) = _
    rw [cell_put, put_put, UInt16.ofNat_add]
    congr 1
    grind

theorem iterate_forward (n : Nat) : (perform (Text.ascii '>'))^[n] w = w.move n := by
  induction n with
  | zero => simp [move]
  | succ n ih =>
    rw [Function.iterate_succ_apply', ih]
    change (w.move n).move 1 = _
    simp only [move, Int.natCast_succ, Int.add_assoc]

theorem iterate_backward (n : Nat) : (perform (Text.ascii '<'))^[n] w = w.move (-n) := by
  induction n with
  | zero => simp [move]
  | succ n ih =>
    rw [Function.iterate_succ_apply', ih]
    change (w.move (-n)).move (-1) = _
    simp only [move, Int.natCast_succ, Int.add_assoc, Int.neg_add]

end World

/-! ## Tasks -/

/-- A thing to do: a node, or the test after the body of a loop. -/
inductive Task where
  | node (n : Node)
  | again (body : List Node)

/-- How often a node performs its byte. -/
def times (kind : Kind) (count : Int64) : Nat :=
  if kind.coalesces then Node.repeats count else 1

/-- What a node that is no loop does to the world. -/
def World.act (w : World) (kind : Kind) (count : Int64) : World :=
  (World.perform kind.byte)^[times kind count] w

/-- The instructions of a node that is no loop, if the cells up to `backed` are in memory. -/
def operationCost (w : World) (backed : Nat) (count : Int64) : Kind → Nat
  | .increment | .decrement | .moveBackward => 1
  | .moveForward => 4 + 3 * ((w.position + Node.repeats count).toNat - backed)
  | .write => 5
  | .read => if w.input.isEmpty then 9 else 8
  | .loop | .unknown _ => 0

/-- A run of a tree. -/
structure Work where
  todo : List Task
  world : World
  /-- The furthest position that a forward move has reached. -/
  backed : Nat := 0
  /-- The instructions taken so far. -/
  elapsed : Nat := 2

namespace Work

/-- A tree before its first node. -/
def start (nodes : List Node) (input : Bytes) : Work :=
  { todo := nodes.map .node, world := { input } }

/-- Tests the cell at one end of a loop: the body comes next unless the cell is zero. -/
def enter (w : Work) (body : List Node) (rest : List Task) (cost : Nat) : Work :=
  { w with
    todo := if w.world.cell = 0 then rest else body.map .node ++ .again body :: rest
    elapsed := w.elapsed + cost }

/-- Runs a node that is no loop. -/
def act (w : Work) (kind : Kind) (count : Int64) (rest : List Task) : Work :=
  let world := w.world.act kind count
  { todo := rest
    world
    backed := if kind = .moveForward then max w.backed world.position.toNat else w.backed
    elapsed := w.elapsed + operationCost w.world w.backed count kind }

/-- Runs the first task. -/
def next (w : Work) : Work :=
  match w.todo with
  | [] => w
  | .again body :: rest => w.enter body rest 2
  | .node ⟨.loop, _, children, _⟩ :: rest => w.enter children rest 3
  | .node ⟨kind, count, _, _⟩ :: rest => w.act kind count rest

/-- Whether a kind of node reads or writes the current cell. -/
def touches : Kind → Prop
  | .moveForward | .moveBackward | .unknown _ => False
  | _ => True

/-- Whether the first task reads or writes the current cell. -/
def accesses (w : Work) : Prop :=
  match w.todo with
  | [] => False
  | .again _ :: _ => True
  | .node n :: _ => touches n.kind

/-- The instructions before the first task accesses the cell. -/
def lead (w : Work) : Nat :=
  match w.todo with
  | .node ⟨.write, _, _, _⟩ :: _ => 4
  | .node ⟨.loop, _, _, _⟩ :: _ => 1
  | _ => 0

variable {w : Work} {rest : List Task} {kind : Kind} {count : Int64} {children : List Node}
  {loc : Location}

theorem next_of_done (h : w.todo = []) : w.next = w := by
  rw [next, h]

theorem not_accesses_of_done (h : w.todo = []) : ¬ w.accesses := by
  rw [accesses, h]
  exact id

theorem next_again (h : w.todo = .again children :: rest) :
    w.next = w.enter children rest 2 := by
  rw [next, h]

theorem next_loop (h : w.todo = .node ⟨.loop, count, children, loc⟩ :: rest) :
    w.next = w.enter children rest 3 := by
  rw [next, h]

theorem next_operation (hk : kind ≠ .loop)
    (h : w.todo = .node ⟨kind, count, children, loc⟩ :: rest) :
    w.next = w.act kind count rest := by
  rw [next, h]
  cases kind with
  | loop => exact absurd rfl hk
  | _ => rfl

end Work

/-- The run of a tree after so many tasks. -/
def work (nodes : List Node) (input : Bytes) (j : Nat) : Work :=
  Work.next^[j] (.start nodes input)

theorem work_succ (nodes : List Node) (input : Bytes) (j : Nat) :
    work nodes input (j + 1) = (work nodes input j).next :=
  Function.iterate_succ_apply' _ _ _

/-! ## Trees that can be run -/

/-- Every node is a loop or has a byte of its own, and no count is negative. -/
inductive Runnable : List Node → Prop
  | nil : Runnable []
  | loop {count : Int64} {children rest : List Node} {loc : Location} :
    Runnable children → Runnable rest → Runnable (⟨.loop, count, children, loc⟩ :: rest)
  | operation {kind : Kind} {count : Int64} {children rest : List Node} {loc : Location} :
    Kind.ofByte? kind.byte = some kind → 0 ≤ count.toInt → Runnable rest →
      Runnable (⟨kind, count, children, loc⟩ :: rest)

/-- What is left to do can be run. -/
inductive Task.Runnables : List Task → Prop
  | nil : Runnables []
  | again {body : List Node} {rest : List Task} :
    Runnable body → Runnables rest → Runnables (.again body :: rest)
  | loop {count : Int64} {children : List Node} {loc : Location} {rest : List Task} :
    Runnable children → Runnables rest →
      Runnables (.node ⟨.loop, count, children, loc⟩ :: rest)
  | operation {kind : Kind} {count : Int64} {children : List Node} {loc : Location}
    {rest : List Task} : Kind.ofByte? kind.byte = some kind → 0 ≤ count.toInt → Runnables rest →
      Runnables (.node ⟨kind, count, children, loc⟩ :: rest)

theorem Runnable.tasks {nodes : List Node} {rest : List Task} (h : Runnable nodes)
    (hr : Task.Runnables rest) : Task.Runnables (nodes.map .node ++ rest) := by
  induction h with
  | nil => exact hr
  | loop hc _ _ ih => exact .loop hc ih
  | operation hk hn _ ih => exact .operation hk hn ih

theorem ne_loop_of_byte {kind : Kind} (h : Kind.ofByte? kind.byte = some kind) :
    kind ≠ .loop := by
  rintro rfl
  cases h

variable {w : Work}

theorem Work.runnables_enter {body : List Node} {rest : List Task} (hb : Runnable body)
    (hr : Task.Runnables rest) (cost : Nat) : Task.Runnables (w.enter body rest cost).todo := by
  change Task.Runnables (if _ then _ else _)
  split
  · exact hr
  · exact hb.tasks (.again hb hr)

theorem Work.runnables_next (h : Task.Runnables w.todo) : Task.Runnables w.next.todo := by
  rcases w with ⟨todo, world, backed, elapsed⟩
  cases h with
  | nil => exact .nil
  | again hb hr => exact runnables_enter hb hr 2
  | loop hc hr => exact runnables_enter hc hr 3
  | operation hk _ hr =>
    rw [next_operation (ne_loop_of_byte hk) rfl]
    exact hr

theorem Work.elapsed_lt_next (h : Task.Runnables w.todo) (ht : w.todo ≠ []) :
    w.elapsed < w.next.elapsed := by
  rcases w with ⟨todo, world, backed, elapsed⟩
  cases h with
  | nil => exact absurd rfl ht
  | again => exact Nat.lt_add_of_pos_right (by decide)
  | loop => exact Nat.lt_add_of_pos_right (by decide)
  | @operation kind count _ _ _ hk =>
    rw [next_operation (ne_loop_of_byte hk) rfl]
    refine Nat.lt_add_of_pos_right ?_
    cases kind with
    | loop | unknown => cases hk
    | increment | decrement | moveBackward | write => exact Nat.succ_pos _
    | moveForward => exact Nat.lt_of_lt_of_le (by decide) (Nat.le_add_right 4 _)
    | read =>
      change 0 < if _ then 9 else 8
      split <;> decide

/-- An access comes before the end of its task. -/
theorem Work.lead_lt (h : Task.Runnables w.todo) (ha : w.accesses) :
    w.elapsed + w.lead < w.next.elapsed := by
  rcases w with ⟨todo, world, backed, elapsed⟩
  cases h with
  | nil => exact absurd ha id
  | again => exact Nat.add_lt_add_left (show 0 < 2 by decide) elapsed
  | loop => exact Nat.add_lt_add_left (show 1 < 3 by decide) elapsed
  | @operation kind count _ _ _ hk _ hr =>
    rw [next_operation (ne_loop_of_byte hk) rfl]
    refine Nat.add_lt_add_left ?_ elapsed
    cases kind with
    | loop | unknown => cases hk
    | moveForward | moveBackward => exact absurd ha id
    | increment | decrement => exact Nat.one_pos
    | write => exact Nat.lt_succ_self 4
    | read =>
      change 0 < if _ then 9 else 8
      split <;> decide

theorem World.output_act (w : World) (kind : Kind) (count : Int64) :
    w.output <+: (w.act kind count).output := by
  unfold act
  generalize times kind count = n
  induction n with
  | zero => exact List.prefix_rfl
  | succ n ih =>
    rw [Function.iterate_succ_apply']
    exact ih.trans (output_perform _ _)

theorem Work.output_next (w : Work) : w.world.output <+: w.next.world.output := by
  unfold next
  split
  · exact List.prefix_rfl
  · exact List.prefix_rfl
  · exact List.prefix_rfl
  · exact World.output_act _ _ _

/-! ## Runs -/

variable {nodes : List Node} {input : Bytes} {i j : Nat}

theorem runnables_work (h : Runnable nodes) (j : Nat) :
    Task.Runnables (work nodes input j).todo := by
  induction j with
  | zero =>
    have := h.tasks .nil
    rwa [List.append_nil] at this
  | succ j ih =>
    rw [work_succ]
    exact Work.runnables_next ih

theorem work_done (h : (work nodes input i).todo = []) (hij : i ≤ j) :
    work nodes input j = work nodes input i := by
  induction j, hij using Nat.le_induction with
  | base => rfl
  | succ j _ ih => rw [work_succ, ih, Work.next_of_done h]

theorem work_output_prefix (hij : i ≤ j) :
    (work nodes input i).world.output <+: (work nodes input j).world.output := by
  induction j, hij using Nat.le_induction with
  | base => exact List.prefix_rfl
  | succ j _ ih =>
    rw [work_succ]
    exact ih.trans (Work.output_next _)

theorem work_elapsed_mono (h : Runnable nodes) (hij : i ≤ j) :
    (work nodes input i).elapsed ≤ (work nodes input j).elapsed := by
  induction j, hij using Nat.le_induction with
  | base => exact le_rfl
  | succ j _ ih =>
    rw [work_succ]
    by_cases ht : (work nodes input j).todo = []
    · rwa [Work.next_of_done ht]
    · exact ih.trans (Work.elapsed_lt_next (runnables_work h j) ht).le

/-- **A task of a tree that can be run takes time.** -/
theorem elapsed_lt (h : Runnable nodes) (hij : i < j) (hi : (work nodes input i).todo ≠ []) :
    (work nodes input i).elapsed < (work nodes input j).elapsed := by
  have hn := Work.elapsed_lt_next (runnables_work h i) hi
  rw [← work_succ] at hn
  exact hn.trans_le (work_elapsed_mono h hij)

theorem work_eq_of_elapsed (h : Runnable nodes)
    (he : (work nodes input i).elapsed = (work nodes input j).elapsed) :
    work nodes input i = work nodes input j := by
  wlog hij : i ≤ j generalizing i j
  · exact (this he.symm (Nat.le_of_not_le hij)).symm
  rcases Nat.eq_or_lt_of_le hij with rfl | hlt
  · rfl
  · by_cases hi : (work nodes input i).todo = []
    · exact (work_done hi hij).symm
    · exact absurd he (elapsed_lt h hlt hi).ne

end TapeLang.Reference
