import Mathlib.Data.List.Basic
import TapeLang.Assembly.Listing
import TapeLang.Machine.Step

/-!
# The code of a tree

What a listing means to the machine, without its text. A tree is translated twice: to entries,
where jumps name marks that stand between the operations, and to operations whose jumps name
positions. Once every mark has its position the two agree.

* `blockEntries`: the operations and marks of a tree, for any naming of the sites.
* `blockCode`: the operations of a tree that starts at a position.
* `Arch.code`: the operations of a program.
* **`resolve_blockEntries`**: with every mark in its place, the entries resolve to the code.
-/

namespace TapeLang

/-- Induction over a tree that treats loops and operations apart. -/
theorem Node.block_induction {P : List Node → Prop} (nil : P [])
    (loop : ∀ count children loc rest, P children → P rest →
      P (⟨.loop, count, children, loc⟩ :: rest))
    (operation : ∀ kind count children loc rest, kind ≠ .loop → P rest →
      P (⟨kind, count, children, loc⟩ :: rest)) : ∀ nodes, P nodes
  | [] => nil
  | ⟨kind, count, children, loc⟩ :: rest => by
    have hr := Node.block_induction nil loop operation rest
    by_cases hk : kind = .loop
    · subst hk
      exact loop count children loc rest (Node.block_induction nil loop operation children) hr
    · exact operation kind count children loc rest hk hr

namespace Assembly

open Machine

variable {τ : Type} (arch : Arch)

/-! ## Operands and calls -/

/-- The register that holds the tape pointer. -/
def pointer : Arch → Reg
  | .amd64 => .bx
  | .x86 => .si

/-- A register as wide as a word. -/
def wordReg (r : Reg) : Operand τ := .register r (wordWidth arch)

/-- The current cell. -/
def cellOperand : Operand τ := .memory (pointer arch)

/-- The operation that enters the kernel. -/
def trap : Op τ :=
  match arch with
  | .amd64 => .syscall
  | .x86 => .interrupt (.immediate 0x80)

/-- The registers with the arguments of a call. -/
def argumentRegs : List Reg :=
  let (r₀, r₁, r₂) := (callTable arch).arguments
  [r₀, r₁, r₂]

/-- A system call with arguments. -/
def callOps (number : UInt64) (arguments : List (Operand τ)) : List (Op τ) :=
  .mov none (.immediate number.toInt64) (wordReg arch .ax) ::
    ((arguments.zip (argumentRegs arch)).map fun (a, r) => .mov none a (wordReg arch r)) ++
    [trap arch]

/-- The operation that compares the current cell with zero. -/
def testOp : Op τ := .arith .cmp (some .word) (.immediate 0) (cellOperand arch)

/-! ## Entries -/

/-- A part of a program: an operation, or a mark that jumps can name. -/
inductive Entry (τ : Type) where
  | op (o : Op τ)
  | mark (t : τ)

/-- The operations among entries. -/
def ops : List (Entry τ) → List (Op τ)
  | [] => []
  | .op o :: es => o :: ops es
  | .mark _ :: es => ops es

/-- The marks among entries. -/
def marks : List (Entry τ) → List τ
  | [] => []
  | .op _ :: es => marks es
  | .mark t :: es => t :: marks es

@[simp] theorem ops_append (a b : List (Entry τ)) : ops (a ++ b) = ops a ++ ops b := by
  induction a with
  | nil => rfl
  | cons e a ih => cases e <;> simp [ops, ih]

@[simp] theorem marks_append (a b : List (Entry τ)) : marks (a ++ b) = marks a ++ marks b := by
  induction a with
  | nil => rfl
  | cons e a ih => cases e <;> simp [marks, ih]

@[simp] theorem ops_map_op (os : List (Op τ)) : ops (os.map Entry.op) = os := by
  induction os with
  | nil => rfl
  | cons o os ih => rw [List.map_cons, ops, ih]

@[simp] theorem marks_map_op (os : List (Op τ)) : marks (os.map Entry.op) = [] := by
  induction os with
  | nil => rfl
  | cons o os ih => rw [List.map_cons, marks, ih]

/-- The entries of an operation of the tape language whose sites have names. -/
def operationEntries (site : Site → τ) (count : Int64) : Kind → List (Entry τ)
  | .increment =>
    [.op (.arith .add (some .word) (.immediate (count &&& 0xffff)) (cellOperand arch))]
  | .decrement =>
    [.op (.arith .sub (some .word) (.immediate (count &&& 0xffff)) (cellOperand arch))]
  | .moveBackward =>
    [.op (.arith .add none (.immediate (2 * count)) (wordReg arch (pointer arch)))]
  | .moveForward =>
    [.op (.arith .sub none (.immediate (2 * count)) (wordReg arch (pointer arch))),
      .op (.jump .always (.label (site .growEnd))), .mark (site .growStart),
      .op (.push (some .word) (.immediate 0)), .mark (site .growEnd),
      .op (.arith .cmp none (wordReg arch (pointer arch)) (wordReg arch .sp)),
      .op (.jump .above (.label (site .growStart)))]
  | .write =>
    (callOps arch (callTable arch).write
      [.immediate 1, wordReg arch (pointer arch), .immediate 1]).map .op
  | .read =>
    .op (.mov (some .word) (.immediate 0) (cellOperand arch)) ::
      (callOps arch (callTable arch).read
        [.immediate 0, wordReg arch (pointer arch), .immediate 1]).map .op ++
      [.op (.arith .cmp none (.immediate 1) (wordReg arch .ax)),
        .op (.jump .equal (.label (site .readEnd))),
        .op (.mov (some .word) (.immediate (-1)) (cellOperand arch)), .mark (site .readEnd)]
  | .loop | .unknown _ => []

/-- The entries before the body of a loop. -/
def headEntries (site : Site → τ) : List (Entry τ) :=
  [.op (.jump .always (.label (site .loopEnd))), .mark (site .loopStart)]

/-- The entries after the body of a loop. -/
def footEntries (site : Site → τ) : List (Entry τ) :=
  [.mark (site .loopEnd), .op (testOp arch), .op (.jump .notEqual (.label (site .loopStart)))]

mutual

/-- The entries of a node. -/
def nodeEntries (site : Location → Site → τ) : Node → List (Entry τ)
  | ⟨.loop, _, children, loc⟩ =>
    headEntries (site loc) ++ blockEntries site children ++ footEntries arch (site loc)
  | ⟨kind, count, _, loc⟩ => operationEntries arch (site loc) count kind

/-- The entries of nodes. -/
def blockEntries (site : Location → Site → τ) : List Node → List (Entry τ)
  | [] => []
  | n :: ns => nodeEntries site n ++ blockEntries site ns

end

/-- The entries before a program. -/
def prologueEntries (start : τ) : List (Entry τ) :=
  [.mark start, .op (.push (some (wordWidth arch)) (.immediate 0)),
    .op (.mov none (wordReg arch .sp) (wordReg arch (pointer arch)))]

/-- The operations after a program. -/
def epilogueOps : List (Op τ) := callOps arch (callTable arch).exit [.immediate 0]

theorem nodeEntries_operation (site : Location → Site → τ) {kind : Kind} (hk : kind ≠ .loop)
    (count : Int64) (children : List Node) (loc : Location) :
    nodeEntries arch site ⟨kind, count, children, loc⟩ =
      operationEntries arch (site loc) count kind := by
  cases kind with
  | loop => exact absurd rfl hk
  | _ => rfl

/-! ## Code with positions -/

/-- How far a site of an operation is from its first operation. -/
def Site.offset : Site → Nat
  | .growStart => 2
  | .growEnd => 3
  | .readEnd => 9
  | .loopStart | .loopEnd => 0

/-- The code of an operation of the tape language that starts at a position. -/
def operationCode (start : Nat) (count : Int64) (kind : Kind) : List (Op Nat) :=
  ops (operationEntries arch (fun site => start + site.offset) count kind)

mutual

/-- The code of a node that starts at a position. -/
def nodeCode (start : Nat) : Node → List (Op Nat)
  | ⟨.loop, _, children, _⟩ =>
    let body := blockCode (start + 1) children
    .jump .always (.label (start + 1 + body.length)) ::
      (body ++ [testOp arch, .jump .notEqual (.label (start + 1))])
  | ⟨kind, count, _, _⟩ => operationCode arch start count kind

/-- The code of nodes that starts at a position. -/
def blockCode (start : Nat) : List Node → List (Op Nat)
  | [] => []
  | n :: ns => nodeCode start n ++ blockCode (start + (nodeCode start n).length) ns

end

theorem nodeCode_operation (start : Nat) {kind : Kind} (hk : kind ≠ .loop) (count : Int64)
    (children : List Node) (loc : Location) :
    nodeCode arch start ⟨kind, count, children, loc⟩ = operationCode arch start count kind := by
  cases kind with
  | loop => exact absurd rfl hk
  | _ => rfl

/-- The operations before a program. -/
def prologueCode : List (Op Nat) := ops (prologueEntries arch 0)

end Assembly

/-- The operations of a program. -/
def Arch.code (arch : Arch) (nodes : List Node) : List (Machine.Op Nat) :=
  Assembly.prologueCode arch ++ Assembly.blockCode arch 2 nodes ++ Assembly.epilogueOps arch

namespace Assembly

open Machine

variable {τ : Type} (arch : Arch)

/-! ## Lengths -/

/-- The number of operations that a kind takes, the body of a loop apart. -/
def opCount : Kind → Nat
  | .increment | .decrement | .moveBackward => 1
  | .moveForward | .write => 5
  | .read => 9
  | .loop => 3
  | .unknown _ => 0

mutual

/-- The number of operations of a node. -/
def nodeSize : Node → Nat
  | ⟨.loop, _, children, _⟩ => opCount .loop + blockSize children
  | ⟨kind, _, _, _⟩ => opCount kind

/-- The number of operations of nodes. -/
def blockSize : List Node → Nat
  | [] => 0
  | n :: ns => nodeSize n + blockSize ns

end

theorem length_operationCode (start : Nat) (count : Int64) {kind : Kind} (hk : kind ≠ .loop) :
    (operationCode arch start count kind).length = opCount kind := by
  cases kind with
  | loop => exact absurd rfl hk
  | _ => cases arch <;> rfl

theorem length_blockCode (nodes : List Node) (start : Nat) :
    (blockCode arch start nodes).length = blockSize nodes := by
  induction nodes using Node.block_induction generalizing start with
  | nil => rfl
  | loop count children loc rest ihc ihr =>
    rw [blockCode, List.length_append, ihr, blockSize, nodeCode, nodeSize]
    simp only [List.length_cons, List.length_append, List.length_nil, ihc, opCount]
    omega
  | operation kind count children loc rest hk ihr =>
    rw [blockCode, List.length_append, ihr, blockSize, nodeCode_operation arch start hk,
      length_operationCode arch start count hk]
    cases kind with
  | loop => exact absurd rfl hk
  | _ => rfl

/-! ## Marks in their places -/

/-- Every mark of the entries, which start at a position, is placed where it stands. -/
def Placed (place : τ → Option Nat) : Nat → List (Entry τ) → Prop
  | _, [] => True
  | start, .op _ :: es => Placed place (start + 1) es
  | start, .mark t :: es => place t = some start ∧ Placed place start es

theorem placed_append {place : τ → Option Nat} {start : Nat} {a b : List (Entry τ)} :
    Placed place start (a ++ b) ↔
      Placed place start a ∧ Placed place (start + (ops a).length) b := by
  induction a generalizing start with
  | nil => simp [Placed, ops]
  | cons e a ih =>
    cases e with
    | op o =>
      rw [List.cons_append, Placed, Placed, ih, ops, List.length_cons, Nat.add_right_comm,
        Nat.add_assoc]
    | mark t => rw [List.cons_append, Placed, Placed, ih, ops, and_assoc]

theorem mapM_append_ok {α β ε : Type} {f : α → Except ε β} {a b : List α} {x y : List β}
    (ha : a.mapM f = .ok x) (hb : b.mapM f = .ok y) : (a ++ b).mapM f = .ok (x ++ y) := by
  rw [List.mapM_append, ha, hb]
  rfl

theorem length_of_mapM {α β ε : Type} {f : α → Except ε β} {a : List α} {x : List β}
    (h : a.mapM f = .ok x) : x.length = a.length := by
  induction a generalizing x with
  | nil =>
    cases h
    rfl
  | cons c a ih =>
    rw [List.mapM_cons] at h
    rcases hc : f c with e | d
    · rw [hc] at h
      cases h
    · rcases ha : a.mapM f with e | y
      · rw [hc, ha] at h
        cases h
      · rw [hc, ha] at h
        cases h
        rw [List.length_cons, List.length_cons, ih ha]

theorem resolve_operationEntries {place : τ → Option Nat} {start : Nat} {site : Site → τ}
    {count : Int64} {kind : Kind}
    (h : Placed place start (operationEntries arch site count kind)) :
    (ops (operationEntries arch site count kind)).mapM (Op.resolve place) =
      .ok (operationCode arch start count kind) := by
  cases kind with
  | increment | decrement | moveBackward | loop | unknown => rfl
  | write => cases arch <;> rfl
  | moveForward =>
    obtain ⟨hs, he, -⟩ := h
    simp only [operationEntries, ops, List.mapM_cons, List.mapM_nil, Op.resolve, Operand.resolve,
      wordReg, hs, he]
    rfl
  | read =>
    have hr : place (site .readEnd) = some (start + 9) := by
      cases arch <;> exact h.1
    cases arch <;>
    · simp only [operationEntries, callOps, argumentRegs, callTable, List.zip_cons_cons,
        List.zip_nil_right, List.map_cons, List.map_nil, List.cons_append, List.nil_append, ops,
        List.mapM_cons, List.mapM_nil, Op.resolve, Operand.resolve, wordReg, cellOperand, trap, hr]
      rfl

theorem resolve_loopEntries {place : τ → Option Nat} {start : Nat} {site : Site → τ}
    {body : List (Entry τ)} {code : List (Op Nat)}
    (hc : (ops body).mapM (Op.resolve place) = .ok code)
    (hstart : place (site .loopStart) = some (start + 1))
    (hend : place (site .loopEnd) = some (start + 1 + code.length)) :
    (ops (headEntries site ++ body ++ footEntries arch site)).mapM (Op.resolve place) =
      .ok (.jump .always (.label (start + 1 + code.length)) ::
        (code ++ [testOp arch, .jump .notEqual (.label (start + 1))])) := by
  have hhead : (ops (headEntries site)).mapM (Op.resolve place) =
      .ok [.jump .always (.label (start + 1 + code.length))] := by
    simp only [headEntries, ops, List.mapM_cons, List.mapM_nil, Op.resolve, Operand.resolve, hend]
    rfl
  have hfoot : (ops (footEntries arch site)).mapM (Op.resolve place) =
      .ok [testOp arch, .jump .notEqual (.label (start + 1))] := by
    simp only [footEntries, ops, List.mapM_cons, List.mapM_nil, Op.resolve, Operand.resolve, testOp,
      cellOperand, hstart]
    rfl
  rw [ops_append, ops_append, mapM_append_ok (mapM_append_ok hhead hc) hfoot]
  rfl

/-- **With every mark in its place, the entries of a tree resolve to its code.** -/
theorem resolve_blockEntries {place : τ → Option Nat} (site : Location → Site → τ)
    (nodes : List Node) {start : Nat} (h : Placed place start (blockEntries arch site nodes)) :
    (ops (blockEntries arch site nodes)).mapM (Op.resolve place) =
      .ok (blockCode arch start nodes) := by
  induction nodes using Node.block_induction generalizing start with
  | nil => rfl
  | loop count children loc rest ihc ihr =>
    rw [blockEntries, placed_append] at h
    have hn : (ops (nodeEntries arch site ⟨.loop, count, children, loc⟩)).mapM (Op.resolve place) =
        .ok (nodeCode arch start ⟨.loop, count, children, loc⟩) := by
      have hl := h.1
      rw [nodeEntries, List.append_assoc, placed_append, placed_append] at hl
      obtain ⟨⟨hstart, -⟩, hbody, hend, -⟩ := hl
      have hc := ihc hbody
      rw [← length_of_mapM hc] at hend
      exact resolve_loopEntries arch hc hstart hend
    rw [blockEntries, ops_append, blockCode]
    refine mapM_append_ok hn (ihr ?_)
    rw [length_of_mapM hn]
    exact h.2
  | operation kind count children loc rest hk ihr =>
    rw [blockEntries, nodeEntries_operation arch site hk, placed_append] at h
    have hn := resolve_operationEntries arch h.1
    rw [blockEntries, nodeEntries_operation arch site hk, ops_append, blockCode,
      nodeCode_operation arch start hk]
    refine mapM_append_ok hn (ihr ?_)
    rw [length_of_mapM hn]
    exact h.2

end Assembly

end TapeLang
