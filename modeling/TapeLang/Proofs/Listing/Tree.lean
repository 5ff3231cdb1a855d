import TapeLang.Proofs.Listing.Code

/-!
# Listings by recursion

The walk with a stack of open loops writes what a recursion over the tree writes.

* `nodeLines`, `blockLines`: the lines of a tree by recursion, up to the first node without code.
* **`walk_eq`**: the walk appends the lines of its nodes.
* **`lines_eq`**: the lines of a listing.
-/

namespace TapeLang.Assembly

variable (d : Arch.Dialect)

mutual

/-- The lines of a node, and the node without code that ended them, if any. -/
def nodeLines : Node → List Line × Option Unknown
  | ⟨.loop, _, children, loc⟩ =>
    match blockLines children with
    | (body, none) => (loopHead loc ++ body ++ loopFoot d loc, none)
    | (body, some u) => (loopHead loc ++ body, some u)
  | ⟨kind, count, _, loc⟩ =>
    match operation? d kind count loc with
    | some lines => (lines, none)
    | none => ([], some ⟨loc, kind⟩)

/-- The lines of nodes, and the node without code that ended them, if any. -/
def blockLines : List Node → List Line × Option Unknown
  | [] => ([], none)
  | n :: ns =>
    match nodeLines n with
    | (lines, none) => (lines ++ (blockLines ns).1, (blockLines ns).2)
    | (lines, some u) => (lines, some u)

end

theorem nodeLines_operation {kind : Kind} (hk : kind ≠ .loop) (count : Int64)
    (children : List Node) (loc : Location) :
    nodeLines d ⟨kind, count, children, loc⟩ =
      match operation? d kind count loc with
      | some lines => (lines, none)
      | none => ([], some ⟨loc, kind⟩) := by
  cases kind with
  | loop => exact absurd rfl hk
  | _ => rfl

theorem walk_operation {kind : Kind} (hk : kind ≠ .loop) (count : Int64) (children : List Node)
    (loc : Location) (rest : List Node) (loops : List OpenLoop) (acc : List Line) :
    walk d (⟨kind, count, children, loc⟩ :: rest) loops acc =
      match operation? d kind count loc with
      | some lines => walk d rest loops (lines.reverse ++ acc)
      | none => (acc.reverse, some ⟨loc, kind⟩) := by
  rcases ho : operation? d kind count loc with _ | lines
  · rw [walk, ho]
    exact hk
  · rw [walk, ho]
    exact hk

/-- **The walk appends the lines of its nodes**, and ends with the first node without code. -/
theorem walk_eq (nodes : List Node) (loops : List OpenLoop) (acc : List Line) :
    walk d nodes loops acc =
      match blockLines d nodes with
      | (lines, none) => walk d [] loops (lines.reverse ++ acc)
      | (lines, some u) => (acc.reverse ++ lines, some u) := by
  induction nodes using Node.block_induction generalizing loops acc with
  | nil => rfl
  | loop count children loc rest ihc ihr =>
    rw [walk, ihc, blockLines, nodeLines]
    rcases blockLines d children with ⟨body, _ | u⟩
    · dsimp only
      rw [walk, ihr]
      rcases blockLines d rest with ⟨lines, _ | u⟩ <;> simp
    · simp
  | operation kind count children loc rest hk ihr =>
    rw [walk_operation d hk, blockLines, nodeLines_operation d hk]
    rcases operation? d kind count loc with _ | lines
    · simp
    · dsimp only
      rw [ihr]
      rcases blockLines d rest with ⟨more, _ | u⟩ <;> simp

/-- **The lines of a listing**: those of the nodes between the prologue and the epilogue. -/
theorem lines_eq {nodes : List Node} {body : List Line} (h : blockLines d nodes = (body, none)) :
    lines d nodes = (prologue d ++ body ++ epilogue d, none) := by
  rw [lines, walk_eq, h]
  dsimp only
  rw [walk]
  simp

end TapeLang.Assembly
