import Mathlib.Data.List.Basic
import TapeLang.Node

/-!
# Trees in reading order

The nodes of a tree are listed with every node before the nodes inside it. Some kinds may be left
closed: code is written for what is inside a loop, and not for what is inside anything else.

* `Node.preorderAll`: the nodes of a tree, going into the kinds that are chosen.
* `Node.everywhere`, `Node.throughLoops`: every node, and those that only loops lead to.
* `Node.isUnknown`: a node that no source can have.
* `Node.relocateAll`: a tree with its locations moved.
-/

namespace TapeLang.Node

/-- Induction over a tree that goes into every node. -/
theorem forest_induction {P : List Node → Prop} (nil : P [])
    (cons : ∀ kind count children loc rest, P children → P rest →
      P (⟨kind, count, children, loc⟩ :: rest)) : ∀ nodes, P nodes
  | [] => nil
  | ⟨kind, count, children, loc⟩ :: rest =>
    cons kind count children loc rest (forest_induction nil cons children)
      (forest_induction nil cons rest)

mutual

/-- A node and the nodes inside it, if its kind is entered. -/
def preorder (enter : Kind → Bool) : Node → List Node
  | ⟨kind, count, children, loc⟩ =>
    ⟨kind, count, children, loc⟩ :: if enter kind then preorderAll enter children else []

/-- Nodes, each with the nodes inside it if its kind is entered. -/
def preorderAll (enter : Kind → Bool) : List Node → List Node
  | [] => []
  | n :: ns => preorder enter n ++ preorderAll enter ns

end

/-- Every node of a tree, at any depth. -/
def everywhere (nodes : List Node) : List Node := preorderAll (fun _ => true) nodes

/-- The nodes of a tree that have only loops around them. -/
def throughLoops (nodes : List Node) : List Node := preorderAll (fun kind => kind = .loop) nodes

/-- A node whose kind is none of the seven. -/
def isUnknown (n : Node) : Bool := n.kind ∉ Kind.known

@[simp] theorem everywhere_nil : everywhere [] = [] := rfl

@[simp] theorem everywhere_cons (n : Node) (ns : List Node) :
    everywhere (n :: ns) = n :: (everywhere n.children ++ everywhere ns) := by
  rcases n with ⟨kind, count, children, loc⟩
  simp [everywhere, preorderAll, preorder]

theorem mem_everywhere {m : Node} {nodes : List Node} :
    m ∈ everywhere nodes ↔ ∃ n ∈ nodes, m = n ∨ m ∈ everywhere n.children := by
  induction nodes with
  | nil => simp
  | cons n ns ih => simp [ih, or_assoc]

theorem mem_everywhere_of_mem {n : Node} {nodes : List Node} (h : n ∈ nodes) :
    n ∈ everywhere nodes :=
  mem_everywhere.mpr ⟨n, h, .inl rfl⟩

theorem throughLoops_loop (count : Int64) (children : List Node) (loc : Location)
    (rest : List Node) :
    throughLoops (⟨.loop, count, children, loc⟩ :: rest) =
      ⟨.loop, count, children, loc⟩ :: (throughLoops children ++ throughLoops rest) := by
  simp [throughLoops, preorderAll, preorder]

theorem throughLoops_operation {kind : Kind} (hk : kind ≠ .loop) (count : Int64)
    (children : List Node) (loc : Location) (rest : List Node) :
    throughLoops (⟨kind, count, children, loc⟩ :: rest) =
      ⟨kind, count, children, loc⟩ :: throughLoops rest := by
  simp [throughLoops, preorderAll, preorder, hk]

/-! ## Moved locations -/

section

variable (f : Location → Location)

mutual

/-- A tree with its locations moved. -/
def relocate : Node → Node
  | ⟨kind, count, children, loc⟩ => ⟨kind, count, relocateAll children, f loc⟩

/-- Trees with their locations moved. -/
def relocateAll : List Node → List Node
  | [] => []
  | n :: ns => relocate n :: relocateAll ns

end

theorem relocateAll_eq_map (nodes : List Node) : relocateAll f nodes = nodes.map (relocate f) := by
  induction nodes with
  | nil => rfl
  | cons n ns ih => rw [relocateAll, ih, List.map_cons]

theorem relocateAll_eq_self {nodes : List Node} (h : ∀ n ∈ everywhere nodes, f n.loc = n.loc) :
    relocateAll f nodes = nodes := by
  induction nodes using forest_induction with
  | nil => rfl
  | cons kind count children loc rest ihc ihr =>
    simp only [everywhere_cons, List.forall_mem_cons, List.forall_mem_append] at h
    obtain ⟨hloc, hchildren, hrest⟩ := h
    rw [relocateAll, relocate, ihc hchildren, ihr hrest, hloc]

end

end TapeLang.Node
