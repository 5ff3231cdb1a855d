/-!
# Stacks that are never empty

The bottom element is given at the start and cannot be popped, so the top always exists. A
top-level scope and its nested ones can then be kept in one stack.

* `Stack.pop?`: refuses to remove the bottom.
-/

namespace TapeLang

/-- A stack with a permanent bottom element. -/
structure Stack (α : Type) where
  /-- The bottom element. -/
  root : α
  /-- The elements above the bottom, top first. -/
  above : List α := []
  deriving DecidableEq, Repr

namespace Stack

variable {α : Type}

/-- The top element. -/
def top (s : Stack α) : α :=
  s.above.headD s.root

/-- Puts an element on top. -/
def push (s : Stack α) (a : α) : Stack α :=
  { s with above := a :: s.above }

/-- The top element and the stack below it, unless only the bottom is left. -/
def pop? (s : Stack α) : Option (α × Stack α) :=
  match s.above with
  | [] => none
  | a :: above => some (a, { s with above := above })

/-- Changes the top element. -/
def modifyTop (s : Stack α) (f : α → α) : Stack α :=
  match s.above with
  | [] => { s with root := f s.root }
  | a :: above => { s with above := f a :: above }

/-- Replaces the bottom element. -/
def setRoot (s : Stack α) (a : α) : Stack α :=
  { s with root := a }

/-- The number of elements, the bottom included. -/
def size (s : Stack α) : Nat :=
  s.above.length + 1

@[simp] theorem pop?_push (s : Stack α) (a : α) : (s.push a).pop? = some (a, s) :=
  rfl

@[simp] theorem top_push (s : Stack α) (a : α) : (s.push a).top = a :=
  rfl

@[simp] theorem top_modifyTop (s : Stack α) (f : α → α) : (s.modifyTop f).top = f s.top := by
  rcases s with ⟨root, _ | ⟨a, above⟩⟩ <;> rfl

end Stack

end TapeLang
