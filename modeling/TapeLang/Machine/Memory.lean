import Std.Data.HashMap

/-!
# Stack memory

Memory is addressed by its distance below the top of the stack. The part near the top, where
nearly everything happens, is kept in an array, the rest in a map. A byte that was never written
is zero.

* `Memory.get`, `Memory.set`: one byte.
* `Memory.load`, `Memory.store`: several bytes, lowest address first.
-/

namespace TapeLang.Machine

/-- The address just above the stack. -/
def stackTop : UInt64 := 0xbff00000

/-- How far below the top the array reaches at most. -/
def nearSpan : Nat := 0x100000

/-- The bytes of the stack. -/
structure Memory where
  near : Array UInt8 := #[]
  far : Std.HashMap Nat UInt8 := {}

namespace Memory

instance : Inhabited Memory := ⟨{}⟩

/-- Writes an element of an array that is taken to be zero beyond its end. -/
@[inline]
def setGrowing (bytes : Array UInt8) (i : Nat) (b : UInt8) : Array UInt8 :=
  if h : i < bytes.size then bytes.set i b h
  else (bytes ++ Array.replicate (i - bytes.size) 0).push b

theorem getD_setGrowing (bytes : Array UInt8) (i j : Nat) (b : UInt8) :
    (setGrowing bytes i b).getD j 0 = if j = i then b else bytes.getD j 0 := by
  unfold setGrowing
  split
  · simp only [Array.getD_eq_getD_getElem?, Array.getElem?_set]
    grind
  · simp only [Array.getD_eq_getD_getElem?, Array.getElem?_push, Array.getElem?_append,
      Array.getElem?_replicate, Array.size_append, Array.size_replicate]
    grind

/-- How far below the top of the stack an address is. -/
@[inline]
def depth (address : UInt64) : Nat :=
  (stackTop - 1 - address).toNat

theorem depth_inj {a b : UInt64} : depth a = depth b ↔ a = b := by
  unfold depth
  rw [UInt64.toNat_inj, UInt64.sub_right_inj]

/-- The byte at an address. -/
@[inline]
def get (m : Memory) (address : UInt64) : UInt8 :=
  let i := depth address
  if i < nearSpan then m.near.getD i 0 else m.far.getD i 0

/-- Writes the byte at an address. -/
@[inline]
def set (m : Memory) (address : UInt64) (b : UInt8) : Memory :=
  let i := depth address
  if i < nearSpan then { m with near := setGrowing m.near i b }
  else { m with far := m.far.insert i b }

theorem get_set (m : Memory) (a a' : UInt64) (b : UInt8) :
    (m.set a b).get a' = if a' = a then b else m.get a' := by
  simp only [get, set, ← depth_inj]
  generalize depth a = i
  generalize depth a' = j
  generalize nearSpan = span
  by_cases h : i < span
  · simp only [h, if_true, getD_setGrowing]
    grind
  · simp only [h, if_false, Std.HashMap.getD_insert, beq_iff_eq]
    grind

/-- The number in so many bytes from an address on, the lowest byte first. -/
def load (m : Memory) (address : UInt64) : (count : Nat) → UInt64
  | 0 => 0
  | count + 1 => m.load (address + 1) count <<< 8 ||| (m.get address).toUInt64

/-- Writes a number into so many bytes from an address on, the lowest byte first. -/
def store (m : Memory) (address : UInt64) : (count : Nat) → UInt64 → Memory
  | 0, _ => m
  | count + 1, v => (m.set address v.toUInt8).store (address + 1) count (v >>> 8)

/-- The bytes from an address on. -/
def slice (m : Memory) (address : UInt64) (count : Nat) : List UInt8 :=
  (List.range count).map fun i => m.get (address + UInt64.ofNat i)

/-- Writes bytes from an address on. -/
def write (m : Memory) (address : UInt64) : List UInt8 → Memory
  | [] => m
  | b :: rest => (m.set address b).write (address + 1) rest

end Memory

end TapeLang.Machine
