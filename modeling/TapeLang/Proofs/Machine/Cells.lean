import Mathlib.Algebra.Group.Int.Defs
import Mathlib.Algebra.Group.Nat.Defs
import TapeLang.Machine.Memory

/-!
# Cells in memory

A cell of the tape is two bytes of memory, the low byte at the lower address.

* `Memory.cell`: the cell at an address.
* **`cell_store`**: what a store of two bytes does to the cells that it does not overlap.
-/

namespace TapeLang.Machine.Memory

variable (m : Memory) (a a' : UInt64) (v : UInt64) (b : UInt8)

/-- The cell at an address. -/
def cell : UInt16 :=
  UInt16.ofNat ((m.get (a + 1)).toNat * 256 + (m.get a).toNat)

theorem toNat_cell : (m.cell a).toNat = (m.get (a + 1)).toNat * 256 + (m.get a).toNat := by
  have h₁ := (m.get (a + 1)).toNat_lt
  have h₀ := (m.get a).toNat_lt
  exact UInt16.toNat_ofNat_of_lt' (show _ < 65536 by omega)

theorem load_two : m.load a 2 = (m.cell a).toUInt64 := by
  have h₀ := (m.get a).toNat_lt
  have h₁ := (m.get (a + 1)).toNat_lt
  refine UInt64.toNat_inj.mp ?_
  rw [UInt16.toNat_toUInt64, toNat_cell]
  simp only [load, UInt64.toNat_or, UInt64.toNat_shiftLeft, UInt8.toNat_toUInt64]
  have hshift : ((0 : UInt64).toNat <<< ((8 : UInt64).toNat % 64) % 2 ^ 64 |||
      (m.get (a + 1)).toNat) = (m.get (a + 1)).toNat := Nat.zero_or _
  rw [hshift, show (8 : UInt64).toNat % 64 = 8 from rfl, Nat.shiftLeft_eq,
    Nat.mod_eq_of_lt (by omega), ← Nat.shiftLeft_eq, ← Nat.shiftLeft_add_eq_or_of_lt h₀,
    Nat.shiftLeft_eq]

theorem toUInt8_cell : (m.cell a).toUInt8 = m.get a := by
  refine UInt8.toNat_inj.mp ?_
  have h₀ := (m.get a).toNat_lt
  rw [UInt16.toNat_toUInt8, toNat_cell]
  omega

theorem slice_one : m.slice a 1 = [(m.cell a).toUInt8] := by
  rw [toUInt8_cell]
  simp [slice]

variable {a a'}

theorem add_one_ne (a : UInt64) : a + 1 ≠ a := by
  intro h
  have := congrArg UInt64.toNat h
  rw [UInt64.toNat_add] at this
  have := a.toNat_lt
  have : (1 : UInt64).toNat = 1 := rfl
  omega

theorem store_succ (n : Nat) :
    m.store a (n + 1) v = (m.set a v.toUInt8).store (a + 1) n (v >>> 8) := by
  -- Its own equations cannot be used: to state them Lean evaluates the bound of the array.
  delta store
  rfl

theorem store_two : m.store a 2 v = (m.set a v.toUInt8).set (a + 1) (v >>> 8).toUInt8 := by
  rw [store_succ, store_succ]
  delta store
  rfl

/-- **A store of two bytes** writes one cell and no other that it does not overlap. -/
theorem cell_store (h : a' + 1 ≠ a) (h' : a' ≠ a + 1) :
    (m.store a 2 v).cell a' = if a' = a then v.toUInt16 else m.cell a' := by
  have hget : ∀ x, (m.store a 2 v).get x =
      if x = a + 1 then (v >>> 8).toUInt8 else if x = a then v.toUInt8 else m.get x := by
    intro x
    rw [store_two, get_set, get_set]
  by_cases ha : a' = a
  · subst ha
    rw [if_pos rfl]
    refine UInt16.toNat_inj.mp ?_
    rw [toNat_cell, hget, hget, if_pos rfl, if_neg (add_one_ne a').symm, if_pos rfl,
      UInt64.toNat_toUInt8, UInt64.toNat_toUInt8, UInt64.toNat_toUInt16, UInt64.toNat_shiftRight,
      show (8 : UInt64).toNat % 64 = 8 from rfl, Nat.shiftRight_eq_div_pow]
    omega
  · have ha1 : a' + 1 ≠ a + 1 := fun e => ha ((UInt64.add_left_inj 1).mp e)
    rw [if_neg ha, cell, cell, hget, hget, if_neg ha1, if_neg h, if_neg h', if_neg ha]

theorem cell_set (h : m.cell a = 0) : (m.set a b).cell a = b.toUInt16 := by
  have hc := congrArg UInt16.toNat h
  rw [toNat_cell, show (0 : UInt16).toNat = 0 from rfl] at hc
  refine UInt16.toNat_inj.mp ?_
  rw [toNat_cell, get_set, get_set, if_pos rfl, if_neg (add_one_ne a), UInt8.toNat_toUInt16]
  omega

theorem cell_set_of_ne (h : a' ≠ a) (h' : a' + 1 ≠ a) : (m.set a b).cell a' = m.cell a' := by
  rw [cell, cell, get_set, get_set, if_neg h, if_neg h']

theorem get_store_zero (m : Memory) (a x : UInt64) {n : Nat} (hn : n < 2 ^ 64) :
    (m.store a n 0).get x = if (x - a).toNat < n then 0 else m.get x := by
  induction n generalizing m a with
  | zero => exact (if_neg (Nat.not_lt_zero _)).symm
  | succ n ih =>
    have hz : (0 : UInt64) >>> 8 = 0 := rfl
    have hone : (1 : UInt64).toNat = 1 := rfl
    have hsub := UInt64.toNat_sub x a
    have hnext := UInt64.toNat_sub x (a + 1)
    rw [UInt64.toNat_add, hone] at hnext
    have := a.toNat_lt
    have := x.toNat_lt
    rw [store_succ, hz, ih _ _ (by omega), get_set]
    by_cases hx : x = a
    · subst hx
      rw [if_neg (by omega), if_pos rfl, if_pos (by omega)]
      rfl
    · have hne : x.toNat ≠ a.toNat := fun h => hx (UInt64.toNat_inj.mp h)
      rw [if_neg hx]
      by_cases hlt : (x - a).toNat < n + 1
      · rw [if_pos hlt, if_pos (by omega)]
      · rw [if_neg hlt, if_neg (by omega)]

end TapeLang.Machine.Memory
