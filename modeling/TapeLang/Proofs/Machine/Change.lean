import Mathlib.Data.Nat.Bitwise
import TapeLang.Proofs.Listing.Origin
import TapeLang.Proofs.Machine.Effect

/-!
# Registers and the stack

An instruction writes at most one register, and only a push moves the stack: its pointer, the lowest
mapped address and the count of pushes. Numbers are cut down to the width of an operation before
they are written, so in 32-bit mode no register ever holds more than 32 bits.

* `Op.writes`: the register that an operation may write.
* `Change`, **`change_step`**: what an instruction does to the registers and the stack.
* **`Change.low_le`**, **`Change.pushes_le`**: the stack grows.
* `Registers.Short`, **`Change.short`**: registers of 32 bits.
-/

namespace TapeLang.Machine

attribute [local irreducible] Memory.store Memory.set Memory.write

variable {arch : Arch} {s : State} {i : Instr Nat} {position : Nat} {op : Op Nat} {w : Width}
  {source target : Operand Nat}

/-! ## Widths -/

theorem Width.toNat_mask (w : Width) (v : UInt64) :
    (w.mask v).toNat = v.toNat % 2 ^ (8 * w.bytes) := by
  cases w with
  | byte => exact (UInt64.toNat_and v 0xff).trans (Nat.and_two_pow_sub_one_eq_mod v.toNat 8)
  | word => exact (UInt64.toNat_and v 0xffff).trans (Nat.and_two_pow_sub_one_eq_mod v.toNat 16)
  | long => exact (UInt64.toNat_and v 0xffffffff).trans (Nat.and_two_pow_sub_one_eq_mod v.toNat 32)
  | quad => exact (Nat.mod_eq_of_lt v.toNat_lt).symm

/-- A number that a width has room for. -/
def Width.Fits (w : Width) (v : UInt64) : Prop := v.toNat < 2 ^ (8 * w.bytes)

theorem Width.fits_mask (w : Width) (v : UInt64) : w.Fits (w.mask v) := by
  unfold Fits
  rw [toNat_mask]
  exact Nat.mod_lt _ (Nat.two_pow_pos _)

theorem Memory.fits_load (m : Memory) (a : UInt64) (n : Nat) :
    (m.load a n).toNat < 2 ^ (8 * n) := by
  induction n generalizing a with
  | zero => exact Nat.one_pos
  | succ n ih =>
    -- Both parts of the number are below the bound, and so is what they make together.
    have hbyte : (m.get a).toUInt64.toNat < 2 ^ (8 * (n + 1)) := by
      have := (m.get a).toNat_lt
      have hpow : 2 ^ 8 ≤ 2 ^ (8 * (n + 1)) := Nat.pow_le_pow_right (by decide) (by omega)
      rw [UInt8.toNat_toUInt64]
      omega
    have hrest : (m.load (a + 1) n <<< 8).toNat < 2 ^ (8 * (n + 1)) := by
      rw [UInt64.toNat_shiftLeft, show (8 : UInt64).toNat % 64 = 8 from rfl, Nat.shiftLeft_eq]
      refine (Nat.mod_le _ _).trans_lt ?_
      rw [Nat.mul_succ 8 n, Nat.pow_add]
      exact Nat.mul_lt_mul_of_pos_right (ih (a + 1)) (by decide)
    rw [load, UInt64.toNat_or]
    exact Nat.or_lt_two_pow hrest hbyte

theorem State.fits_read {v : UInt64} (h : s.read arch i w source = .ok v) : w.Fits v := by
  cases source with
  | immediate | register =>
    cases h
    exact w.fits_mask _
  | memory base =>
    rw [State.read_eq, map_eq_ok] at h
    obtain ⟨-, -, rfl⟩ := h
    exact Memory.fits_load _ _ _
  | label => cases h

theorem Arith.fits_apply (f : Arith) (w : Width) (u v : UInt64) : w.Fits (f.apply w u v).1 := by
  cases f <;> exact w.fits_mask _

theorem Registers.get_set_of_ne (rs : Registers) {r r' : Reg} (h : r' ≠ r) (w : Width)
    (v : UInt64) : (rs.set r w v).get r' = rs.get r' := by
  cases w <;> exact (rs.get_put r r' _).trans (if_neg h)

/-! ## Changes -/

/-- The register that an operation may write, and how wide. The stack pointer of a push apart. -/
def Op.writes (arch : Arch) : Op Nat → Option (Reg × Width)
  | .mov width source (.register r w) =>
    some (r, operandWidth arch width source (.register r w))
  | .arith f width source (.register r w) =>
    if f = .cmp then none else some (r, operandWidth arch width source (.register r w))
  | .syscall | .interrupt _ => some (.ax, wordWidth arch)
  | _ => none

/-- What an operation does to the registers, the lowest mapped address and the count of pushes. -/
inductive Change (arch : Arch) (op : Op Nat) (s : State) : Registers → UInt64 → Nat → Prop
  | keep : Change arch op s s.registers s.low s.pushes
  | write {r : Reg} {w : Width} {v : UInt64} : op.writes arch = some (r, w) →
    w = wordWidth arch ∨ w.Fits v → Change arch op s (s.registers.set r w v) s.low s.pushes
  | push {width : Option Width} {source : Operand Nat} {sp : UInt64} :
    op = .push width source → s.pushTarget arch (width.getD (wordWidth arch)) = sp →
    Change arch op s { s.registers with sp } (if sp < s.low then sp else s.low) (s.pushes + 1)

/-- The registers and the stack of one state after another. -/
def Change.To (arch : Arch) (op : Op Nat) (s s' : State) : Prop :=
  Change arch op s s'.registers s'.low s'.pushes

theorem change_write {v : UInt64} (hv : w.Fits v)
    (hw : ∀ r w', target = .register r w' → op.writes arch = some (r, w)) (zero carry : Bool) :
    Change.To arch op s (State.write { s with zero, carry } arch w target v) := by
  cases target with
  | register r w' => exact .write (hw r w' rfl) (.inr hv)
  | immediate | memory | label => exact .keep

theorem change_push {width : Option Width} :
    Change.To arch (.push width source) s
      (stepPush s arch i (width.getD (wordWidth arch)) source position).1 := by
  rw [stepPush_eq]
  rcases s.read arch i _ source with e | v
  · exact .keep
  · dsimp only
    split
    · exact .push rfl rfl
    · exact .push rfl rfl

theorem change_mov {width : Option Width} :
    Change.To arch (.mov width source target) s
      (stepMov s arch i (operandWidth arch width source target) source target position).1 := by
  unfold stepMov
  split
  · exact .keep
  · next v hv =>
    split
    · exact .keep
    · refine change_write (State.fits_read hv) ?_ s.zero s.carry
      rintro r w' rfl
      rfl

theorem change_arith {f : Arith} {width : Option Width} :
    Change.To arch (.arith f width source target) s
      (stepArith s arch i f (operandWidth arch width source target) source target position).1 := by
  unfold stepArith
  split
  · exact .keep
  · split
    · exact .keep
    · dsimp only
      split_ifs with hf
      · exact .keep
      · split
        · exact .keep
        · refine change_write (f.fits_apply _ _ _) ?_ _ _
          rintro r w' rfl
          exact if_neg hf

/-- Nothing is done to the registers and the stack. -/
def Same (s s' : State) : Prop :=
  s'.registers = s.registers ∧ s'.low = s.low ∧ s'.pushes = s.pushes

theorem same_callRead (s : State) (i : Instr Nat) (file a : UInt64) (count : Int64) :
    Same s (callRead s i file a count).2 := by
  obtain ⟨result, data, input, -, hr⟩ := exists_readInput s a count.toInt.toNat
  have hs : readInput s a count.toInt.toNat = _ := hr s.memory
  unfold callRead
  split_ifs
  · exact ⟨rfl, rfl, rfl⟩
  · split
    · exact ⟨rfl, rfl, rfl⟩
    · rw [hs]
      exact ⟨rfl, rfl, rfl⟩

theorem same_callWrite (s : State) (i : Instr Nat) (file a : UInt64) (count : Int64) :
    Same s (callWrite s i file a count).2 := by
  unfold callWrite
  split_ifs
  · exact ⟨rfl, rfl, rfl⟩
  · split <;> exact ⟨rfl, rfl, rfl⟩
  · split <;> exact ⟨rfl, rfl, rfl⟩

theorem Same.change {s' : State} (h : Same s s') : Change.To arch op s s' := by
  unfold Change.To
  rw [h.1, h.2.1, h.2.2]
  exact .keep

theorem Same.change_afterCall {call : Except RunError Int64 × State} (h : Same s call.2)
    (hop : op.writes arch = some (.ax, wordWidth arch)) :
    Change.To arch op s (afterCall arch position call).1 := by
  obtain ⟨result, s'⟩ := call
  cases result with
  | error e => exact h.change
  | ok v =>
    change Change arch op s (s'.registers.set .ax (wordWidth arch) _) s'.low s'.pushes
    rw [h.1, h.2.1, h.2.2]
    exact .write hop (.inl rfl)

theorem change_systemCall (hop : op.writes arch = some (.ax, wordWidth arch)) :
    Change.To arch op s (systemCall s arch i position).1 := by
  unfold systemCall
  dsimp only
  split_ifs
  · exact .keep
  · exact (same_callRead s i _ _ _).change_afterCall hop
  · exact (same_callWrite s i _ _ _).change_afterCall hop
  · exact .keep

/-- **What an instruction does to the registers and the stack.** -/
theorem change_step (arch : Arch) (s : State) (i : Instr Nat) (position : Nat) :
    Change.To arch i.op s (step arch s i position).1 := by
  unfold step
  cases hop : i.op with
  | push => exact change_push
  | mov => exact change_mov
  | arith => exact change_arith
  | jump => exact .keep
  | syscall =>
    cases arch with
    | amd64 => exact change_systemCall rfl
    | x86 => exact .keep
  | interrupt =>
    dsimp only
    split_ifs
    · exact change_systemCall rfl
    · exact .keep

/-! ## The stack -/

variable {rs : Registers} {low : UInt64} {pushes : Nat}

theorem Change.low_le (h : Change arch op s rs low pushes) : low ≤ s.low := by
  cases h with
  | keep | write => exact UInt64.le_refl _
  | push =>
    split_ifs with hlt
    · exact UInt64.le_of_lt hlt
    · exact UInt64.le_refl _

theorem Change.pushes_le (h : Change arch op s rs low pushes) : s.pushes ≤ pushes := by
  cases h with
  | keep | write => exact le_rfl
  | push => exact Nat.le_succ _

/-! ## Registers of 32 bits -/

/-- No register holds more than 32 bits. -/
def Registers.Short (rs : Registers) : Prop := ∀ r, (rs.get r).toNat < 2 ^ 32

theorem Registers.Short.put (h : rs.Short) {r : Reg} {v : UInt64} (hv : v.toNat < 2 ^ 32) :
    (rs.put r v).Short := by
  intro r'
  rw [Registers.get_put]
  split_ifs
  · exact hv
  · exact h r'

theorem Registers.Short.set (h : rs.Short) {r : Reg} {v : UInt64} (hw : w ≠ .quad)
    (hv : w = .long ∨ w.Fits v) : (rs.set r w v).Short := by
  cases w with
  | byte =>
    refine h.put ?_
    rcases hv with hv | hv
    · cases hv
    · exact hv.trans (by decide)
  | word =>
    -- The upper half of what is kept is that of the old content.
    refine h.put ?_
    rw [UInt64.toNat_or, UInt64.toNat_and]
    exact Nat.or_lt_two_pow (Nat.and_le_left.trans_lt (h r))
      ((Width.word.fits_mask v).trans (by decide))
  | long => exact h.put (Width.long.fits_mask v)
  | quad => exact absurd rfl hw

theorem operandWidth_ne_quad {width : Option Width} (hw : width ≠ some .quad) (hs : source.Narrow)
    (ht : target.Narrow) : operandWidth .x86 width source target ≠ .quad := by
  rintro hq
  rcases width with _ | w
  · cases source with
    | register r w => exact hs hq
    | immediate | memory | label =>
      cases target with
      | register r w => exact ht hq
      | immediate | memory | label => cases hq
  · exact hw (congrArg some hq)

theorem Op.Narrow.writes_ne_quad (h : op.Narrow) {r : Reg} (hw : op.writes .x86 = some (r, w)) :
    w ≠ .quad := by
  unfold Op.writes at hw
  split at hw
  · cases hw
    exact operandWidth_ne_quad h.1 h.2.1 h.2.2
  · split_ifs at hw
    cases hw
    exact operandWidth_ne_quad h.1 h.2.1 h.2.2
  · cases hw
    decide
  · cases hw
    decide
  · cases hw

/-- **Registers of 32 bits stay so** in a program without wider operands. -/
theorem Change.short (h : Change .x86 op s rs low pushes) (hop : op.Narrow)
    (hs : s.registers.Short) : rs.Short := by
  cases h with
  | keep => exact hs
  | write hw hv => exact hs.set (hop.writes_ne_quad hw) hv
  | push _ hsp =>
    refine Registers.Short.put (r := .sp) hs ?_
    rw [← hsp]
    exact Width.long.fits_mask _

end TapeLang.Machine
