import TapeLang.Proofs.Listing.Lines

/-!
# What loaded programs are made of

Every instruction of a loaded program was read from a line of the listing, and then its labels were
replaced by positions. What the reader makes sure of for one line holds for the whole program.

* **`exists_operation_of_load`**: the line that an instruction comes from.
* `Op.Narrow`: operations without 64-bit operands.
* **`narrow_of_load`**: the programs of 32-bit mode have no others.
-/

namespace TapeLang.Machine

variable {arch : Arch}

/-- **Every instruction of a loaded program comes from a line of the listing.** -/
theorem exists_operation_of_load {text : Bytes} {bits : Int64} {p : Program}
    (h : load text bits = .ok p) {i : Instr Nat} (hi : i ∈ p.code) :
    ∃ mnemonic rest op, ∃ place : Bytes → Option Nat,
      operation p.arch mnemonic rest = .ok op ∧ op.resolve place = .ok i.op := by
  obtain ⟨place, -, -, hcode⟩ := exists_follows_of_load h
  obtain ⟨op, hop, hresolve⟩ := hcode i hi
  exact ⟨_, _, op, place, hop, hresolve⟩

/-! ## Programs of 32-bit mode -/

/-- An operand that is no 64-bit register. -/
def Operand.Narrow {τ : Type} : Operand τ → Prop
  | .register _ w => w ≠ .quad
  | _ => True

/-- An operation without a width of 64 bits. -/
def Op.Narrow {τ : Type} : Op τ → Prop
  | .push w source => w ≠ some .quad ∧ source.Narrow
  | .mov w source target | .arith _ w source target =>
    w ≠ some .quad ∧ source.Narrow ∧ target.Narrow
  | .jump _ target => target.Narrow
  | .syscall => True
  | .interrupt vector => vector.Narrow

theorem narrow_of_register {name : Bytes} {r : Reg} {w : Width}
    (h : register .x86 name = .ok (r, w)) : w ≠ .quad := by
  unfold register at h
  split at h
  · cases h
  · split_ifs at h with hw
    cases h
    exact fun hq => hw ⟨hq, rfl⟩

theorem exists_memory_of_memoryOperand {text inner : Bytes} {o : Operand Bytes}
    (h : memoryOperand arch text inner = .ok o) : ∃ r, o = .memory r := by
  unfold memoryOperand at h
  split at h
  · cases h
  · split_ifs at h
    · cases h
    · obtain ⟨-, -, h⟩ := bind_eq_ok.mp h
      obtain ⟨⟨r, w⟩, -, h⟩ := bind_eq_ok.mp h
      dsimp only at h
      split_ifs at h <;> cases h
      exact ⟨r, rfl⟩

theorem narrow_of_operand {text : Bytes} {o : Operand Bytes} (h : operand .x86 text = .ok o) :
    o.Narrow := by
  have hother : (if isSymbol text then Except.ok (Operand.label text)
      else .error (LineError.invalidOperand text)) = .ok o → o.Narrow := by
    intro h
    split_ifs at h
    cases h
    trivial
  unfold operand at h
  dsimp only at h
  rcases text with _ | ⟨mark, rest⟩
  · exact hother h
  · dsimp only at h
    split at h
    · split at h <;> cases h
      trivial
    split at h
    · obtain ⟨⟨r, w⟩, hr, rfl⟩ := map_eq_ok.mp h
      exact narrow_of_register hr
    split at h
    · obtain ⟨r, rfl⟩ := exists_memory_of_memoryOperand h
      trivial
    · exact hother h

theorem narrow_of_operands {text : Bytes} {os : List (Operand Bytes)}
    (h : operands .x86 text = .ok os) : ∀ o ∈ os, o.Narrow := by
  unfold operands at h
  dsimp only at h
  split_ifs at h
  · cases h
    simp
  · intro o ho
    obtain ⟨field, -, hfield⟩ := exists_of_mapM h ho
    exact narrow_of_operand hfield

theorem narrow_of_operation {mnemonic rest : Bytes} {op : Op Bytes}
    (h : operation .x86 mnemonic rest = .ok op) : op.Narrow := by
  unfold operation at h
  split at h
  · obtain ⟨args, hargs, h⟩ := bind_eq_ok.mp h
    have hnarrow := narrow_of_operands hargs
    split at h <;> cases h
    exact hnarrow _ (by simp)
  · split_ifs at h
    · obtain ⟨args, -, h⟩ := bind_eq_ok.mp h
      split at h <;> cases h
      trivial
    · obtain ⟨args, hargs, h⟩ := bind_eq_ok.mp h
      have hnarrow := narrow_of_operands hargs
      split at h <;> cases h
      exact hnarrow _ (by simp)
    · split at h
      · cases h
      · next width _ =>
        split_ifs at h with hw
        · cases h
        · have hwidth : width ≠ some .quad := fun hq => hw ⟨hq, rfl⟩
          obtain ⟨-, -, h⟩ := bind_eq_ok.mp h
          obtain ⟨args, hargs, h⟩ := bind_eq_ok.mp h
          have hnarrow := narrow_of_operands hargs
          split at h <;> cases h
          · exact ⟨hwidth, hnarrow _ (by simp)⟩
          · exact ⟨hwidth, hnarrow _ (by simp), hnarrow _ (by simp)⟩
          · exact ⟨hwidth, hnarrow _ (by simp), hnarrow _ (by simp)⟩

theorem Operand.Narrow.resolve {place : Bytes → Option Nat} {o : Operand Bytes} {o' : Operand Nat}
    (h : o.Narrow) (hr : o.resolve place = .ok o') : o'.Narrow := by
  cases o with
  | immediate | register | memory =>
    cases hr
    exact h
  | label =>
    rw [Operand.resolve] at hr
    split at hr <;> cases hr
    trivial

theorem Op.Narrow.resolve {place : Bytes → Option Nat} {op : Op Bytes} {op' : Op Nat}
    (h : op.Narrow) (hr : op.resolve place = .ok op') : op'.Narrow := by
  cases op with
  | push =>
    obtain ⟨source, hs, he⟩ := bind_eq_ok.mp hr
    cases he
    exact ⟨h.1, h.2.resolve hs⟩
  | mov | arith =>
    obtain ⟨source, hs, hr⟩ := bind_eq_ok.mp hr
    obtain ⟨target, ht, he⟩ := bind_eq_ok.mp hr
    cases he
    exact ⟨h.1, h.2.1.resolve hs, h.2.2.resolve ht⟩
  | jump | interrupt =>
    obtain ⟨target, ht, he⟩ := bind_eq_ok.mp hr
    cases he
    exact Operand.Narrow.resolve h ht
  | syscall =>
    cases hr
    trivial

/-- **A program of 32-bit mode has no 64-bit operands.** -/
theorem narrow_of_load {text : Bytes} {bits : Int64} {p : Program} (h : load text bits = .ok p)
    (ha : p.arch = .x86) {i : Instr Nat} (hi : i ∈ p.code) : i.op.Narrow := by
  obtain ⟨mnemonic, rest, op, place, hop, hr⟩ := exists_operation_of_load h hi
  rw [ha] at hop
  exact (narrow_of_operation hop).resolve hr

end TapeLang.Machine
