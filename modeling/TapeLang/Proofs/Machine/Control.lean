import TapeLang.Proofs.Machine.Operations

/-!
# Tests, ends and faults

The code around the operations: the test at the end of a loop, the first instructions of a program
and its last, and the ways for an access to fail.

* `segment_test`: the test at the end of a loop.
* `Ready`, **`segment_prologue`**: from a state without a tape to one with a tape.
* **`exits_epilogue`**: the end of a program.
* `Faults`, `faults_arith`, `faults_store`, `faults_write`: accesses before the first word.
-/

namespace TapeLang.Machine

open Assembly Reference

attribute [local irreducible] Memory.store Memory.set

variable {p : Program} {t : Setting} {w : World} {depth : Nat} {s : State} {position : Nat}
  {ops : List (Op Nat)} {output input : Bytes}

/-! ## Tests -/

theorem mask_toUInt64 (v : UInt16) : Width.word.mask (v.toUInt64 - 0) = 0 ↔ v = 0 := by
  have hlt := v.toNat_lt
  rw [← UInt64.toNat_inj, ← UInt16.toNat_inj, UInt64.sub_zero]
  change (v.toUInt64 &&& 0xffff).toNat = 0 ↔ v.toNat = 0
  rw [UInt64.toNat_and, UInt16.toNat_toUInt64,
    show (0xffff : UInt64).toNat = 2 ^ 16 - 1 from rfl, Nat.and_two_pow_sub_one_eq_mod,
    Nat.mod_eq_of_lt hlt]

theorem next_test (hc : p.Has position (testOp t.arch :: ops)) (ha : p.arch = t.arch)
    (h : Holds t w depth s) (hf : t.arch.firstCell ≤ w.position) (hd : w.position ≤ depth) :
    ∃ s', p.next? ⟨position, s⟩ = some ⟨position + 1, s'⟩ ∧ Holds t w depth s' ∧
      (Condition.notEqual.holds s'.zero s'.carry = true ↔ w.cell ≠ 0) := by
  refine ⟨_, hc.next ha fun i hi => step_cmp (w := .word) (v := 0) hi rfl rfl
    (h.read_cell hf hd i), h.flags _ _, ?_⟩
  change (!decide _) = true ↔ _
  rw [Bool.not_eq_true', decide_eq_false_iff_not, mask_toUInt64]

theorem segment_test {start : Nat}
    (hc : p.Has position [testOp t.arch, .jump .notEqual (.label start)]) (ha : p.arch = t.arch)
    (h : Holds t w depth s) (hf : t.arch.firstCell ≤ w.position) (hd : w.position ≤ depth) :
    ∃ s', p.Segment (fun _ => Guarded t depth w.output w.input) ⟨position, s⟩ 2
      ⟨if w.cell = 0 then position + 2 else start, s'⟩ ∧ Holds t w depth s' := by
  obtain ⟨s₁, hcmp, h₁, hne⟩ := next_test hc ha h hf hd
  have hjump := hc.tail.next_jump s₁
  simp only [hne, ne_eq, ite_not] at hjump
  exact ⟨s₁, .cons h.guarded hcmp (segment_one h₁.guarded hjump), h₁⟩

/-! ## The first and the last instructions -/

/-- A state from which a program can put its tape on the stack. -/
structure Ready (t : Setting) (input : Bytes) (s : State) : Prop where
  sp : s.registers.sp.toNat = t.origin + (wordWidth t.arch).bytes
  low : s.low = s.registers.sp
  pushes : s.pushes + 1 = t.base
  output : s.output = t.stdout
  input : s.remaining = input

theorem inRange_zero (t : Setting) : t.InRange 0 := by
  have hfits := t.fits
  have htop := toNat_stackTop
  have hb : (2 : Int) ^ 32 ≤ 2 ^ t.arch.bits := by cases t.arch <;> decide
  unfold Setting.InRange Setting.address
  omega

/-- The state after the first word is pushed. -/
def State.pushWord (s : State) (t : Setting) : State :=
  { s with
    registers := { s.registers with sp := t.cellAt 0 }
    low := t.cellAt 0
    pushes := s.pushes + 1
    memory := s.memory.store (t.cellAt 0) (wordWidth t.arch).bytes 0 }

theorem Ready.guarded_pushWord (h : Ready t input s) :
    Guarded t 0 [] input (s.pushWord t) := by
  refine ⟨t.toNat_cellAt (inRange_zero t), rfl, h.pushes, h.output, ?_⟩
  rw [← h.input]
  rfl

theorem next_pushWord (hc : p.Has position (.push (some (wordWidth t.arch)) (.immediate 0) :: ops))
    (ha : p.arch = t.arch) (h : Ready t input s) :
    p.next? ⟨position, s⟩ = some ⟨position + 1, s.pushWord t⟩ := by
  refine hc.next ha fun i hi => ?_
  have hcell := t.toNat_cellAt (inRange_zero t)
  have hsize : (UInt64.ofNat (wordWidth t.arch).bytes).toNat = (wordWidth t.arch).bytes ∧
      (Int64.ofNat (wordWidth t.arch).bytes).toUInt64.toNat = (wordWidth t.arch).bytes ∧
      4 ≤ (wordWidth t.arch).bytes := by
    cases t.arch <;> decide
  have hfits := t.fits
  have hsp := h.sp
  have htop := toNat_stackTop
  unfold Setting.address at hcell
  refine step_push hi ?_ ?_ (by omega)
  · refine UInt64.toNat_inj.mp (Int.natCast_inj.mp ?_)
    rw [toNat_mask, t.toNat_cellAt (inRange_zero t)]
    refine t.eq_address (inRange_zero t) ?_
    rw [UInt64.toNat_sub_of_le _ _ (UInt64.le_iff_toNat_le.mpr (by omega)), hsize.1, hsp]
    unfold Setting.address
    rw [show ((t.origin + (wordWidth t.arch).bytes - (wordWidth t.arch).bytes : Nat) : Int) -
      (t.origin - 2 * 0) = 0 by omega]
    exact Int.zero_emod _
  · rw [h.low, UInt64.lt_iff_toNat_lt]
    omega

/-- **From a state without a tape to one with a blank tape.** -/
theorem segment_prologue (hc : p.Has 0 (prologueCode t.arch)) (ha : p.arch = t.arch)
    (h : Ready t input s) :
    ∃ s', p.next? ⟨0, s⟩ = some ⟨1, s.pushWord t⟩ ∧
      p.next? ⟨1, s.pushWord t⟩ = some ⟨2, s'⟩ ∧ Holds t { input } 0 s' := by
  have hg := h.guarded_pushWord
  have hpush := next_pushWord hc ha h
  have hmov : p.next? ⟨1, s.pushWord t⟩ =
      some ⟨2, (s.pushWord t).setReg t.arch (pointer t.arch)
        ((wordWidth t.arch).mask (t.cellAt 0))⟩ :=
    hc.tail.next ha fun i hi => step_mov hi rfl rfl rfl
  refine ⟨_, hpush, hmov, hg.setReg (pointer_ne_sp t.arch) _, ?_, inRange_zero t,
    fun q hq hqd => ?_, fun q hq => rfl⟩
  · rw [State.get_setReg, if_pos rfl, mask_mask, t.mask_cellAt (inRange_zero t)]
  · change (s.memory.store (t.cellAt 0) (wordWidth t.arch).bytes 0).cell (t.cellAt q) = 0
    obtain ⟨hrange, htop, -⟩ := hg.inRange hq hqd
    have hcq := t.toNat_cellAt hrange
    have hc0 := t.toNat_cellAt (inRange_zero t)
    have hbytes := bytes_of_wordWidth t.arch
    have hlt : (wordWidth t.arch).bytes < 2 ^ 64 := by cases t.arch <;> decide
    have htop' := toNat_stackTop
    unfold Setting.address at hcq hc0 htop
    have hone : (1 : UInt64).toNat = 1 := rfl
    have hnext : (t.cellAt q + 1).toNat = (t.cellAt q).toNat + 1 := by
      rw [UInt64.toNat_add, hone, Nat.mod_eq_of_lt (by omega)]
    have hlow : (t.cellAt q - t.cellAt 0).toNat < (wordWidth t.arch).bytes := by
      rw [UInt64.toNat_sub_of_le _ _ (UInt64.le_iff_toNat_le.mpr (by omega))]
      omega
    have hhigh : (t.cellAt q + 1 - t.cellAt 0).toNat < (wordWidth t.arch).bytes := by
      rw [UInt64.toNat_sub_of_le _ _ (UInt64.le_iff_toNat_le.mpr (by omega))]
      omega
    rw [Memory.cell, Memory.get_store_zero _ _ _ hlt, Memory.get_store_zero _ _ _ hlt,
      if_pos hlow, if_pos hhigh]
    rfl

/-- **The end of a program** is reached after two instructions. -/
theorem exits_epilogue (hc : p.Has position (epilogueOps t.arch)) (ha : p.arch = t.arch)
    (h : Guarded t depth output input s) :
    ∃ s', p.Segment (fun _ => Guarded t depth output input) ⟨position, s⟩ 2 ⟨position + 2, s'⟩ ∧
      Guarded t depth output input s' ∧ ∃ i, p.code[position + 2]? = some i ∧
        step p.arch s' i (position + 2) = (s', .exit 0) := by
  have hne : Reg.ax ≠ .sp ∧ (callTable t.arch).arguments.1 ≠ .sp ∧
      Reg.ax ≠ (callTable t.arch).arguments.1 := by
    cases t.arch <;> decide
  have hops : (epilogueOps t.arch : List (Op Nat)) =
      [.mov none (.immediate (callTable t.arch).exit.toInt64) (wordReg t.arch .ax),
        .mov none (.immediate 0) (wordReg t.arch (callTable t.arch).arguments.1),
        trap t.arch] := by
    cases t.arch <;> rfl
  rw [hops] at hc
  have h₁ := h.setReg hne.1 ((wordWidth t.arch).mask (callTable t.arch).exit.toInt64.toUInt64)
  have h₂ := h₁.setReg hne.2.1 ((wordWidth t.arch).mask (0 : Int64).toUInt64)
  refine ⟨_, .cons h (next_load hc ha s) (segment_one h₁ (next_load hc.tail ha _)), h₂, ?_⟩
  obtain ⟨⟨i, hi, hop⟩, -⟩ := Program.has_cons.mp hc.tail.tail
  refine ⟨i, hi, ?_⟩
  rw [ha, step_trap hop, systemCall_exit]
  · rw [State.get_setReg, if_pos rfl, mask_mask, mask_mask]
    cases t.arch <;> rfl
  · change (wordWidth t.arch).mask (Registers.get _ .ax) = _
    rw [State.get_setReg, if_neg hne.2.2, State.get_setReg, if_pos rfl, mask_mask, mask_mask]
    cases t.arch <;> rfl

/-! ## Faults -/

/-- The next instruction is a fault at an address. -/
def Faults (p : Program) (a : Point) (address : UInt64) : Prop :=
  ∃ i size, p.code[a.position]? = some i ∧
    step p.arch a.state i a.position = (a.state, .fail (.fault (i.faultAt address size)))

variable (htop : t.origin + (wordWidth t.arch).bytes = stackTop.toNat)
include htop

theorem Holds.read_fault (h : Holds t w depth s) (hf : w.position < t.arch.firstCell)
    (i : Instr Nat) :
    s.read t.arch i .word (cellOperand t.arch) =
      .error (.fault (i.faultAt (t.cellAt w.position) 2)) := by
  have hc := h.check_fault hf htop i 2 (.inr rfl)
  have hsize : Int64.ofNat Width.word.bytes = 2 := rfl
  simp only [State.read, cellOperand, h.address, hsize, hc]
  rfl

theorem faults_arith {f : Arith} {n : Int64}
    (hc : p.Has position (.arith f (some .word) (.immediate n) (cellOperand t.arch) :: ops))
    (ha : p.arch = t.arch) (h : Holds t w depth s) (hf : w.position < t.arch.firstCell) :
    Faults p ⟨position, s⟩ (t.cellAt w.position) := by
  obtain ⟨⟨i, hi, hop⟩, -⟩ := Program.has_cons.mp hc
  refine ⟨i, 2, hi, ?_⟩
  have hread := h.read_fault htop hf i
  have hw : operandWidth t.arch (some .word) (.immediate n) (cellOperand t.arch) = .word := rfl
  have himm : s.read t.arch i .word (.immediate n) = .ok (Width.word.mask n.toUInt64) := rfl
  simp only [ha, step, hop, hw, stepArith, himm, hread]

theorem faults_store {n : Int64}
    (hc : p.Has position (.mov (some .word) (.immediate n) (cellOperand t.arch) :: ops))
    (ha : p.arch = t.arch) (h : Holds t w depth s) (hf : w.position < t.arch.firstCell) :
    Faults p ⟨position, s⟩ (t.cellAt w.position) := by
  obtain ⟨⟨i, hi, hop⟩, -⟩ := Program.has_cons.mp hc
  refine ⟨i, 2, hi, ?_⟩
  have hcheck : s.checkWrite t.arch i .word (cellOperand t.arch) =
      .error (.fault (i.faultAt (t.cellAt w.position) 2)) := by
    change s.check i (s.address t.arch (pointer t.arch)) 2 = _
    rw [h.address, h.check_fault hf htop i 2 (.inr rfl)]
  have hw : operandWidth t.arch (some .word) (.immediate n) (cellOperand t.arch) = .word := rfl
  have himm : s.read t.arch i .word (.immediate n) = .ok (Width.word.mask n.toUInt64) := rfl
  simp only [ha, step, hop, hw, stepMov, himm, hcheck]

theorem faults_write (hc : p.Has position (trap t.arch :: ops)) (ha : p.arch = t.arch)
    (h : Holds t w depth s) (hf : w.position < t.arch.firstCell)
    (hcalling : Calling t (callTable t.arch).write 1 w s) :
    Faults p ⟨position, s⟩ (t.cellAt w.position) := by
  obtain ⟨⟨i, hi, hop⟩, -⟩ := Program.has_cons.mp hc
  refine ⟨i, 1, hi, ?_⟩
  have hcheck := h.check_fault hf htop i 1 (.inl rfl)
  have hcall : callWrite s i 1 (t.cellAt w.position) 1 =
      (.error (.fault (i.faultAt (t.cellAt w.position) 1)), s) := by
    have hfile : ¬ ((1 : UInt64) ≠ 1 ∧ (1 : UInt64) ≠ 2) := by decide
    rw [callWrite, if_neg hfile, hcheck]
  rw [ha, step_trap hop, systemCall_write i hcalling.number, hcalling.file, hcalling.address,
    hcalling.size]
  exact congrArg (afterCall t.arch position) hcall

end TapeLang.Machine
