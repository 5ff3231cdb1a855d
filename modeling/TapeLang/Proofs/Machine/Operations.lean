import TapeLang.Proofs.Machine.Path
import TapeLang.Proofs.Machine.Tape

/-!
# What compiled operations do

The code of each operation takes a state that holds a tape to one that holds the tape after the
operation, in a number of instructions that is known beforehand.

* `step_arith`, `step_cmp`, `step_mov`, `step_push`: single instructions.
* **`segment_grow`**: the loop that pushes cells until the pointer is in memory.
* `segment_increment`, `segment_decrement`, `segment_backward`, `segment_forward`,
  `segment_write`, `segment_read`: the operations.
-/

namespace TapeLang.Machine

open Assembly Reference

attribute [local irreducible] Memory.store Memory.set

/-! ## Instructions -/

section Instructions

variable {arch : Arch} {s s' : State} {i : Instr Nat} {position target : Nat} {w : Width}
  {width : Option Width} {source dest : Operand Nat} {u v : UInt64} {f : Arith}

theorem step_mov (hi : i.op = .mov width source dest)
    (hw : operandWidth arch width source dest = w) (hv : s.read arch i w source = .ok v)
    (hd : s.checkWrite arch i w dest = .ok ()) :
    step arch s i position = (s.write arch w dest v, .goto (position + 1)) := by
  simp only [step, hi, hw, stepMov, hv, hd]

theorem step_cmp (hi : i.op = .arith .cmp width source dest)
    (hw : operandWidth arch width source dest = w) (hv : s.read arch i w source = .ok v)
    (hu : s.read arch i w dest = .ok u) :
    step arch s i position =
      ({ s with carry := decide (u < v), zero := decide (w.mask (u - v) = 0) },
        .goto (position + 1)) := by
  simp only [step, hi, hw, stepArith, hv, hu, Arith.apply, if_true]

theorem step_arith (hi : i.op = .arith f width source dest) (hf : f ≠ .cmp)
    (hw : operandWidth arch width source dest = w) (hv : s.read arch i w source = .ok v)
    (hu : s.read arch i w dest = .ok u)
    (hd : State.checkWrite { s with
        carry := (f.apply w u v).2, zero := decide ((f.apply w u v).1 = 0) } arch i w dest =
          .ok ()) :
    step arch s i position =
      (State.write { s with
        carry := (f.apply w u v).2, zero := decide ((f.apply w u v).1 = 0) } arch w dest
        (f.apply w u v).1, .goto (position + 1)) := by
  simp only [step, hi, hw, stepArith, hv, hu, if_neg hf, hd]

theorem step_push {a : UInt64} (hi : i.op = .push (some w) (.immediate 0))
    (hsp : (wordWidth arch).mask (s.registers.sp - UInt64.ofNat w.bytes) = a) (hlow : a < s.low)
    (htop : a.toNat + (Int64.ofNat w.bytes).toUInt64.toNat ≤ stackTop.toNat) :
    step arch s i position =
      ({ s with
        registers := { s.registers with sp := a }
        low := a
        pushes := s.pushes + 1
        memory := s.memory.store a w.bytes 0 }, .goto (position + 1)) := by
  have hread : s.read arch i w (.immediate 0) = .ok 0 := by cases w <;> rfl
  have hcheck : ∀ s' : State, s'.low = a → s'.check i a (Int64.ofNat w.bytes) = .ok () := by
    intro s' hs'
    rw [State.check, State.mapped_of_le (hs' ▸ UInt64.le_refl _) htop]
    rfl
  simp only [step, hi, Option.getD_some, stepPush, hread, hsp, if_pos hlow]
  rw [hcheck _ rfl]

theorem step_jump {condition : Condition} (hi : i.op = .jump condition (.label target)) :
    step arch s i position =
      (s, .goto (if condition.holds s.zero s.carry then target else position + 1)) := by
  simp only [step, hi]
  rfl

end Instructions

variable {p : Program} {t : Setting} {w : World} {depth : Nat} {s : State} {position : Nat}
  {o : Op Nat} {ops : List (Op Nat)} {count : Int64}

theorem Program.Has.next (hc : p.Has position (o :: ops)) {arch : Arch} (ha : p.arch = arch)
    {s' : State} {target : Nat}
    (hs : ∀ i : Instr Nat, i.op = o → step arch s i position = (s', .goto target)) :
    p.next? ⟨position, s⟩ = some ⟨target, s'⟩ := by
  obtain ⟨⟨i, hi, ho⟩, -⟩ := Program.has_cons.mp hc
  exact Program.next?_of_step hi (ha ▸ hs i ho)

theorem Program.Has.tail (hc : p.Has position (o :: ops)) : p.Has (position + 1) ops :=
  (Program.has_cons.mp hc).2

theorem Program.Has.next_jump {condition : Condition} {target : Nat}
    (hc : p.Has position (.jump condition (.label target) :: ops)) (s : State) :
    p.next? ⟨position, s⟩ =
      some ⟨if condition.holds s.zero s.carry then target else position + 1, s⟩ :=
  hc.next rfl fun _ hi => step_jump hi

/-! ## Changes of a cell -/

theorem toUInt16_mask (v : UInt64) : (Width.word.mask v).toUInt16 = v.toUInt16 := by
  refine UInt16.toNat_inj.mp ?_
  rw [UInt64.toNat_toUInt16, UInt64.toNat_toUInt16]
  change (v &&& 0xffff).toNat % 2 ^ 16 = v.toNat % 2 ^ 16
  rw [UInt64.toNat_and, show (0xffff : UInt64).toNat = 2 ^ 16 - 1 from rfl,
    Nat.and_two_pow_sub_one_eq_mod, Nat.mod_mod]

theorem toUInt16_count (h : 0 ≤ count.toInt) :
    (count &&& 0xffff).toUInt64.toUInt16 = UInt16.ofNat (Node.repeats count) := by
  rw [Int64.toUInt64_and]
  refine (toUInt16_mask count.toUInt64).trans (UInt16.toNat_inj.mp ?_)
  rw [UInt64.toNat_toUInt16, toNat_toUInt64 h]
  rfl

theorem next_cell {f : Arith} (hf : f ≠ .cmp) {n : Int64}
    (hc : p.Has position (.arith f (some .word) (.immediate n) (cellOperand t.arch) :: ops))
    (ha : p.arch = t.arch) (h : Holds t w depth s) (hfirst : t.arch.firstCell ≤ w.position)
    (hd : w.position ≤ depth) :
    ∃ s', p.next? ⟨position, s⟩ = some ⟨position + 1, s'⟩ ∧
      Holds t (w.put (f.apply .word w.cell.toUInt64 (Width.word.mask n.toUInt64)).1.toUInt16)
        depth s' := by
  set r := f.apply .word w.cell.toUInt64 (Width.word.mask n.toUInt64)
  have hflags := h.flags (decide (r.1 = 0)) r.2
  refine ⟨_, hc.next ha fun i hi => ?_, hflags.write_cell hfirst hd r.1⟩
  exact step_arith hi hf rfl rfl (h.read_cell hfirst hd i) (hflags.checkWrite_cell hfirst hd i)

theorem segment_one {Q : Nat → State → Prop} {s' : State} {target : Nat} (hq : Q 0 s)
    (hn : p.next? ⟨position, s⟩ = some ⟨target, s'⟩) :
    p.Segment Q ⟨position, s⟩ 1 ⟨target, s'⟩ :=
  .cons hq hn (.nil _)

/-- An operation on the current cell does what a node does, if the numbers agree. -/
theorem segment_cell {f : Arith} (hf : f ≠ .cmp) {n : Int64} {v : UInt16}
    (hc : p.Has position (.arith f (some .word) (.immediate n) (cellOperand t.arch) :: ops))
    (ha : p.arch = t.arch) (h : Holds t w depth s) (hfirst : t.arch.firstCell ≤ w.position)
    (hd : w.position ≤ depth)
    (hv : (f.apply .word w.cell.toUInt64 (Width.word.mask n.toUInt64)).1.toUInt16 = v) :
    ∃ s', p.Segment (fun _ => Guarded t depth w.output w.input) ⟨position, s⟩ 1
      ⟨position + 1, s'⟩ ∧ Holds t (w.put v) depth s' := by
  obtain ⟨s', hnext, hs'⟩ := next_cell hf hc ha h hfirst hd
  exact ⟨s', segment_one h.guarded hnext, hv ▸ hs'⟩

theorem segment_increment (hn : 0 ≤ count.toInt)
    (hc : p.Has position (operationCode t.arch position count .increment))
    (ha : p.arch = t.arch) (h : Holds t w depth s) (hf : t.arch.firstCell ≤ w.position)
    (hd : w.position ≤ depth) :
    ∃ s', p.Segment (fun _ => Guarded t depth w.output w.input) ⟨position, s⟩ 1
      ⟨position + 1, s'⟩ ∧ Holds t (w.act .increment count) depth s' := by
  rw [show w.act .increment count = _ from w.iterate_increment _]
  refine segment_cell (f := .add) (by decide) hc ha h hf hd ?_
  change (Width.word.mask (_ + _)).toUInt16 = _
  rw [toUInt16_mask, UInt64.toUInt16_add, toUInt16_mask, toUInt16_count hn,
    UInt16.toUInt16_toUInt64]
  rfl

theorem segment_decrement (hn : 0 ≤ count.toInt)
    (hc : p.Has position (operationCode t.arch position count .decrement))
    (ha : p.arch = t.arch) (h : Holds t w depth s) (hf : t.arch.firstCell ≤ w.position)
    (hd : w.position ≤ depth) :
    ∃ s', p.Segment (fun _ => Guarded t depth w.output w.input) ⟨position, s⟩ 1
      ⟨position + 1, s'⟩ ∧ Holds t (w.act .decrement count) depth s' := by
  rw [show w.act .decrement count = _ from w.iterate_decrement _]
  refine segment_cell (f := .sub) (by decide) hc ha h hf hd ?_
  change (Width.word.mask (_ - _)).toUInt16 = _
  rw [toUInt16_mask, UInt64.toUInt16_sub, toUInt16_mask, toUInt16_count hn,
    UInt16.toUInt16_toUInt64]
  rfl

/-! ## Moves -/

theorem toNat_double (h : 0 ≤ count.toInt) :
    (2 * count).toUInt64.toNat = 2 * Node.repeats count % 2 ^ 64 := by
  rw [Int64.toUInt64_mul, UInt64.toNat_mul, toNat_toUInt64 h]
  rfl

theorem emod_backward (hn : 0 ≤ count.toInt) (hr : t.InRange w.position) :
    (((Arith.apply .add (wordWidth t.arch) ((wordWidth t.arch).mask (t.cellAt w.position))
      ((wordWidth t.arch).mask (2 * count).toUInt64)).1.toNat : Int) -
      t.address (w.position + -(Node.repeats count : Int))) % 2 ^ t.arch.bits = 0 := by
  have hc := t.toNat_cellAt hr
  have hd := toNat_double hn
  have hb := t.arch.bits_eq
  change ((((wordWidth t.arch).mask (_ + _)).toNat : Int) - _) % _ = 0
  rw [toNat_mask, UInt64.toNat_add, toNat_mask, toNat_mask, hd]
  unfold Setting.address at hc ⊢
  rcases hb with hb | hb <;>
  · rw [hb]
    omega

theorem emod_forward (hn : 0 ≤ count.toInt) (hr : t.InRange w.position) :
    (((Arith.apply .sub (wordWidth t.arch) ((wordWidth t.arch).mask (t.cellAt w.position))
      ((wordWidth t.arch).mask (2 * count).toUInt64)).1.toNat : Int) -
      t.address (w.position + Node.repeats count)) % 2 ^ t.arch.bits = 0 := by
  have hc := t.toNat_cellAt hr
  have hd := toNat_double hn
  have hb := t.arch.bits_eq
  change ((((wordWidth t.arch).mask (_ - _)).toNat : Int) - _) % _ = 0
  rw [toNat_mask, UInt64.toNat_sub, toNat_mask, toNat_mask, hd]
  unfold Setting.address at hc ⊢
  rcases hb with hb | hb <;>
  · rw [hb]
    omega

theorem next_pointer {f : Arith} (hf : f ≠ .cmp) {n : Int64} {distance : Int}
    (hc : p.Has position
      (.arith f none (.immediate n) (wordReg t.arch (Assembly.pointer t.arch)) :: ops))
    (ha : p.arch = t.arch) (h : Holds t w depth s) (hr : t.InRange (w.position + distance))
    (hv : (((f.apply (wordWidth t.arch) ((wordWidth t.arch).mask (t.cellAt w.position))
      ((wordWidth t.arch).mask n.toUInt64)).1.toNat : Int) -
      t.address (w.position + distance)) % 2 ^ t.arch.bits = 0) :
    ∃ s', p.next? ⟨position, s⟩ = some ⟨position + 1, s'⟩ ∧ Holds t (w.move distance) depth s' := by
  set r := f.apply (wordWidth t.arch) ((wordWidth t.arch).mask (t.cellAt w.position))
    ((wordWidth t.arch).mask n.toUInt64) with hrdef
  refine ⟨_, hc.next ha fun i hi => ?_, (h.flags (decide (r.1 = 0)) r.2).move hr hv⟩
  have hread : s.read t.arch i (wordWidth t.arch) (wordReg t.arch (Assembly.pointer t.arch)) =
      .ok ((wordWidth t.arch).mask (t.cellAt w.position)) := by
    rw [← h.pointer]
    rfl
  exact step_arith hi hf rfl rfl hread rfl

theorem segment_backward (hn : 0 ≤ count.toInt)
    (hc : p.Has position (operationCode t.arch position count .moveBackward))
    (ha : p.arch = t.arch) (h : Holds t w depth s)
    (hr : t.InRange (w.act .moveBackward count).position) :
    ∃ s', p.Segment (fun _ => Guarded t depth w.output w.input) ⟨position, s⟩ 1
      ⟨position + 1, s'⟩ ∧ Holds t (w.act .moveBackward count) depth s' := by
  have hact : w.act .moveBackward count = w.move (-(Node.repeats count)) := w.iterate_backward _
  rw [hact] at hr ⊢
  obtain ⟨s', hnext, hs'⟩ :=
    next_pointer (f := .add) (by decide) hc ha h hr (emod_backward hn h.range)
  exact ⟨s', segment_one h.guarded hnext, hs'⟩

theorem next_compare
    (hc : p.Has position (.arith .cmp none (wordReg t.arch (Assembly.pointer t.arch))
      (wordReg t.arch .sp) :: ops))
    (ha : p.arch = t.arch) (h : Holds t w depth s) :
    ∃ s', p.next? ⟨position, s⟩ = some ⟨position + 1, s'⟩ ∧ Holds t w depth s' ∧
      (Condition.above.holds s'.zero s'.carry = true ↔ (depth : Int) < w.position) := by
  set u := (wordWidth t.arch).mask s.registers.sp
  set v := (wordWidth t.arch).mask (s.registers.get (Assembly.pointer t.arch))
  refine ⟨_, hc.next ha fun i hi => step_cmp (u := u) (v := v) hi rfl rfl rfl, h.flags _ _, ?_⟩
  change (!decide (u < v) && !decide ((wordWidth t.arch).mask (u - v) = 0)) = true ↔ _
  have hfirst : t.arch.firstCell ≤ depth := by
    have := t.arch.firstCell_neg
    omega
  obtain ⟨hrange, -⟩ := h.guarded.inRange hfirst le_rfl
  have hsp := h.guarded.sp
  have hu : (u.toNat : Int) = t.address depth := by
    rw [toNat_mask, t.eq_address hrange (by rw [hsp, Int.sub_self, Int.zero_emod])]
  have hv : (v.toNat : Int) = t.address w.position := by
    have hc := t.toNat_cellAt h.range
    rw [toNat_mask, h.pointer,
      t.eq_address h.range (by rw [hc, Int.sub_self, Int.zero_emod])]
  have hzero : (wordWidth t.arch).mask (u - v) = 0 ↔ u.toNat = v.toNat := by
    rw [← UInt64.toNat_inj, toNat_mask, UInt64.toNat_sub]
    have h₁ := hrange.2
    have h₂ := h.range.2
    have hb := t.arch.bits_eq
    rcases hb with hb | hb <;>
    · rw [hb] at h₁ h₂ ⊢
      change _ = 0 ↔ _
      omega
  rw [Bool.and_eq_true, Bool.not_eq_true', Bool.not_eq_true', decide_eq_false_iff_not,
    decide_eq_false_iff_not, hzero, UInt64.lt_iff_toNat_lt]
  unfold Setting.address at hu hv
  omega

theorem next_push
    (hc : p.Has position (.push (some .word) (.immediate 0) :: ops)) (ha : p.arch = t.arch)
    (h : Holds t w depth s) (hd : (depth : Int) < w.position) :
    ∃ s', p.next? ⟨position, s⟩ = some ⟨position + 1, s'⟩ ∧ Holds t w (depth + 1) s' := by
  have hlow : 0 ≤ t.address (depth + 1) := by
    have := h.range.1
    unfold Setting.address at this ⊢
    omega
  have hpush := h.push hlow
  refine ⟨_, hc.next ha fun i hi => ?_, hpush⟩
  have hfirst := t.arch.firstCell_neg
  obtain ⟨hrange, htop, -⟩ :=
    hpush.guarded.inRange (q := depth + 1) (by omega) (by omega)
  have hcell := t.toNat_cellAt hrange
  have hsp := h.guarded.sp
  have hsize : (UInt64.ofNat Width.word.bytes).toNat = 2 ∧
      (Int64.ofNat Width.word.bytes).toUInt64.toNat = 2 := ⟨rfl, rfl⟩
  refine step_push hi ?_ ?_ ?_
  · refine UInt64.toNat_inj.mp (Int.natCast_inj.mp ?_)
    rw [toNat_mask, hcell]
    refine t.eq_address hrange ?_
    rw [UInt64.toNat_sub, hsize.1]
    have hb := t.arch.bits_eq
    unfold Setting.address at hsp ⊢
    rcases hb with hb | hb <;>
    · rw [hb]
      omega
  · rw [h.guarded.low, UInt64.lt_iff_toNat_lt]
    unfold Setting.address at hsp hcell
    omega
  · omega

/-- **The loop that pushes cells** ends when the pointer is in memory. It takes three instructions
for each new cell and two more. -/
theorem segment_grow {start new : Nat}
    (hc : p.Has start [.push (some .word) (.immediate 0),
      .arith .cmp none (wordReg t.arch (Assembly.pointer t.arch)) (wordReg t.arch .sp),
      .jump .above (.label start)])
    (ha : p.arch = t.arch) (h : Holds t w depth s)
    (hnew : max depth w.position.toNat = depth + new) :
    ∃ s', p.Segment (fun r => Guarded t (depth + r / 3) w.output w.input) ⟨start + 1, s⟩
      (3 * new + 2) ⟨start + 3, s'⟩ ∧ Holds t w (depth + new) s' := by
  -- One round of the loop is a comparison, a jump and a push; the last round has no push.
  induction new generalizing depth s with
  | zero =>
    obtain ⟨s₁, hcmp, h₁, habove⟩ := next_compare hc.tail ha h
    have hstay : ¬ Condition.above.holds s₁.zero s₁.carry = true := by
      rw [habove]
      omega
    have hjump := hc.tail.tail.next_jump s₁
    rw [if_neg hstay] at hjump
    exact ⟨s₁, .cons h.guarded hcmp (.cons h₁.guarded hjump (.nil _)), h₁⟩
  | succ new ih =>
    obtain ⟨s₁, hcmp, h₁, habove⟩ := next_compare hc.tail ha h
    have hdeep : (depth : Int) < w.position := by omega
    have hjump := hc.tail.tail.next_jump s₁
    rw [if_pos (habove.mpr hdeep)] at hjump
    obtain ⟨s₂, hpush, h₂⟩ := next_push hc ha h₁ hdeep
    obtain ⟨s', hseg, hs'⟩ := ih h₂ (by omega)
    refine ⟨s', ?_, ?_⟩
    · refine .cons h.guarded hcmp (.cons h₁.guarded hjump (.cons h₁.guarded hpush ?_))
      have hshift : (fun r => Guarded t (depth + (r + 1 + 1 + 1) / 3) w.output w.input) =
          fun r => Guarded t (depth + 1 + r / 3) w.output w.input := by
        funext r
        rw [show depth + (r + 1 + 1 + 1) / 3 = depth + 1 + r / 3 by omega]
      rw [hshift]
      exact hseg
    · rw [show depth + (new + 1) = depth + 1 + new by omega]
      exact hs'

theorem segment_forward (hn : 0 ≤ count.toInt)
    (hc : p.Has position (operationCode t.arch position count .moveForward))
    (ha : p.arch = t.arch) (h : Holds t w depth s)
    (hr : t.InRange (w.act .moveForward count).position) :
    ∃ s', p.Segment (fun r => Guarded t (depth + (r - 2) / 3) w.output w.input) ⟨position, s⟩
      (operationCost w depth count .moveForward) ⟨position + 5, s'⟩ ∧
      Holds t (w.act .moveForward count)
        (max depth (w.act .moveForward count).position.toNat) s' := by
  have hact : w.act .moveForward count = w.move (Node.repeats count) := w.iterate_forward _
  rw [hact] at hr ⊢
  obtain ⟨s₁, hsub, h₁⟩ :=
    next_pointer (f := .sub) (by decide) hc ha h hr (emod_forward hn h.range)
  have hjump := hc.tail.next_jump s₁
  obtain ⟨new, hnew⟩ : ∃ new, max depth (w.move (Node.repeats count)).position.toNat =
      depth + new := ⟨_, (Nat.add_sub_cancel' (Nat.le_max_left _ _)).symm⟩
  have hgrow : p.Has (position + 2) [.push (some .word) (.immediate 0),
      .arith .cmp none (wordReg t.arch (Assembly.pointer t.arch)) (wordReg t.arch .sp),
      .jump .above (.label (position + 2))] := hc.tail.tail
  obtain ⟨s', hseg, hs'⟩ := segment_grow hgrow ha h₁ hnew
  refine ⟨s', ?_, hnew ▸ hs'⟩
  have hcost : operationCost w depth count .moveForward = 3 * new + 2 + 1 + 1 := by
    change 4 + 3 * ((w.position + Node.repeats count).toNat - depth) = _
    change max depth (w.position + Node.repeats count).toNat = _ at hnew
    omega
  rw [hcost]
  refine .cons h.guarded hsub (.cons h₁.guarded hjump (hseg.mono fun r _ s hs => ?_))
  rwa [show (r + 1 + 1 - 2) / 3 = r / 3 by omega]

/-! ## System calls -/

theorem step_trap {arch : Arch} {i : Instr Nat} (hi : i.op = trap arch) :
    step arch s i position = systemCall s arch i position := by
  cases arch <;> simp [step, hi, trap]

theorem systemCall_exit {arch : Arch} (i : Instr Nat)
    (h : (wordWidth arch).mask s.registers.ax = (callTable arch).exit) :
    systemCall s arch i position = (s, .exit ((wordWidth arch).mask
      (s.registers.get (callTable arch).arguments.1) &&& 0xff).toNat) := by
  simp only [systemCall, h, if_true]

theorem systemCall_read {arch : Arch} (i : Instr Nat)
    (h : (wordWidth arch).mask s.registers.ax = (callTable arch).read) :
    systemCall s arch i position = afterCall arch position (callRead s i
      ((wordWidth arch).mask (s.registers.get (callTable arch).arguments.1))
      ((wordWidth arch).mask (s.registers.get (callTable arch).arguments.2.1))
      ((wordWidth arch).mask (s.registers.get (callTable arch).arguments.2.2)).toInt64) := by
  have hne : (callTable arch).read ≠ (callTable arch).exit := by cases arch <;> decide
  simp only [systemCall, h, if_neg hne, if_true]

theorem systemCall_write {arch : Arch} (i : Instr Nat)
    (h : (wordWidth arch).mask s.registers.ax = (callTable arch).write) :
    systemCall s arch i position = afterCall arch position (callWrite s i
      ((wordWidth arch).mask (s.registers.get (callTable arch).arguments.1))
      ((wordWidth arch).mask (s.registers.get (callTable arch).arguments.2.1))
      ((wordWidth arch).mask (s.registers.get (callTable arch).arguments.2.2)).toInt64) := by
  have hne : (callTable arch).write ≠ (callTable arch).exit ∧
      (callTable arch).write ≠ (callTable arch).read := by cases arch <;> decide
  simp only [systemCall, h, if_neg hne.1, if_neg hne.2, if_true]

theorem next_load {r : Reg} {n : Int64} {arch : Arch}
    (hc : p.Has position (.mov none (.immediate n) (wordReg arch r) :: ops)) (ha : p.arch = arch)
    (s : State) :
    p.next? ⟨position, s⟩ =
      some ⟨position + 1, s.setReg arch r ((wordWidth arch).mask n.toUInt64)⟩ :=
  hc.next ha fun _ hi => step_mov hi rfl rfl rfl

theorem next_load_pointer {r : Reg}
    (hc : p.Has position
      (.mov none (wordReg t.arch (Assembly.pointer t.arch)) (wordReg t.arch r) :: ops))
    (ha : p.arch = t.arch) (h : Holds t w depth s) :
    p.next? ⟨position, s⟩ = some ⟨position + 1, s.setReg t.arch r (t.cellAt w.position)⟩ := by
  rw [← h.address]
  exact hc.next ha fun _ hi => step_mov hi rfl rfl rfl

/-- The operands of a call that moves one byte between a file and the current cell. -/
def transfer (arch : Arch) (file : Int64) : List (Operand Nat) :=
  [.immediate file, wordReg arch (pointer arch), .immediate 1]

/-- A state in which such a call is about to be made. -/
structure Calling (t : Setting) (number : UInt64) (file : Int64) (w : World) (s : State) :
    Prop where
  number : (wordWidth t.arch).mask s.registers.ax = number
  file : (wordWidth t.arch).mask (s.registers.get (callTable t.arch).arguments.1) = file.toUInt64
  address : (wordWidth t.arch).mask (s.registers.get (callTable t.arch).arguments.2.1) =
    t.cellAt w.position
  size : ((wordWidth t.arch).mask (s.registers.get (callTable t.arch).arguments.2.2)).toInt64 = 1

theorem segment_transfer {number : UInt64} {file : Int64}
    (hc : p.Has position (callOps t.arch number (transfer t.arch file))) (ha : p.arch = t.arch)
    (hnumber : (wordWidth t.arch).mask number = number)
    (hfile : (wordWidth t.arch).mask file.toUInt64 = file.toUInt64) (h : Holds t w depth s) :
    ∃ s', p.Segment (fun _ => Guarded t depth w.output w.input) ⟨position, s⟩ 4
      ⟨position + 4, s'⟩ ∧ Holds t w depth s' ∧ Calling t number file w s' := by
  have hne : Reg.ax ≠ .sp ∧ Reg.ax ≠ Assembly.pointer t.arch ∧
      ∀ r ∈ argumentRegs t.arch, r ≠ .sp ∧ r ≠ Assembly.pointer t.arch := by
    cases t.arch <;> decide
  obtain ⟨hsp, hptr, hargs⟩ := hne
  simp only [argumentRegs, List.forall_mem_cons] at hargs
  obtain ⟨⟨h₀, h₀'⟩, ⟨h₁, h₁'⟩, ⟨h₂, h₂'⟩, -⟩ := hargs
  have hs₁ := h.setReg hsp hptr ((wordWidth t.arch).mask number)
  have hs₂ := hs₁.setReg h₀ h₀' ((wordWidth t.arch).mask file.toUInt64)
  have hs₃ := hs₂.setReg h₁ h₁' (t.cellAt w.position)
  have hs₄ := hs₃.setReg h₂ h₂' ((wordWidth t.arch).mask 1)
  refine ⟨_, .cons h.guarded (next_load hc ha s) (.cons hs₁.guarded (next_load hc.tail ha _)
    (.cons hs₂.guarded (next_load_pointer hc.tail.tail ha hs₂)
      (.cons hs₃.guarded (next_load hc.tail.tail.tail ha _) (.nil _)))), hs₄, ?_⟩
  have hdistinct : (Reg.ax :: argumentRegs t.arch).Nodup := by cases t.arch <;> decide
  simp only [argumentRegs, List.nodup_cons, List.mem_cons, not_or] at hdistinct
  obtain ⟨⟨hx₀, hx₁, hx₂, -⟩, ⟨h₀₁, h₀₂, -⟩, ⟨h₁₂, -⟩, -⟩ := hdistinct
  have hone : ((wordWidth t.arch).mask ((wordWidth t.arch).mask 1)).toInt64 = 1 := by
    cases t.arch <;> rfl
  refine ⟨?_, ?_, ?_, ?_⟩
  · change (wordWidth t.arch).mask (Registers.get _ .ax) = number
    rw [State.get_setReg, if_neg hx₂, State.get_setReg, if_neg hx₁, State.get_setReg, if_neg hx₀,
      State.get_setReg, if_pos rfl, mask_mask, mask_mask]
    exact hnumber
  · rw [State.get_setReg, if_neg h₀₂, State.get_setReg, if_neg h₀₁, State.get_setReg, if_pos rfl,
      mask_mask, mask_mask, hfile]
  · rw [State.get_setReg, if_neg h₁₂, State.get_setReg, if_pos rfl, mask_mask,
      t.mask_cellAt h.range]
  · rw [State.get_setReg, if_pos rfl, mask_mask]
    exact hone

theorem callWrite_cell (h : Holds t w depth s) (hf : t.arch.firstCell ≤ w.position)
    (hd : w.position ≤ depth) (i : Instr Nat) :
    callWrite s i 1 (t.cellAt w.position) 1 =
      (.ok (offer s.output [w.cell.toUInt8] 1).1,
        { s with output := (offer s.output [w.cell.toUInt8] 1).2 }) := by
  have hfile : ¬ ((1 : UInt64) ≠ 1 ∧ (1 : UInt64) ≠ 2) := by decide
  have hdata : s.memory.slice (t.cellAt w.position) (1 : Int64).toInt.toNat =
      [w.cell.toUInt8] := by
    rw [show (1 : Int64).toInt.toNat = 1 from rfl, Memory.slice_one, h.cells _ hf hd]
    rfl
  rw [callWrite, if_neg hfile, h.check hf hd i 1 (by decide)]
  simp only [hdata, if_true]
  rfl

theorem operationCode_write (arch : Arch) (start : Nat) (count : Int64) :
    operationCode arch start count .write =
      callOps arch (callTable arch).write (transfer arch 1) := by
  rw [operationCode, operationEntries, ops_map_op]
  rfl

theorem segment_write (hc : p.Has position (operationCode t.arch position count .write))
    (ha : p.arch = t.arch) (h : Holds t w depth s) (hf : t.arch.firstCell ≤ w.position)
    (hd : w.position ≤ depth) :
    ∃ s', p.Segment (fun _ => Guarded t depth w.output w.input) ⟨position, s⟩ 5
      ⟨position + 5, s'⟩ ∧ Holds t (w.act .write count) depth s' := by
  rw [operationCode_write] at hc
  obtain ⟨s₁, hseg, h₁, hcalling⟩ :=
    segment_transfer hc ha (by cases t.arch <;> rfl) (by cases t.arch <;> rfl) h
  have htrap : p.Has (position + 4) [trap t.arch] := hc.tail.tail.tail.tail
  have hsys : ∀ i, systemCall s₁ t.arch i (position + 4) =
      (State.setReg { s₁ with output := (offer s₁.output [w.cell.toUInt8] 1).2 } t.arch .ax
        (offer s₁.output [w.cell.toUInt8] 1).1.toUInt64, .goto (position + 5)) := by
    intro i
    rw [systemCall_write i hcalling.number, hcalling.file, hcalling.address, hcalling.size]
    exact congrArg (afterCall t.arch (position + 4)) (callWrite_cell h₁ hf hd i)
  refine ⟨_, hseg.trans (segment_one h₁.guarded
    (htrap.next ha fun i hi => (step_trap hi).trans (hsys i))), ?_⟩
  exact h₁.write_output.setReg (by decide) (by cases t.arch <;> decide) _

theorem next_store {n : Int64}
    (hc : p.Has position (.mov (some .word) (.immediate n) (cellOperand t.arch) :: ops))
    (ha : p.arch = t.arch) (h : Holds t w depth s) (hf : t.arch.firstCell ≤ w.position)
    (hd : w.position ≤ depth) :
    ∃ s', p.next? ⟨position, s⟩ = some ⟨position + 1, s'⟩ ∧
      Holds t (w.put n.toUInt64.toUInt16) depth s' := by
  refine ⟨_, hc.next ha fun i hi => step_mov hi rfl rfl (h.checkWrite_cell hf hd i), ?_⟩
  rw [← toUInt16_mask]
  exact h.write_cell hf hd _

theorem callRead_cell (h : Holds t w depth s) (hf : t.arch.firstCell ≤ w.position)
    (hd : w.position ≤ depth) (i : Instr Nat) :
    callRead s i 0 (t.cellAt w.position) 1 =
      (.ok (readInput s (t.cellAt w.position) 1).1, (readInput s (t.cellAt w.position) 1).2) := by
  have hfile : ¬ ((0 : UInt64) ≠ 0 ∨ (1 : Int64) < 0) := by decide
  rw [callRead, if_neg hfile, h.check hf hd i 1 (by decide)]
  rfl

theorem next_read (hc : p.Has position (trap t.arch :: ops)) (ha : p.arch = t.arch)
    (h : Holds t w depth s) (hf : t.arch.firstCell ≤ w.position) (hd : w.position ≤ depth)
    (hcalling : Calling t (callTable t.arch).read 0 w s) :
    p.next? ⟨position, s⟩ = some ⟨position + 1,
      (readInput s (t.cellAt w.position) 1).2.setReg t.arch .ax
        (readInput s (t.cellAt w.position) 1).1.toUInt64⟩ := by
  refine hc.next ha fun i hi => (step_trap hi).trans ?_
  rw [systemCall_read i hcalling.number, hcalling.file, hcalling.address, hcalling.size]
  exact congrArg (afterCall t.arch position) (callRead_cell h hf hd i)

theorem next_compare_one
    (hc : p.Has position (.arith .cmp none (.immediate 1) (wordReg t.arch .ax) :: ops))
    (ha : p.arch = t.arch) {result : Int64}
    (h : Holds t w depth (s.setReg t.arch .ax result.toUInt64))
    (hresult : result = 0 ∨ result = ioFailure ∨ result = 1) :
    ∃ s', p.next? ⟨position, s.setReg t.arch .ax result.toUInt64⟩ = some ⟨position + 1, s'⟩ ∧
      Holds t w depth s' ∧ (Condition.equal.holds s'.zero s'.carry = true ↔ result = 1) := by
  refine ⟨_, hc.next ha fun _ hi => step_cmp hi rfl rfl rfl, h.flags _ _, ?_⟩
  change decide (_ = _) = true ↔ _
  rw [decide_eq_true_iff, State.get_setReg, if_pos rfl]
  rcases hresult with rfl | rfl | rfl <;> cases t.arch <;> decide

/-- The end of a read, when there was no byte. -/
theorem segment_read_end
    (hc : p.Has position (trap t.arch :: .arith .cmp none (.immediate 1) (wordReg t.arch .ax) ::
      .jump .equal (.label (position + 4)) ::
      .mov (some .word) (.immediate (-1)) (cellOperand t.arch) :: ops))
    (ha : p.arch = t.arch) (h : Holds t w depth s) (hf : t.arch.firstCell ≤ w.position)
    (hd : w.position ≤ depth) (hcalling : Calling t (callTable t.arch).read 0 w s)
    (hin : w.input = []) :
    ∃ s', p.Segment (fun _ => Guarded t depth w.output []) ⟨position, s⟩ 4 ⟨position + 4, s'⟩ ∧
      Holds t (w.put 0xffff) depth s' := by
  have hread := next_read hc ha h hf hd hcalling
  obtain ⟨result, input, hr, hresult, hrest⟩ :=
    readInput_end (h.guarded.input.trans hin) (t.cellAt w.position)
  rw [hr] at hread
  have hg := h.guarded
  have h₁ : Holds t w depth (State.setReg { s with input } t.arch .ax result.toUInt64) := by
    have h₀ : Holds t w depth { s with input } :=
      ⟨⟨hg.sp, hg.low, hg.pushes, hg.output, hrest.trans hin.symm⟩, h.pointer, h.range, h.cells,
        h.blank⟩
    exact h₀.setReg (by decide) (by cases t.arch <;> decide) _
  obtain ⟨s₂, hcmp, h₂, hequal⟩ :=
    next_compare_one hc.tail ha h₁ (hresult.imp id .inl)
  have hjump := hc.tail.tail.next_jump s₂
  have hne : ¬ Condition.equal.holds s₂.zero s₂.carry = true := by
    rw [hequal]
    rcases hresult with rfl | rfl <;> decide
  rw [if_neg hne] at hjump
  obtain ⟨s₃, hmov, h₃⟩ := next_store hc.tail.tail.tail ha h₂ hf hd
  rw [← hin]
  exact ⟨s₃, .cons h.guarded hread (.cons h₁.guarded hcmp (.cons h₂.guarded hjump
    (.cons h₂.guarded hmov (.nil _)))), h₃⟩

/-- The end of a read, when there was a byte. -/
theorem segment_read_byte
    (hc : p.Has position (trap t.arch :: .arith .cmp none (.immediate 1) (wordReg t.arch .ax) ::
      .jump .equal (.label (position + 4)) :: ops))
    (ha : p.arch = t.arch) (h : Holds t w depth s) (hf : t.arch.firstCell ≤ w.position)
    (hd : w.position ≤ depth) (hcalling : Calling t (callTable t.arch).read 0 w s)
    (hz : w.cell = 0) {b : UInt8} {rest : Bytes} (hin : w.input = b :: rest) :
    ∃ s', p.Segment (fun r => Guarded t depth w.output (if r < 1 then w.input else rest))
        ⟨position, s⟩ 3 ⟨position + 4, s'⟩ ∧
      Holds t { w.put b.toUInt16 with input := rest } depth s' := by
  have hread := next_read hc ha h hf hd hcalling
  obtain ⟨input, hr, hrest⟩ :=
    readInput_byte (h.guarded.input.trans hin) (t.cellAt w.position)
  rw [hr] at hread
  have h₁ := (h.read_byte hf hd hz b hrest).setReg (r := .ax) (by decide)
    (by cases t.arch <;> decide) (1 : Int64).toUInt64
  obtain ⟨s₂, hcmp, h₂, hequal⟩ := next_compare_one hc.tail ha h₁ (.inr (.inr rfl))
  have hjump := hc.tail.tail.next_jump s₂
  rw [if_pos (hequal.mpr rfl)] at hjump
  exact ⟨s₂, .cons h.guarded hread (.cons h₁.guarded hcmp (.cons h₂.guarded hjump (.nil _))), h₂⟩

theorem operationCode_read (arch : Arch) (start : Nat) (count : Int64) :
    operationCode arch start count .read =
      .mov (some .word) (.immediate 0) (cellOperand arch) ::
        (callOps arch (callTable arch).read (transfer arch 0) ++
          [.arith .cmp none (.immediate 1) (wordReg arch .ax), .jump .equal (.label (start + 9)),
            .mov (some .word) (.immediate (-1)) (cellOperand arch)]) := by
  cases arch <;> rfl

theorem segment_read (hc : p.Has position (operationCode t.arch position count .read))
    (ha : p.arch = t.arch) (h : Holds t w depth s) (hf : t.arch.firstCell ≤ w.position)
    (hd : w.position ≤ depth) :
    ∃ s', p.Segment
        (fun r => Guarded t depth w.output (if r < 6 then w.input else w.read.input))
        ⟨position, s⟩ (operationCost w depth count .read) ⟨position + 9, s'⟩ ∧
      Holds t (w.act .read count) depth s' := by
  rw [operationCode_read] at hc
  obtain ⟨s₁, hmov, h₁⟩ := next_store hc ha h hf hd
  obtain ⟨s₂, hseg, h₂, hcalling⟩ := segment_transfer (Program.has_append.mp hc.tail).1 ha
    (by cases t.arch <;> rfl) (by cases t.arch <;> rfl) h₁
  have htrap := hc.tail.tail.tail.tail.tail
  have hfront : p.Segment
      (fun r => Guarded t depth w.output (if r < 6 then w.input else w.read.input))
      ⟨position, s⟩ 5 ⟨position + 5, s₂⟩ := by
    refine .cons h.guarded hmov (hseg.mono fun r hr s hs => ?_)
    rwa [if_pos (by omega)]
  rcases hin : w.input with _ | ⟨b, rest⟩
  · obtain ⟨s₃, hback, h₃⟩ := segment_read_end htrap ha h₂ hf hd hcalling hin
    have hw : w.act .read count = w.put 0xffff := World.read_nil hin
    have hcost : operationCost w depth count .read = 5 + 4 := by
      rw [operationCost, hin]
      rfl
    refine ⟨s₃, ?_, ?_⟩
    · rw [hcost, ← hin]
      refine hfront.trans (hback.mono fun r _ s hs => ?_)
      rw [World.read_nil hin, show (w.put 0xffff).input = w.input from rfl, ite_self, hin]
      exact hs
    · rw [hw]
      rwa [World.put_put] at h₃
  · obtain ⟨s₃, hback, h₃⟩ := segment_read_byte htrap ha h₂ hf hd hcalling (w.cell_put 0) hin
    have hw : w.act .read count = { w.put b.toUInt16 with input := rest } := World.read_cons hin
    have hcost : operationCost w depth count .read = 5 + 3 := by
      rw [operationCost, hin]
      rfl
    refine ⟨s₃, ?_, ?_⟩
    · rw [hcost, ← hin]
      refine hfront.trans (hback.mono fun r _ s hs => ?_)
      rw [World.read_cons hin]
      by_cases hr : r < 1
      · rw [if_pos hr] at hs
        rwa [if_pos (by omega)]
      · rw [if_neg hr] at hs
        rwa [if_neg (by omega)]
    · rw [hw]
      rwa [World.put_put] at h₃

end TapeLang.Machine
