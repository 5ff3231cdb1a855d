import TapeLang.Proofs.Machine.Change

/-!
# What the streams can tell a program

A program learns from its streams through the accumulator alone: a system call leaves its result
there, and the flags may carry it further. Code that looks at the accumulator only where two runs
must agree on it cannot tell two streams apart.

* `Alike`: two states that differ in the accumulator and the flags, and in their streams.
* `Stage`: what two runs agree on besides; `Stage.after`: what they agree on after an operation, if
  it looks at nothing else.
* **`keeps_step`**: one instruction in two runs.
* `Checked`, **`Checked.runFrom`**: two runs of code that keeps to the rules.
-/

namespace TapeLang.Machine

open Assembly

attribute [local irreducible] Memory.store Memory.set Memory.write

/-! ## Two states -/

/-- Two sinks that the same bytes were offered to, one by one. -/
def Offered (x y u v : Option Sink) : Prop :=
  ∃ bytes, u = deliver x bytes ∧ v = deliver y bytes

theorem Offered.offer {x y u v : Option Sink} (h : Offered x y u v) (b : UInt8) :
    Offered x y (offer u [b] 1).2 (offer v [b] 1).2 := by
  obtain ⟨bytes, rfl, rfl⟩ := h
  exact ⟨bytes ++ [b], (deliver_concat x bytes b).symm, (deliver_concat y bytes b).symm⟩

/-- Two states that differ in the accumulator, the flags and the streams only. The input holds the
same bytes, and the same bytes were offered to the outputs, which were `x` and `y` before. -/
structure Alike (x y : Option Sink) (s t : State) : Prop where
  registers : ∀ r, r ≠ .ax → s.registers.get r = t.registers.get r
  memory : s.memory = t.memory
  low : s.low = t.low
  pushes : s.pushes = t.pushes
  errors : s.errors = t.errors
  input : s.remaining = t.remaining
  output : Offered x y s.output t.output

/-- What two runs agree on besides. -/
inductive Stage where
  | idle
  /-- The accumulator holds this number in both. -/
  | calling (number : UInt64)
  /-- Besides, the size of the call is one. -/
  | ready (number : UInt64)
  /-- Whether the result of a call is one. -/
  | answered
  /-- The zero flag. -/
  | zeroed
  /-- Both flags. -/
  | flagged
  /-- No run goes on from here. -/
  | halted
  deriving DecidableEq

/-- Two states agree on what a stage says. -/
def Stage.Agrees (arch : Arch) (s t : State) : Stage → Prop
  | .idle => True
  | .calling n => s.address arch .ax = n ∧ t.address arch .ax = n
  | .ready n => (s.address arch .ax = n ∧ t.address arch .ax = n) ∧
    s.address arch (callTable arch).arguments.2.2 = 1
  | .answered => s.address arch .ax = 1 ↔ t.address arch .ax = 1
  | .zeroed => s.zero = t.zero
  | .flagged => s.zero = t.zero ∧ s.carry = t.carry
  | .halted => False

/-! ## Rules -/

/-- An operand that has nothing to do with the accumulator. -/
def Operand.avoids : Operand Nat → Bool
  | .register r _ | .memory r => r ≠ .ax
  | .immediate _ | .label _ => true

namespace Stage

variable (arch : Arch) (stage : Stage)

/-- After a move. The number of a call may be moved to the accumulator, and then the arguments. -/
def afterMov (width : Option Width) (source target : Operand Nat) : Option Stage :=
  if source.avoids && target.avoids then
    match stage with
    | .calling n =>
      if target = wordReg arch (callTable arch).arguments.2.2 ∧ width = none ∧
        source = .immediate 1 then some (.ready n)
      else some (.calling n)
    | _ => some .idle
  else
    match width, source with
    | none, .immediate n =>
      if target = wordReg arch .ax then some (.calling ((wordWidth arch).mask n.toUInt64)) else none
    | _, _ => none

/-- After an operation that sets the flags. The result of a call may be compared with one. -/
def afterArith (f : Arith) (width : Option Width) (source target : Operand Nat) : Option Stage :=
  if source.avoids && target.avoids then some .flagged
  else if stage = .answered ∧ f = .cmp ∧ width = none ∧ source = .immediate 1 ∧
    target = wordReg arch .ax then some .zeroed
  else none

/-- After a jump. -/
def afterJump (condition : Condition) : Option Stage :=
  if condition = .always ∨ stage = .flagged ∨ stage = .zeroed ∧ condition = .equal then some .idle
  else none

/-- After a system call. -/
def afterTrap : Option Stage :=
  match stage with
  | .calling n => if n = (callTable arch).exit then some .halted else none
  | .ready n =>
    if n = (callTable arch).read then some .answered
    else if n = (callTable arch).write then some .idle
    else none
  | _ => none

/-- What two runs agree on after an operation, if it looks at nothing that they may differ in. -/
def after : Op Nat → Option Stage
  | .push _ source => if source.avoids then some .idle else none
  | .mov width source target => stage.afterMov arch width source target
  | .arith f width source target => stage.afterArith arch f width source target
  | .jump condition _ => stage.afterJump condition
  | .syscall | .interrupt _ => stage.afterTrap arch

end Stage

/-- Where an operation may jump to. -/
def Op.targets : Op Nat → List Nat
  | .jump _ target => [target.target]
  | _ => []

/-! ## Operands -/

variable {x y : Option Sink} {arch : Arch} {s t : State} {i : Instr Nat}
  {position : Nat} {w : Width} {o source target : Operand Nat} {next stage : Stage}

theorem Registers.get_set_congr {rs rs' : Registers} (h : ∀ r, r ≠ .ax → rs.get r = rs'.get r)
    {r : Reg} (hr : r ≠ .ax) (w : Width) (v : UInt64) :
    ∀ r', r' ≠ .ax → (rs.set r w v).get r' = (rs'.set r w v).get r' := by
  intro r' hr'
  by_cases he : r' = r
  · subst he
    cases w <;> simp only [Registers.set, Registers.get_put, if_pos, h r' hr]
  · rw [rs.get_set_of_ne he, rs'.get_set_of_ne he, h r' hr']

namespace Alike

variable (h : Alike x y s t)
include h

theorem address (arch : Arch) {r : Reg} (hr : r ≠ .ax) : s.address arch r = t.address arch r := by
  rw [State.address, State.address, h.registers r hr]

theorem check (a : UInt64) (size : Int64) : s.check i a size = t.check i a size := by
  rw [State.check, State.check, State.mapped, State.mapped, h.low]

theorem read (ho : o.avoids) : s.read arch i w o = t.read arch i w o := by
  cases o with
  | immediate | label => rfl
  | register r w' =>
    have hr : r ≠ .ax := by simpa [Operand.avoids] using ho
    change Except.ok (w.mask (s.registers.get r)) = .ok (w.mask (t.registers.get r))
    rw [h.registers r hr]
  | memory r =>
    have hr : r ≠ .ax := by simpa [Operand.avoids] using ho
    rw [State.read_eq, State.read_eq, h.address arch hr, h.check, h.memory]

theorem checkWrite (ho : o.avoids) : s.checkWrite arch i w o = t.checkWrite arch i w o := by
  cases o with
  | immediate | label | register => rfl
  | memory r =>
    have hr : r ≠ .ax := by simpa [Operand.avoids] using ho
    change s.check i (s.address arch r) _ = t.check i (t.address arch r) _
    rw [h.address arch hr, h.check]

theorem flags (zero carry zero' carry' : Bool) :
    Alike x y { s with zero, carry } { t with zero := zero', carry := carry' } :=
  ⟨h.registers, h.memory, h.low, h.pushes, h.errors, h.input, h.output⟩

theorem setRegisters {rs rs' : Registers} (hrs : ∀ r, r ≠ .ax → rs.get r = rs'.get r) :
    Alike x y { s with registers := rs } { t with registers := rs' } :=
  ⟨hrs, h.memory, h.low, h.pushes, h.errors, h.input, h.output⟩

theorem setMemory (m : Memory) : Alike x y { s with memory := m } { t with memory := m } :=
  ⟨h.registers, rfl, h.low, h.pushes, h.errors, h.input, h.output⟩

theorem setInput (m : Memory) {input input' : Option Input}
    (hi : inputBytes input = inputBytes input') :
    Alike x y { s with memory := m, input } { t with memory := m, input := input' } :=
  ⟨h.registers, rfl, h.low, h.pushes, h.errors, hi, h.output⟩

theorem write (ho : o.avoids) (v : UInt64) :
    Alike x y (s.write arch w o v) (t.write arch w o v) := by
  cases o with
  | immediate | label => exact h
  | register r w' =>
    have hr : r ≠ .ax := by simpa [Operand.avoids] using ho
    exact h.setRegisters (Registers.get_set_congr h.registers hr w v)
  | memory r =>
    have hr : r ≠ .ax := by simpa [Operand.avoids] using ho
    have he : t.write arch w (.memory r) v =
        { t with memory := s.memory.store (s.address arch r) w.bytes v } := by
      rw [h.memory, h.address arch hr]
      rfl
    rw [he]
    exact h.setMemory _

end Alike

theorem address_write (ho : o.avoids) (v : UInt64) :
    (s.write arch w o v).address arch .ax = s.address arch .ax := by
  cases o with
  | immediate | label | memory => rfl
  | register r w' =>
    have hr : r ≠ .ax := by simpa [Operand.avoids] using ho
    change (wordWidth arch).mask ((s.registers.set r w v).get .ax) = _
    rw [s.registers.get_set_of_ne hr.symm]
    rfl

theorem flags_write (v : UInt64) :
    (s.write arch w o v).zero = s.zero ∧ (s.write arch w o v).carry = s.carry := by
  cases o <;> exact ⟨rfl, rfl⟩

theorem address_setReg (s : State) (arch : Arch) (r : Reg) (v : UInt64) :
    (s.setReg arch r v).address arch r = (wordWidth arch).mask v := by
  rw [State.address, State.get_setReg, if_pos rfl, mask_mask]

theorem mask_sub_one (arch : Arch) (v : UInt64) :
    (wordWidth arch).mask ((wordWidth arch).mask v - (wordWidth arch).mask 1) = 0 ↔
      (wordWidth arch).mask v = 1 := by
  have hone : (wordWidth arch).mask 1 = 1 := by cases arch <;> rfl
  have hlt : ((wordWidth arch).mask v).toNat < 2 ^ arch.bits := by
    rw [toNat_mask]
    exact Nat.mod_lt _ (Nat.two_pow_pos _)
  rw [hone, ← UInt64.toNat_inj, ← UInt64.toNat_inj, toNat_mask, UInt64.toNat_sub]
  generalize ((wordWidth arch).mask v).toNat = n at hlt
  change (2 ^ 64 - 1 + n) % 2 ^ 64 % 2 ^ arch.bits = 0 ↔ n = 1
  rcases arch.bits_eq with hb | hb <;> rw [hb] at hlt ⊢ <;> omega

/-! ## One instruction in two runs -/

/-- Two runs do the same after an instruction. -/
structure Keeps (x y : Option Sink) (arch : Arch) (position : Nat) (next : Stage)
    (targets : List Nat) (a b : State × Next) : Prop where
  ends : a.2 = b.2
  alike : Alike x y a.1 b.1
  goes : ∀ q, a.2 = .goto q → q = position + 1 ∧ next.Agrees arch a.1 b.1 ∨ q ∈ targets

variable {targets : List Nat} {s' t' : State}

theorem Keeps.of_fail (h : Alike x y s t) (e : RunError) :
    Keeps x y arch position next targets (s, .fail e) (t, .fail e) :=
  ⟨rfl, h, fun _ hq => by cases hq⟩

theorem Keeps.of_goto (h : Alike x y s t) (ha : next.Agrees arch s t) :
    Keeps x y arch position next targets (s, .goto (position + 1)) (t, .goto (position + 1)) :=
  ⟨rfl, h, fun _ hq => .inl ⟨by cases hq; rfl, ha⟩⟩

theorem keeps_push {width : Option Width} (h : Alike x y s t)
    (hop : stage.after arch (.push width source) = some next) :
    Keeps x y arch position next targets
      (stepPush s arch i (width.getD (wordWidth arch)) source position)
      (stepPush t arch i (width.getD (wordWidth arch)) source position) := by
  have hop' : (if source.avoids then some Stage.idle else none) = some next := hop
  split_ifs at hop' with ho
  cases hop'
  set w := width.getD (wordWidth arch)
  have hsp : s.registers.sp = t.registers.sp := h.registers .sp (by decide)
  have htarget : s.pushTarget arch w = t.pushTarget arch w := by
    rw [State.pushTarget, State.pushTarget, hsp]
  -- The stack pointer becomes the same in both, whatever else they differ in.
  have hpushed : Alike x y (s.pushed (t.pushTarget arch w)) (t.pushed (t.pushTarget arch w)) := by
    refine ⟨fun r hr => ?_, h.memory, ?_, congrArg (· + 1) h.pushes, h.errors, h.input, h.output⟩
    · have hr' := h.registers r hr
      cases r with
      | sp => rfl
      | _ => exact hr'
    · change (if _ < s.low then _ else s.low) = (if _ < t.low then _ else t.low)
      rw [h.low]
  rw [stepPush_eq, stepPush_eq, h.read ho, htarget, hpushed.check, h.memory]
  rcases t.read arch i w source with e | v
  · exact .of_fail h e
  · dsimp only
    split
    · exact .of_fail hpushed _
    · exact .of_goto (hpushed.setMemory _) trivial

theorem Stage.Agrees.write_calling {n : UInt64} (ha : (calling n).Agrees arch s t) (ho : o.avoids)
    (w : Width) (v : UInt64) :
    (calling n).Agrees arch (s.write arch w o v) (t.write arch w o v) :=
  ⟨(address_write ho v).trans ha.1, (address_write ho v).trans ha.2⟩

theorem keeps_mov {width : Option Width} (h : Alike x y s t) (ha : stage.Agrees arch s t)
    (hop : stage.after arch (.mov width source target) = some next) :
    Keeps x y arch position next targets
      (stepMov s arch i (operandWidth arch width source target) source target position)
      (stepMov t arch i (operandWidth arch width source target) source target position) := by
  have hop' : stage.afterMov arch width source target = some next := hop
  unfold Stage.afterMov at hop'
  unfold stepMov
  split at hop'
  · next ho =>
    rw [Bool.and_eq_true] at ho
    rw [h.read ho.1, h.checkWrite ho.2]
    rcases hr : t.read arch i _ source with e | v
    · exact .of_fail h e
    dsimp only
    split
    · exact .of_fail h _
    refine .of_goto (h.write ho.2 v) ?_
    -- The number of a call stays in the accumulator while the arguments are moved.
    split at hop'
    · split_ifs at hop' with hone
      · cases hop'
        obtain ⟨rfl, rfl, rfl⟩ := hone
        cases hr
        refine ⟨ha.write_calling ho.2 _ _, (address_setReg s arch _ _).trans ?_⟩
        cases arch <;> rfl
      · cases hop'
        exact ha.write_calling ho.2 _ _
    · cases hop'
      trivial
  · split at hop'
    · split_ifs at hop' with ht
      cases hop'
      subst ht
      refine .of_goto (h.setRegisters fun r hr => ?_) ?_
      · rw [s.registers.get_set_of_ne hr, t.registers.get_set_of_ne hr, h.registers r hr]
      · exact ⟨(address_setReg s arch .ax _).trans (mask_mask arch _),
          (address_setReg t arch .ax _).trans (mask_mask arch _)⟩
    · cases hop'

theorem keeps_arith {f : Arith} {width : Option Width} (h : Alike x y s t)
    (ha : stage.Agrees arch s t)
    (hop : stage.after arch (.arith f width source target) = some next) :
    Keeps x y arch position next targets
      (stepArith s arch i f (operandWidth arch width source target) source target position)
      (stepArith t arch i f (operandWidth arch width source target) source target position) := by
  have hop' : stage.afterArith arch f width source target = some next := hop
  unfold Stage.afterArith at hop'
  unfold stepArith
  split_ifs at hop' with ho hone
  · cases hop'
    rw [Bool.and_eq_true] at ho
    rw [h.read ho.1, h.read ho.2]
    rcases t.read arch i _ source with e | v
    · exact .of_fail h e
    rcases t.read arch i _ target with e | u
    · exact .of_fail h e
    dsimp only
    generalize f.apply _ u v = result
    have hf := h.flags (decide (result.1 = 0)) result.2 (decide (result.1 = 0)) result.2
    split_ifs
    · exact .of_goto hf ⟨rfl, rfl⟩
    · rw [hf.checkWrite ho.2]
      split
      · exact .of_fail hf _
      · refine .of_goto (hf.write ho.2 _) ⟨?_, ?_⟩
        · rw [(flags_write _).1, (flags_write _).1]
        · rw [(flags_write _).2, (flags_write _).2]
  · cases hop'
    obtain ⟨rfl, rfl, rfl, rfl, rfl⟩ := hone
    refine .of_goto (h.flags _ _ _ _) ?_
    change decide _ = decide _
    rw [decide_eq_decide]
    exact (mask_sub_one arch _).trans (ha.trans (mask_sub_one arch _).symm)

theorem keeps_jump {condition : Condition} (h : Alike x y s t) (ha : stage.Agrees arch s t)
    (hop : stage.after arch (.jump condition target) = some next) :
    Keeps x y arch position next (Op.targets (.jump condition target))
      (s, .goto (if condition.holds s.zero s.carry then target.target else position + 1))
      (t, .goto (if condition.holds t.zero t.carry then target.target else position + 1)) := by
  have hop' : stage.afterJump condition = some next := hop
  unfold Stage.afterJump at hop'
  split_ifs at hop' with hc
  cases hop'
  have hholds : condition.holds s.zero s.carry = condition.holds t.zero t.carry := by
    rcases hc with rfl | rfl | ⟨rfl, rfl⟩
    · rfl
    · rw [ha.1, ha.2]
    · exact ha
  rw [hholds]
  refine ⟨rfl, h, fun q hq => ?_⟩
  cases hq
  split_ifs
  · exact .inr (List.mem_singleton_self _)
  · exact .inl ⟨rfl, trivial⟩

/-! ## System calls in two runs -/

/-- Two calls fail alike, or both give a result. -/
inductive Answers (Q : Int64 → Int64 → Prop) : Except RunError Int64 → Except RunError Int64 → Prop
  | error (e : RunError) : Answers Q (.error e) (.error e)
  | ok {m n : Int64} : Q m n → Answers Q (.ok m) (.ok n)

theorem keeps_afterCall {Q : Int64 → Int64 → Prop} {call call' : Except RunError Int64 × State}
    (hanswers : Answers Q call.1 call'.1) (h : Alike x y call.2 call'.2)
    (hnext : ∀ m n, Q m n →
      next.Agrees arch (call.2.setReg arch .ax m.toUInt64) (call'.2.setReg arch .ax n.toUInt64)) :
    Keeps x y arch position next targets (afterCall arch position call)
      (afterCall arch position call') := by
  obtain ⟨call, s⟩ := call
  obtain ⟨call', t⟩ := call'
  cases hanswers with
  | error e => exact .of_fail h e
  | @ok m n hq =>
    refine .of_goto (h.setRegisters fun r hr => ?_) (hnext m n hq)
    rw [s.registers.get_set_of_ne hr, t.registers.get_set_of_ne hr, h.registers r hr]

/-- Results that a comparison with one cannot tell apart. -/
def Indistinct (m n : Int64) : Prop :=
  m = n ∨ (m = 0 ∨ m = ioFailure) ∧ (n = 0 ∨ n = ioFailure)

theorem agrees_answered {m n : Int64} (h : Indistinct m n) :
    Stage.answered.Agrees arch (s.setReg arch .ax m.toUInt64) (t.setReg arch .ax n.toUInt64) := by
  change _ = 1 ↔ _ = 1
  rw [address_setReg, address_setReg]
  rcases h with rfl | ⟨rfl | rfl, rfl | rfl⟩
  · rfl
  all_goals cases arch <;> decide

theorem alike_readInput (h : Alike x y s t) (a : UInt64) :
    Indistinct (readInput s a 1).1 (readInput t a 1).1 ∧
      Alike x y (readInput s a 1).2 (readInput t a 1).2 := by
  rcases hin : s.remaining with _ | ⟨b, rest⟩
  · obtain ⟨m, input, hs, hm, hrest⟩ := readInput_end hin a
    obtain ⟨n, input', ht, hn, hrest'⟩ := readInput_end (h.input.symm.trans hin) a
    rw [hs, ht]
    exact ⟨.inr ⟨hm, hn⟩, h.registers, h.memory, h.low, h.pushes, h.errors,
      hrest.trans hrest'.symm, h.output⟩
  · obtain ⟨input, hs, hrest⟩ := readInput_byte hin a
    obtain ⟨input', ht, hrest'⟩ := readInput_byte (h.input.symm.trans hin) a
    rw [hs, ht, h.memory]
    exact ⟨.inl rfl, h.setInput _ ((hrest s.memory).trans (hrest' s.memory).symm)⟩

theorem alike_callRead (h : Alike x y s t) (file a : UInt64) :
    Answers Indistinct (callRead s i file a 1).1 (callRead t i file a 1).1 ∧
      Alike x y (callRead s i file a 1).2 (callRead t i file a 1).2 := by
  unfold callRead
  split_ifs
  · exact ⟨.ok (.inl rfl), h⟩
  · rw [h.check]
    split
    · exact ⟨.error _, h⟩
    · obtain ⟨hresult, hstate⟩ := alike_readInput h a
      exact ⟨.ok hresult, hstate⟩

theorem alike_callWrite (h : Alike x y s t) (file a : UInt64) :
    Answers (fun _ _ => True) (callWrite s i file a 1).1 (callWrite t i file a 1).1 ∧
      Alike x y (callWrite s i file a 1).2 (callWrite t i file a 1).2 := by
  unfold callWrite
  have hone : (1 : Int64).toInt.toNat = 1 := rfl
  rw [h.check, hone, Memory.slice_one, Memory.slice_one, h.memory]
  split_ifs
  · exact ⟨.ok trivial, h⟩
  · split
    · exact ⟨.error _, h⟩
    · exact ⟨.ok trivial, h.registers, h.memory, h.low, h.pushes, h.errors, h.input,
        h.output.offer _⟩
  · split
    · exact ⟨.error _, h⟩
    · refine ⟨.ok trivial, h.registers, h.memory, h.low, h.pushes, ?_, h.input, h.output⟩
      change (offer s.errors _ 1).2 = (offer t.errors _ 1).2
      rw [h.errors]

theorem arguments_ne_ax (arch : Arch) : (callTable arch).arguments.1 ≠ .ax ∧
    (callTable arch).arguments.2.1 ≠ .ax ∧ (callTable arch).arguments.2.2 ≠ .ax := by
  cases arch <;> decide

theorem keeps_systemCall (h : Alike x y s t) (ha : stage.Agrees arch s t)
    (hop : stage.afterTrap arch = some next) :
    Keeps x y arch position next targets (systemCall s arch i position)
      (systemCall t arch i position) := by
  obtain ⟨h₀, h₁, h₂⟩ := arguments_ne_ax arch
  have hfile := h.address arch h₀
  have haddress := h.address arch h₁
  have hsize := h.address arch h₂
  cases stage with
  | calling n =>
    rw [Stage.afterTrap] at hop
    split_ifs at hop with hn
    cases hop
    rw [systemCall_exit i (ha.1.trans hn), systemCall_exit i (ha.2.trans hn)]
    refine ⟨?_, h, fun q hq => by cases hq⟩
    change Next.exit (s.address arch _ &&& 0xff).toNat = .exit (t.address arch _ &&& 0xff).toNat
    rw [hfile]
  | ready n =>
    obtain ⟨⟨hs, ht⟩, hone⟩ := ha
    rw [Stage.afterTrap] at hop
    split_ifs at hop with hr hw
    · cases hop
      rw [systemCall_read i (hs.trans hr), systemCall_read i (ht.trans hr)]
      change Keeps x y arch position _ targets
        (afterCall arch position (callRead s i (s.address arch _) (s.address arch _)
          (s.address arch _).toInt64))
        (afterCall arch position (callRead t i (t.address arch _) (t.address arch _)
          (t.address arch _).toInt64))
      rw [hfile, haddress, ← hsize, hone]
      obtain ⟨hanswers, hstate⟩ := alike_callRead (i := i) h
        (t.address arch (callTable arch).arguments.1)
        (t.address arch (callTable arch).arguments.2.1)
      exact keeps_afterCall hanswers hstate fun m n hmn => agrees_answered hmn
    · cases hop
      rw [systemCall_write i (hs.trans hw), systemCall_write i (ht.trans hw)]
      change Keeps x y arch position _ targets
        (afterCall arch position (callWrite s i (s.address arch _) (s.address arch _)
          (s.address arch _).toInt64))
        (afterCall arch position (callWrite t i (t.address arch _) (t.address arch _)
          (t.address arch _).toInt64))
      rw [hfile, haddress, ← hsize, hone]
      obtain ⟨hanswers, hstate⟩ := alike_callWrite (i := i) h
        (t.address arch (callTable arch).arguments.1)
        (t.address arch (callTable arch).arguments.2.1)
      exact keeps_afterCall hanswers hstate fun _ _ _ => trivial
  | idle | answered | zeroed | flagged | halted => cases hop

/-- **One instruction in two runs.** Where an operation keeps to the rules, two states that are
alike go the same way and stay alike. -/
theorem keeps_step (h : Alike x y s t) (ha : stage.Agrees arch s t)
    (hop : stage.after arch i.op = some next) (position : Nat) :
    Keeps x y arch position next i.op.targets (step arch s i position)
      (step arch t i position) := by
  unfold step
  cases hi : i.op with
  | push => exact keeps_push h (hi ▸ hop)
  | mov => exact keeps_mov h ha (hi ▸ hop)
  | arith => exact keeps_arith h ha (hi ▸ hop)
  | jump => exact keeps_jump h ha (hi ▸ hop)
  | syscall =>
    rw [hi] at hop
    cases arch with
    | amd64 => exact keeps_systemCall h ha hop
    | x86 => exact .of_fail h _
  | interrupt =>
    rw [hi] at hop
    dsimp only
    split_ifs
    · exact keeps_systemCall h ha hop
    · exact .of_fail h _

/-! ## Two runs -/

/-- Code that keeps to the rules, up to a position where two runs need agree on nothing more. -/
def Checks (arch : Arch) (calm : Nat → Prop) : Stage → Nat → List (Op Nat) → Prop
  | stage, position, [] => stage = .halted ∨ calm position
  | stage, position, op :: ops => (∀ q ∈ op.targets, calm q) ∧
    ∃ next, stage.after arch op = some next ∧ Checks arch calm next (position + 1) ops

/-- The code at a position keeps to the rules. -/
def Checked (p : Program) (calm : Nat → Prop) (stage : Stage) (position : Nat) : Prop :=
  ∃ op ops, p.Has position (op :: ops) ∧ Checks p.arch calm stage position (op :: ops)

/-- **Two runs of code that keeps to the rules** end alike. -/
theorem Checked.runFrom {p : Program} {calm : Nat → Prop}
    (hcalm : ∀ q, calm q → Checked p calm .idle q) (cancelled : Nat → Bool)
    {budget steps : Nat} (hc : Checked p calm stage position) (h : Alike x y s t)
    (ha : stage.Agrees p.arch s t) :
    (runFrom p cancelled budget steps position s).1 =
        (runFrom p cancelled budget steps position t).1 ∧
      Alike x y (runFrom p cancelled budget steps position s).2
        (runFrom p cancelled budget steps position t).2 := by
  -- The stage says what the two runs agree on at their common position.
  induction budget generalizing steps position stage s t with
  | zero => exact ⟨rfl, h⟩
  | succ budget ih =>
    obtain ⟨op, ops, hhas, htargets, next, hop, hrest⟩ := hc
    obtain ⟨⟨i, hi, rfl⟩, hhas'⟩ := Program.has_cons.mp hhas
    obtain ⟨hlt, rfl⟩ := Array.getElem?_eq_some_iff.mp hi
    obtain ⟨hends, halike, hgoes⟩ := keeps_step h ha hop position
    rw [Machine.runFrom, Machine.runFrom, dif_pos hlt, dif_pos hlt]
    split_ifs
    · exact ⟨rfl, h⟩
    rcases hs : step p.arch s p.code[position] position with ⟨s', n⟩
    rcases ht : step p.arch t p.code[position] position with ⟨t', n'⟩
    rw [hs, ht] at hends halike hgoes
    obtain rfl : n = n' := hends
    cases n with
    | exit code => exact ⟨rfl, halike⟩
    | fail e => exact ⟨rfl, halike⟩
    | goto q =>
      rcases hgoes q rfl with ⟨rfl, hagrees⟩ | hq
      · rcases ops with _ | ⟨op, ops⟩
        · -- The code that was checked is at its end, and the next part starts from a calm position.
          rcases hrest with rfl | hq
          · exact absurd hagrees id
          · exact ih (hcalm _ hq) halike trivial
        · exact ih ⟨op, ops, hhas', hrest⟩ halike hagrees
      · exact ih (hcalm q (htargets q hq)) halike trivial

end TapeLang.Machine
