import TapeLang.Proofs.Machine.Change

/-!
# What comes of an instruction

All that an instruction can do, with what makes it do that. An instruction that fails has changed
nothing, two cases apart: a push has moved the stack before it faults, and an operation on a
constant has set the flags before it finds that the constant cannot be written to.

* `Failure`: how an instruction can fail.
* `Answer`, **`answer_callRead`**, **`answer_callWrite`**: how a call can be answered.
* `Execution`, **`execution_step`**: what can come of an instruction.
-/

namespace TapeLang.Machine

variable {arch : Arch} {s : State} {i : Instr Nat} {position : Nat} {w : Width}
  {source target : Operand Nat} {e : RunError}

/-! ## Failures -/

/-- An operand that nothing can be written to. -/
def Operand.Constant : Operand Nat → Prop
  | .immediate _ | .label _ => True
  | .register _ _ | .memory _ => False

/-- How an instruction can fail, by the state that it leaves. -/
inductive Failure (arch : Arch) (s : State) (i : Instr Nat) : RunError → Prop
  | fault {a : UInt64} {size : Int64} : s.mapped a size.toUInt64 = false →
    Failure arch s i (.fault ⟨i.line, i.text, a, size⟩)
  | unreadable {t : Nat} : .label t ∈ i.op.operands →
    Failure arch s i (.unreadable i.line i.text)
  | unwritable {o : Operand Nat} : i.op.operands[1]? = some o → o.Constant →
    Failure arch s i (.unwritable i.line i.text)
  | wrongMode : i.op = .syscall → arch = .x86 → Failure arch s i (.wrongMode i.line)
  | unsupportedInterrupt {vector : Operand Nat} : i.op = .interrupt vector →
    ¬ (vector = .immediate 0x80 ∧ arch = .x86) →
    Failure arch s i (.unsupportedInterrupt i.line i.text)
  | unsupportedCall : s.address arch .ax ≠ (callTable arch).exit →
    s.address arch .ax ≠ (callTable arch).read → s.address arch .ax ≠ (callTable arch).write →
    Failure arch s i (.unsupportedCall i.line (s.address arch .ax).toInt64)

theorem State.fault_of_check {a : UInt64} {size : Int64} (h : s.check i a size = .error e) :
    s.mapped a size.toUInt64 = false ∧ e = .fault ⟨i.line, i.text, a, size⟩ := by
  unfold State.check at h
  split_ifs at h with hm
  cases h
  exact ⟨Bool.eq_false_iff.mpr hm, rfl⟩

theorem failure_of_check {a : UInt64} {size : Int64} (h : s.check i a size = .error e) :
    Failure arch s i e := by
  obtain ⟨hm, rfl⟩ := State.fault_of_check h
  exact .fault hm

theorem failure_of_read (h : s.read arch i w source = .error e) (ho : source ∈ i.op.operands) :
    Failure arch s i e := by
  cases source with
  | immediate | register => cases h
  | memory base =>
    rw [State.read_eq] at h
    rcases hc : s.check i (s.address arch base) (Int64.ofNat w.bytes) with e' | u
    · rw [hc] at h
      cases h
      exact failure_of_check hc
    · rw [hc] at h
      cases h
  | label t =>
    cases h
    exact .unreadable ho

theorem failure_of_checkWrite (h : s.checkWrite arch i w target = .error e)
    (ho : i.op.operands[1]? = some target) : Failure arch s i e := by
  cases target with
  | register => cases h
  | memory base => exact failure_of_check h
  | immediate | label =>
    cases h
    exact .unwritable ho trivial

theorem constant_of_checkWrite {u : UInt64} (hr : s.read arch i w target = .ok u)
    (hc : s.checkWrite arch i w target = .error e) :
    target.Constant ∧ e = .unwritable i.line i.text := by
  cases target with
  | register => cases hc
  | memory base =>
    change s.check i (s.address arch base) (Int64.ofNat w.bytes) = .error e at hc
    rw [State.read_eq, hc] at hr
    cases hr
  | immediate | label =>
    cases hc
    exact ⟨trivial, rfl⟩

/-! ## Calls -/

/-- How a call for `count` bytes from an address on can be answered. If it is served, there are
that many bytes in the stack. -/
inductive Answer (s : State) (i : Instr Nat) (a : UInt64) (count : Int64) :
    Except RunError Int64 × State → Prop
  | refused : Answer s i a count (.ok badFile, s)
  | fault : s.mapped a count.toUInt64 = false →
    Answer s i a count (.error (.fault ⟨i.line, i.text, a, count⟩), s)
  | read {n : Nat} {result : Int64} {data : Bytes} {input : Option Input} :
    count.toInt = n → n ≤ (stackTop - s.low).toNat → data.length ≤ n →
    Answer s i a count (.ok result, { s with memory := s.memory.write a data, input })
  | output {data : Bytes} : count.toInt = data.length →
    data.length ≤ (stackTop - s.low).toNat →
    Answer s i a count (.ok (writeOutput s data count).1, (writeOutput s data count).2)
  | errors {data : Bytes} : count.toInt = data.length →
    data.length ≤ (stackTop - s.low).toNat →
    Answer s i a count (.ok (writeErrors s data count).1, (writeErrors s data count).2)

/-- **A size that passes the check is one that the stack has.** A negative one does not pass: the
access would end before it begins. -/
theorem exists_room_of_check {a : UInt64} {count : Int64} {u : Unit}
    (h : s.check i a count = .ok u) :
    ∃ n : Nat, count.toInt = n ∧ n ≤ (stackTop - s.low).toNat := by
  unfold State.check at h
  split_ifs at h with hm
  obtain ⟨ha, hend⟩ := State.mapped_iff.mp hm
  have htop := toNat_stackTop
  rw [UInt64.le_iff_toNat_le] at ha
  refine ⟨count.toUInt64.toNat, toInt_of_small (by omega), ?_⟩
  rw [UInt64.toNat_sub_of_le _ _ (UInt64.le_iff_toNat_le.mpr (by omega))]
  omega

theorem answer_of_check {a : UInt64} {count : Int64} (h : s.check i a count = .error e) :
    Answer s i a count (.error e, s) := by
  obtain ⟨hm, rfl⟩ := State.fault_of_check h
  exact .fault hm

theorem answer_callRead (s : State) (i : Instr Nat) (file a : UInt64) (count : Int64) :
    Answer s i a count (callRead s i file a count) := by
  obtain ⟨result, data, input, hlength, hr⟩ := exists_readInput s a count.toInt.toNat
  have hs : readInput s a count.toInt.toNat = _ := hr s.memory
  unfold callRead
  split_ifs
  · exact .refused
  rcases hc : s.check i a count with e | u
  · exact answer_of_check hc
  · obtain ⟨n, hn, hroom⟩ := exists_room_of_check hc
    rw [hn, Int.toNat_natCast] at hlength
    rw [hs]
    exact .read hn hroom hlength

theorem answer_callWrite (s : State) (i : Instr Nat) (file a : UInt64) (count : Int64) :
    Answer s i a count (callWrite s i file a count) := by
  unfold callWrite
  split_ifs with hf hone
  · exact .refused
  all_goals
    rcases hc : s.check i a count with e | u
    · exact answer_of_check hc
    obtain ⟨n, hn, hroom⟩ := exists_room_of_check hc
    have hlength : (s.memory.slice a count.toInt.toNat).length = n := by
      rw [hn, Int.toNat_natCast, Memory.slice, List.length_map, List.length_range]
  · exact .output (hlength ▸ hn) (hlength ▸ hroom)
  · exact .errors (hlength ▸ hn) (hlength ▸ hroom)

/-! ## Instructions -/

/-- What can come of an instruction. -/
inductive Execution (arch : Arch) (s : State) (i : Instr Nat) (position : Nat) :
    State × Next → Prop
  | fail {e : RunError} : Failure arch s i e → Execution arch s i position (s, .fail e)
  | push {width : Option Width} {source : Operand Nat} {sp : UInt64} {m : Memory} :
    i.op = .push width source → s.pushTarget arch (width.getD (wordWidth arch)) = sp →
    Execution arch s i position ({ s.pushed sp with memory := m }, .goto (position + 1))
  /-- A push that faults has moved the stack. -/
  | overflow {width : Option Width} {source : Operand Nat} {sp : UInt64} {e : RunError} :
    i.op = .push width source → s.pushTarget arch (width.getD (wordWidth arch)) = sp →
    Failure arch (s.pushed sp) i e → Execution arch s i position (s.pushed sp, .fail e)
  | write (zero carry : Bool) {w : Width} {target : Operand Nat} {v : UInt64} :
    i.op.operands[1]? = some target →
    Execution arch s i position
      (State.write { s with zero, carry } arch w target v, .goto (position + 1))
  | compare {zero carry : Bool} :
    Execution arch s i position ({ s with zero, carry }, .goto (position + 1))
  /-- An operation on a constant has set the flags. -/
  | discard {o : Operand Nat} {zero carry : Bool} : i.op.operands[1]? = some o → o.Constant →
    Execution arch s i position ({ s with zero, carry }, .fail (.unwritable i.line i.text))
  | jump {c : Condition} {target : Operand Nat} : i.op = .jump c target →
    Execution arch s i position
      (s, .goto (if c.holds s.zero s.carry then target.target else position + 1))
  | exit {code : Nat} : code < 256 → Execution arch s i position (s, .exit code)
  | call {a : UInt64} {count : Int64} {answer : Except RunError Int64 × State} :
    Answer s i a count answer → Execution arch s i position (afterCall arch position answer)

theorem execution_push {width : Option Width} (hop : i.op = .push width source) :
    Execution arch s i position
      (stepPush s arch i (width.getD (wordWidth arch)) source position) := by
  rw [stepPush_eq]
  split
  · next hr => exact .fail (failure_of_read hr (by simp [hop, Op.operands]))
  · split
    · next hc => exact .overflow hop rfl (failure_of_check hc)
    · exact .push hop rfl

theorem execution_mov (ho : i.op.operands = [source, target]) :
    Execution arch s i position (stepMov s arch i w source target position) := by
  unfold stepMov
  split
  · next hr => exact .fail (failure_of_read hr (by simp [ho]))
  · split
    · next hc => exact .fail (failure_of_checkWrite hc (by simp [ho]))
    · exact .write s.zero s.carry (by simp [ho])

theorem execution_arith {f : Arith} (ho : i.op.operands = [source, target]) :
    Execution arch s i position (stepArith s arch i f w source target position) := by
  unfold stepArith
  split
  · next hr => exact .fail (failure_of_read hr (by simp [ho]))
  · split
    · next hr => exact .fail (failure_of_read hr (by simp [ho]))
    · next hr =>
      dsimp only
      split_ifs
      · exact .compare
      · split
        · next hc =>
          obtain ⟨hconstant, rfl⟩ := constant_of_checkWrite hr hc
          exact .discard (by simp [ho]) hconstant
        · exact .write _ _ (by simp [ho])

theorem execution_systemCall :
    Execution arch s i position (systemCall s arch i position) := by
  by_cases hexit : s.address arch .ax = (callTable arch).exit
  · rw [systemCall_exit i hexit]
    exact .exit (Width.byte.fits_mask _)
  by_cases hread : s.address arch .ax = (callTable arch).read
  · rw [systemCall_read i hread]
    exact .call (answer_callRead s i _ _ _)
  by_cases hwrite : s.address arch .ax = (callTable arch).write
  · rw [systemCall_write i hwrite]
    exact .call (answer_callWrite s i _ _ _)
  · rw [systemCall_unknown hexit hread hwrite]
    exact .fail (.unsupportedCall hexit hread hwrite)

/-- **What can come of an instruction.** -/
theorem execution_step (arch : Arch) (s : State) (i : Instr Nat) (position : Nat) :
    Execution arch s i position (step arch s i position) := by
  unfold step
  cases hop : i.op with
  | push => exact execution_push hop
  | mov => exact execution_mov (by simp [hop, Op.operands])
  | arith => exact execution_arith (by simp [hop, Op.operands])
  | jump => exact .jump hop
  | syscall =>
    cases arch with
    | amd64 => exact execution_systemCall
    | x86 => exact .fail (.wrongMode hop rfl)
  | interrupt vector =>
    dsimp only
    split_ifs with hv
    · exact execution_systemCall
    · exact .fail (.unsupportedInterrupt hop hv)

end TapeLang.Machine
