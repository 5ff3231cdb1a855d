import TapeLang.Proofs.Machine.Confinement
import TapeLang.Proofs.Machine.Execution
import TapeLang.Proofs.Machine.Jumps

/-!
# No program breaks the machine

Whatever a listing makes of the registers, the machine is never asked for something it cannot do:
each instruction has the operands that its mnemonic takes, each jump goes to an instruction or to
the end of the program, and no call is given more bytes than the stack has. So there are few ways
for a run to end, and each has its cause in the program.

* **`exists_operands_of_load`**: the operands of an instruction.
* `Outcome`, **`outcome_step`**: where an instruction leads.
* **`Reaches.position_le`**: the positions of a machine.
* `Ends`, **`ends_runFrom`**: how a run can end.
* **`run_never_crashes`**: all of this for every listing that can be loaded.
-/

namespace TapeLang.Machine

variable {text : Bytes} {bits : Int64} {p : Program} {s : State} {i : Instr Nat} {position : Nat}
  {stored : Set UInt64}

/-! ## Operands -/

theorem mnemonic_of_resolve {place : Bytes → Option Nat} {op : Op Bytes} {op' : Op Nat}
    (h : op.resolve place = .ok op') :
    op'.mnemonic = op.mnemonic ∧ op'.operands.length = op.operands.length := by
  cases op with
  | push | jump | interrupt =>
    obtain ⟨_, _, h⟩ := bind_eq_ok.mp h
    cases h
    exact ⟨rfl, rfl⟩
  | mov | arith =>
    obtain ⟨_, _, h⟩ := bind_eq_ok.mp h
    obtain ⟨_, _, h⟩ := bind_eq_ok.mp h
    cases h
    exact ⟨rfl, rfl⟩
  | syscall =>
    cases h
    exact ⟨rfl, rfl⟩

/-- A loaded instruction is spelled on its line, with all operands that it has. -/
theorem exists_operands_of_load (loaded : load text bits = .ok p) (hi : i ∈ p.code) :
    ∃ args, firstWord i.text = i.op.mnemonic ∧ operands p.arch (afterWord i.text) = .ok args ∧
      args.length = i.op.operands.length := by
  obtain ⟨place, -, -, hcode⟩ := exists_follows_of_load loaded
  obtain ⟨op, hread, hresolve⟩ := hcode i hi
  obtain ⟨hword, hargs⟩ := operation_spells hread
  obtain ⟨hmnemonic, hlength⟩ := mnemonic_of_resolve hresolve
  exact ⟨op.operands, hword.trans hmnemonic.symm, hargs, hlength.symm⟩

theorem entry_le_of_load (loaded : load text bits = .ok p) : p.entry ≤ p.code.size := by
  obtain ⟨place, hf, hentry, -⟩ := exists_follows_of_load loaded
  obtain ⟨k, -, hle, -⟩ := hf.placed _ _ hentry
  simpa [origins] using hle

/-! ## Instructions -/

/-- Where an instruction of a program can lead. -/
inductive Outcome (p : Program) (i : Instr Nat) : State × Next → Prop
  | goto {s : State} {t : Nat} : t ≤ p.code.size → Outcome p i (s, .goto t)
  | exit {s : State} {code : Nat} : code < 256 → Outcome p i (s, .exit code)
  | fail {s : State} {e : RunError} : Failure p.arch s i e → Outcome p i (s, .fail e)

theorem Answer.outcome {a : UInt64} {count : Int64} {answer : Except RunError Int64 × State}
    (h : Answer s i a count answer) (hlt : position < p.code.size) :
    Outcome p i (afterCall p.arch position answer) := by
  cases h with
  | fault hm => exact .fail (.fault hm)
  | refused | read | output | errors => exact .goto hlt

theorem Execution.outcome {r : State × Next} (h : Execution p.arch s i position r)
    (hlt : position < p.code.size)
    (hjump : ∀ c target, i.op = .jump c target → target.target ≤ p.code.size) :
    Outcome p i r := by
  cases h with
  | push | write | compare => exact .goto hlt
  | fail hfail | overflow _ _ hfail => exact .fail hfail
  | discard ho hconstant => exact .fail (.unwritable ho hconstant)
  | exit hcode => exact .exit hcode
  | call hanswer => exact hanswer.outcome hlt
  | @jump c target hop =>
    refine .goto ?_
    split_ifs
    · exact hjump c target hop
    · exact hlt

/-- **Where an instruction of a loaded program leads**, in any state. -/
theorem outcome_step (loaded : load text bits = .ok p) (hi : p.code[position]? = some i)
    (s : State) : Outcome p i (step p.arch s i position) := by
  refine (execution_step p.arch s i position).outcome (Array.getElem?_eq_some_iff.mp hi).1 ?_
  intro c target hop
  obtain ⟨written, -, -, hleads⟩ := exists_leads loaded (Array.mem_of_getElem? hi) hop
  exact hleads.le

/-! ## Runs -/

theorem Outcome.position_le {r : State × Next} (h : Outcome p i r) {start : Nat}
    (hstart : start ≤ p.code.size) : r.2.position start ≤ p.code.size := by
  cases h with
  | goto hle => exact hle
  | exit | fail => exact hstart

/-- **A machine is at an instruction or at the end of its program.** -/
theorem Reaches.position_le (loaded : load text bits = .ok p) (h : Reaches p position s stored) :
    position ≤ p.code.size := by
  have hentry := entry_le_of_load loaded
  induction h with
  | fresh | again => exact hentry
  | streams _ _ _ _ ih => exact ih
  | step _ hi => exact (outcome_step loaded hi _).position_le hentry

/-- How a run can end. -/
inductive Ends (p : Program) (cancelled : Nat → Bool) (budget : Nat) : Result × State → Prop
  | exit {code steps : Nat} {s : State} : code < 256 →
    Ends p cancelled budget (⟨.ok code, steps⟩, s)
  | stepLimit {s : State} : Ends p cancelled budget (⟨.error .stepLimit, budget⟩, s)
  | cancelled {steps : Nat} {s : State} : cancelled steps = true →
    Ends p cancelled budget (⟨.error .cancelled, steps⟩, s)
  | pastEnd {steps : Nat} {s : State} : Ends p cancelled budget (⟨.error .pastEnd, steps⟩, s)
  | failed {i : Instr Nat} {e : RunError} {steps : Nat} {s : State} : i ∈ p.code →
    Failure p.arch s i e → Ends p cancelled budget (⟨.error e, steps⟩, s)

/-- **How a run of a loaded program can end**, wherever it begins. -/
theorem ends_runFrom (loaded : load text bits = .ok p) (cancelled : Nat → Bool)
    (budget steps position : Nat) (s : State) :
    Ends p cancelled (steps + budget) (runFrom p cancelled budget steps position s) := by
  induction budget generalizing steps position s with
  | zero => exact .stepLimit
  | succ budget ih =>
    rw [runFrom]
    split_ifs with hc hlt
    · exact .cancelled (Bool.and_eq_true_iff.mp hc).2
    · have houtcome := outcome_step loaded (Array.getElem?_eq_getElem hlt) s
      rcases hs : step p.arch s p.code[position] position with ⟨s', t | code | e⟩
      · have hends := ih (steps + 1) t s'
        rwa [Nat.add_right_comm, Nat.add_assoc] at hends
      · rw [hs] at houtcome
        cases houtcome with
        | exit hcode => exact .exit hcode
      · rw [hs] at houtcome
        cases houtcome with
        | fail hfail => exact .failed (Array.getElem_mem hlt) hfail
    · exact .pastEnd

/-- **No program that can be loaded breaks the machine**: operands, jumps and buffers are what they
must be, and every run ends in one of the known ways. -/
theorem run_never_crashes (loaded : load text bits = .ok p) :
    (∀ position s stored, Reaches p position s stored → position ≤ p.code.size) ∧
      (∀ position i, p.code[position]? = some i →
        (∃ args, firstWord i.text = i.op.mnemonic ∧ operands p.arch (afterWord i.text) = .ok args ∧
          args.length = i.op.operands.length) ∧
        ∀ s, (∀ file a count, Answer s i a count (callRead s i file a count) ∧
            Answer s i a count (callWrite s i file a count)) ∧
          Outcome p i (step p.arch s i position)) ∧
      ∀ s cancelled limit, Ends p cancelled (stepBudget limit) (run p cancelled limit s) := by
  refine ⟨fun position s stored reached => reached.position_le loaded, fun position i hi => ?_,
    fun s cancelled limit => ?_⟩
  · refine ⟨exists_operands_of_load loaded (Array.mem_of_getElem? hi), fun s => ⟨?_, ?_⟩⟩
    · intro file a count
      exact ⟨answer_callRead s i file a count, answer_callWrite s i file a count⟩
    · exact outcome_step loaded hi s
  · have hends := ends_runFrom loaded cancelled (stepBudget limit) 0 p.entry s
    rwa [Nat.zero_add] at hends

/-- A listing that sets the count of a call to the largest number: a call that writes that many
bytes faults, and every run ends. -/
theorem run_never_crashes_huge :
    ∃ p s i stored, load (utf8 "_start:\n  mov $-1, %rdx\n  syscall\n") 64 = .ok p ∧
      Reaches p 1 s stored ∧ p.code[1]? = some i ∧ s.registers.dx = -1 ∧
      Answer s i stackTop (-1) (callWrite s i 1 stackTop (-1)) ∧
      callWrite s i 1 stackTop (-1) = (.error (.fault ⟨i.line, i.text, stackTop, -1⟩), s) ∧
      Outcome p i (step p.arch s i 1) ∧
      ∀ cancelled limit, Ends p cancelled (stepBudget limit) (run p cancelled limit s) := by
  have hcount : Assembly.IsOperand .amd64 (utf8 "$-1") (.immediate (-1)) := ⟨by decide, rfl⟩
  have hregister : Assembly.IsOperand .amd64 (utf8 "%rdx") (.register .dx .quad) :=
    ⟨by decide, rfl⟩
  have hwritten : Assembly.Written .amd64
      [.label (utf8 "_start"),
        .instr (utf8 "mov" ++ utf8 " " ++ utf8 "$-1" ++ utf8 ", " ++ utf8 "%rdx"),
        .instr (utf8 "syscall")]
      [.mark (utf8 "_start"), .op (.mov none (.immediate (-1)) (.register .dx .quad)),
        .op .syscall] :=
    .mark ⟨by decide, by decide⟩ (.op (Assembly.instruction_mov Assembly.mnemonic_mov (by decide)
      hcount hregister) (.op Assembly.instruction_trap .nil))
  have hresolved : ∀ place : Bytes → Option Nat, Assembly.Placed place 0
      [.mark (utf8 "_start"), .op (.mov none (.immediate (-1)) (.register .dx .quad)),
        .op .syscall] →
      place (utf8 "_start") = some 0 ∧ List.mapM (Op.resolve place)
        [.mov none (.immediate (-1)) (.register .dx .quad), .syscall] =
          .ok [.mov none (.immediate (-1)) (.register .dx .quad), .syscall] :=
    fun place hplace => ⟨hplace.1, rfl⟩
  obtain ⟨p, hp, ha, he, hcode⟩ := Assembly.loadFor_of_written hwritten (by decide) hresolved
  have hload : load (utf8 "_start:\n  mov $-1, %rdx\n  syscall\n") 64 = .ok p := hp
  have hhas : p.Has 0 [.mov none (.immediate (-1)) (.register .dx .quad), .syscall] := by
    rw [Program.Has, List.drop_zero, hcode]
  obtain ⟨⟨i, hi, hop⟩, hrest⟩ := Program.has_cons.mp hhas
  obtain ⟨⟨j, hj, -⟩, -⟩ := Program.has_cons.mp hrest
  have hstep : step .amd64 {} i 0 = _ := step_mov hop rfl rfl rfl
  have reached := (Reaches.fresh (p := p)).step (he ▸ hi)
  rw [he, ha, hstep] at reached
  obtain ⟨-, hcode, hrun⟩ := run_never_crashes hload
  obtain ⟨hcalls, houtcome⟩ := (hcode 1 j hj).2 _
  exact ⟨p, _, j, _, hload, reached, hj, by decide, (hcalls 1 stackTop (-1)).2, rfl, houtcome,
    hrun _⟩

end TapeLang.Machine
