import TapeLang.Proofs.Machine.Budget

/-!
# What a fault leaves behind

An instruction that faults has changed nothing, with one exception. A push moves the stack before it
looks whether what it stores ends at the top of the stack or below. If it does not, the push faults
with the stack pointer moved, the lowest mapped address lowered if need be, and the push counted.

* `overflow?`: the stack pointer of a push that faults when it stores.
* **`stepPush_of_read`**, **`step_overflow`**: when a push faults as it stores.
* **`step_fault`**: what a fault leaves.
* **`fault_keeps_state`**: the same after one instruction and after a run.
-/

namespace TapeLang.Machine

variable {arch : Arch} {s s' : State} {i : Instr Nat} {position : Nat} {f : Fault}
  {source : Operand Nat} {w : Width}

/-- What a push of a value that can be read would store lies beyond the top of the stack: the
pointer it would store at. -/
def overflow? (arch : Arch) (s : State) (i : Instr Nat) : Option UInt64 :=
  match i.op with
  | .push width source =>
    let w := width.getD (wordWidth arch)
    let sp := s.pushTarget arch w
    if (s.read arch i w source).isOk ∧ stackTop.toNat < sp.toNat + w.bytes then some sp else none
  | _ => none

/-- The state that a fault leaves. -/
def State.faulted (s : State) (arch : Arch) (i : Instr Nat) : State :=
  match overflow? arch s i with
  | none => s
  | some sp => s.pushed sp

/-! ## Pushes -/

theorem low_pushed_le (s : State) (sp : UInt64) : (s.pushed sp).low ≤ sp := by
  change (if sp < s.low then sp else s.low) ≤ sp
  split_ifs with h
  · exact UInt64.le_refl sp
  · exact UInt64.not_lt.mp h

/-- A push maps what it stores, as far as that is not beyond the top. -/
theorem mapped_pushed (s : State) (sp : UInt64) (w : Width) :
    (s.pushed sp).mapped sp (Int64.ofNat w.bytes).toUInt64 = true ↔
      sp.toNat + w.bytes ≤ stackTop.toNat := by
  have hsize : (Int64.ofNat w.bytes).toUInt64.toNat = w.bytes := by
    cases w <;> rfl
  rw [State.mapped_iff, hsize]
  exact and_iff_right (low_pushed_le s sp)

theorem check_pushed (s : State) (i : Instr Nat) (sp : UInt64) (w : Width) :
    (s.pushed sp).check i sp (Int64.ofNat w.bytes) =
      if stackTop.toNat < sp.toNat + w.bytes then
        .error (.fault ⟨i.line, i.text, sp, Int64.ofNat w.bytes⟩)
      else .ok () := by
  unfold State.check
  by_cases h : stackTop.toNat < sp.toNat + w.bytes
  · rw [if_pos h, if_neg]
    intro hm
    have := (mapped_pushed s sp w).mp hm
    omega
  · rw [if_neg h, if_pos]
    exact (mapped_pushed s sp w).mpr (by omega)

/-- **A push into the stack stores, and one beyond its top faults.** -/
theorem stepPush_of_read {v : UInt64} (hr : s.read arch i w source = .ok v) :
    stepPush s arch i w source position =
      if stackTop.toNat < (s.pushTarget arch w).toNat + w.bytes then
        (s.pushed (s.pushTarget arch w),
          .fail (.fault ⟨i.line, i.text, s.pushTarget arch w, Int64.ofNat w.bytes⟩))
      else
        ({ s.pushed (s.pushTarget arch w) with
          memory := s.memory.store (s.pushTarget arch w) w.bytes v }, .goto (position + 1)) := by
  rw [stepPush_eq, hr]
  dsimp only
  rw [check_pushed]
  split_ifs <;> rfl

/-! ## Instructions -/

theorem overflow?_of_ne_push (h : ∀ width source, i.op ≠ .push width source) :
    overflow? arch s i = none := by
  unfold overflow?
  split
  · next hop => exact absurd hop (h _ _)
  · rfl

theorem overflow?_of_error {width : Option Width} {e : RunError} (hop : i.op = .push width source)
    (hr : s.read arch i (width.getD (wordWidth arch)) source = .error e) :
    overflow? arch s i = none := by
  simp [overflow?, hop, hr, Except.isOk, Except.toBool]

theorem overflow?_of_ok {width : Option Width} {v : UInt64} (hop : i.op = .push width source)
    (hr : s.read arch i (width.getD (wordWidth arch)) source = .ok v) :
    overflow? arch s i =
      if stackTop.toNat <
          (s.pushTarget arch (width.getD (wordWidth arch))).toNat +
            (width.getD (wordWidth arch)).bytes then
        some (s.pushTarget arch (width.getD (wordWidth arch)))
      else none := by
  simp [overflow?, hop, hr, Except.isOk, Except.toBool]

theorem step_push_eq {width : Option Width} (hop : i.op = .push width source) :
    step arch s i position =
      stepPush s arch i (width.getD (wordWidth arch)) source position := by
  simp only [step, hop]

/-- **A push overflows exactly if it faults when it stores.** -/
theorem step_overflow {sp : UInt64} (h : overflow? arch s i = some sp) (position : Nat) :
    ∃ size, step arch s i position =
      (s.pushed sp, .fail (.fault ⟨i.line, i.text, sp, size⟩)) := by
  rcases hop : i.op with ⟨width, source⟩ | _ | _ | _ | _ | _
  · rcases hr : s.read arch i (width.getD (wordWidth arch)) source with e | v
    · rw [overflow?_of_error hop hr] at h
      cases h
    · rw [overflow?_of_ok hop hr] at h
      split_ifs at h with hlt
      cases h
      exact ⟨_, by rw [step_push_eq hop, stepPush_of_read hr, if_pos hlt]⟩
  all_goals
    rw [overflow?_of_ne_push (by simp [hop])] at h
    cases h

theorem Answer.fault_keeps {a : UInt64} {count : Int64} {answer : Except RunError Int64 × State}
    (h : Answer s i a count answer) {e : RunError}
    (hf : afterCall arch position answer = (s', .fail e)) : s' = s := by
  cases h with
  | fault => exact (congrArg Prod.fst hf).symm
  | refused | read | output | errors => cases hf

/-- Apart from a push, an instruction that faults leaves the state as it was. -/
theorem Execution.fault_keeps {r : State × Next} (h : Execution arch s i position r)
    (hop : ∀ width source, i.op ≠ .push width source) (hr : r = (s', .fail (.fault f))) :
    s' = s := by
  cases h with
  | fail => exact (congrArg Prod.fst hr).symm
  | push hpush | overflow hpush => exact absurd hpush (hop _ _)
  | call hanswer => exact hanswer.fault_keeps hr
  | write | compare | discard | jump | exit => cases hr

/-- **What a fault leaves.** -/
theorem step_fault (h : step arch s i position = (s', .fail (.fault f))) :
    s' = s.faulted arch i := by
  unfold State.faulted
  by_cases hpush : ∃ width source, i.op = .push width source
  · obtain ⟨width, source, hop⟩ := hpush
    rw [step_push_eq hop] at h
    rcases hr : s.read arch i (width.getD (wordWidth arch)) source with e | v
    · rw [stepPush_eq, hr] at h
      rw [overflow?_of_error hop hr]
      exact (congrArg Prod.fst h).symm
    · rw [stepPush_of_read hr] at h
      rw [overflow?_of_ok hop hr]
      split_ifs at h ⊢
      · exact (congrArg Prod.fst h).symm
      · cases h
  · push Not at hpush
    rw [overflow?_of_ne_push hpush]
    exact (execution_step arch s i position).fault_keeps hpush h

/-! ## Runs -/

/-- A run that faults has completed its steps and stands at an instruction that faults. -/
theorem exists_of_run_fault {p : Program} {cancelled : Nat → Bool} {limit : Int64} {steps : Nat}
    (h : run p cancelled limit s = (⟨.error (.fault f), steps⟩, s')) :
    ∃ b i, p.after steps ⟨p.entry, s⟩ = some b ∧ p.code[b.position]? = some i ∧
      step p.arch b.state i b.position = (s', .fail (.fault f)) := by
  unfold run at h
  rcases Program.runFrom_cancelled p cancelled (stepBudget limit) 0 p.entry s with
    hnever | ⟨n, -, s'', -, hcancelled, -⟩
  · rw [hnever] at h
    rcases Program.runFrom_cases p ⟨p.entry, s⟩ (stepBudget limit) with ⟨b, -, hr⟩ | ⟨n, -, hstop⟩
    · rw [h] at hr
      cases hr
    · rw [h] at hstop
      cases hstop with
      | fail hb hi hs => exact ⟨_, _, hb, hi, hs⟩
  · rw [h] at hcancelled
    cases hcancelled

/-- **A fault leaves the state as it was, unless a push overflows**: the push is counted and the
stack has grown, but nothing is stored. -/
theorem fault_keeps_state (p : Program) :
    (∀ s i position s' f, step p.arch s i position = (s', .fail (.fault f)) →
      match overflow? p.arch s i with
      | none => s' = s
      | some sp => s' = s.pushed sp ∧ f.address = sp) ∧
    (∀ s i sp, overflow? p.arch s i = some sp → ∀ position, ∃ size,
      step p.arch s i position = (s.pushed sp, .fail (.fault ⟨i.line, i.text, sp, size⟩))) ∧
    ∀ s cancelled limit steps f s',
      run p cancelled limit s = (⟨.error (.fault f), steps⟩, s') →
      ∃ b i, p.after steps ⟨p.entry, s⟩ = some b ∧ p.code[b.position]? = some i ∧
        runFrom p Program.never steps 0 p.entry s = (⟨.error .stepLimit, steps⟩, b.state) ∧
        match overflow? p.arch b.state i with
        | none => s' = b.state
        | some sp => s' = b.state.pushed sp ∧ f.address = sp := by
  have hstep : ∀ s i position s' f, step p.arch s i position = (s', .fail (.fault f)) →
      match overflow? p.arch s i with
      | none => s' = s
      | some sp => s' = s.pushed sp ∧ f.address = sp := by
    intro s i position s' f h
    have hleft := step_fault h
    unfold State.faulted at hleft
    rcases ho : overflow? p.arch s i with _ | sp
    · rw [ho] at hleft
      exact hleft
    · rw [ho] at hleft
      obtain ⟨size, hfault⟩ := step_overflow ho position
      rw [hfault] at h
      cases h
      exact ⟨rfl, rfl⟩
  refine ⟨hstep, fun s i sp h position => step_overflow h position, ?_⟩
  intro s cancelled limit steps f s' h
  obtain ⟨b, i, hb, hi, hs⟩ := exists_of_run_fault h
  have hrun := Program.runFrom_stop hb 0
  rw [Nat.zero_add] at hrun
  exact ⟨b, i, hb, hi, hrun, hstep _ _ _ _ _ hs⟩

/-- A program that puts the stack pointer one byte above the top and pushes two bytes. -/
def pushAcrossTop : Program where
  arch := .amd64
  code := #[⟨.mov none (.immediate 0xbff00001) (.register .sp .quad), 2,
      utf8 "mov $0xbff00001, %rsp"⟩,
    ⟨.push (some .word) (.immediate 0), 3, utf8 "pushw $0"⟩]
  entry := 0

/-- The push faults, and yet it is counted and the stack has grown by one byte. -/
theorem fault_keeps_state_across :
    let f : Fault := ⟨3, utf8 "pushw $0", stackTop - 1, 2⟩
    ∃ s' b, run pushAcrossTop Program.never 100 {} = (⟨.error (.fault f), 1⟩, s') ∧
      s'.pushes = 1 ∧ s'.stackBytes = 1 ∧
      runFrom pushAcrossTop Program.never 1 0 0 {} = (⟨.error .stepLimit, 1⟩, b) ∧
      b.pushes = 0 ∧ b.stackBytes = 0 ∧ s' = b.pushed (stackTop - 1) := by
  intro f
  obtain ⟨-, -, hrun⟩ := fault_keeps_state pushAcrossTop
  have hfault : run pushAcrossTop Program.never 100 {} = (⟨.error (.fault f), 1⟩, _) := rfl
  obtain ⟨b, i, hb, hi, hstop, hleft⟩ := hrun {} Program.never 100 1 f _ hfault
  obtain rfl : _ = b := Option.some.inj hb
  obtain rfl : _ = i := Option.some.inj hi
  exact ⟨_, _, hfault, rfl, by decide +kernel, hstop, rfl, by decide +kernel, hleft.1⟩

end TapeLang.Machine
