import TapeLang.Proofs.Machine.Confinement
import TapeLang.Proofs.Machine.Execution

/-!
# Runs with a step budget

A budget cuts a run off and does nothing else. Where a run ends by itself, every budget that is
large enough gives the same end, and every smaller one a run that is stopped on the way there.

* `written`: the bytes that a stream has taken.
* `Grows`, **`Grows.runFrom`**: what never gets less along a run.
* `Program.Stop`: where a run ends by itself.
* **`runFrom_cases`**: a run is stopped by its budget or ends by itself.
* **`Reaches.stackBytes_run_le`**: with a larger limit the stack of a machine is not smaller.
* **`run_truncates`**: runs from one state with different budgets.
-/

namespace TapeLang.Machine

/-! ## What never gets less -/

/-- The bytes that a stream has taken; without a stream there are none. -/
def written (sink : Option Sink) : Bytes := (sink.map Sink.contents).getD []

theorem written_offer (sink : Option Sink) (data : Bytes) (count : Int64) :
    written sink <+: written (offer sink data count).2 := by
  rcases sink with _ | sink
  · exact List.prefix_rfl
  have htake : ∀ part room, sink.contents <+: (sink.take part room).contents := by
    intro part room
    simp [Sink.contents, Sink.take]
  rcases hroom : sink.room with _ | left | left
  · simpa [offer, Sink.write, hroom, written] using htake data _
  · rcases left with _ | left
    · simp [offer, Sink.write, hroom]
    · simpa [offer, Sink.write, hroom, written] using htake data _
  · by_cases hfit : data.length ≤ left
    · simpa [offer, Sink.write, hroom, hfit, written] using htake data _
    · simpa [offer, Sink.write, hroom, hfit, written] using htake (data.take left) _

/-- Nothing that was written is taken back. -/
def Appends (s s' : State) : Prop :=
  written s.output <+: written s'.output ∧ written s.errors <+: written s'.errors

theorem Appends.of_eq {s s' : State} (ho : s'.output = s.output) (he : s'.errors = s.errors) :
    Appends s s' := by
  simp [Appends, ho, he]

theorem appends_write (s : State) (arch : Arch) (w : Width) (target : Operand Nat) (v : UInt64)
    (zero carry : Bool) : Appends s (State.write { s with zero, carry } arch w target v) := by
  cases target <;> exact .of_eq rfl rfl

theorem Answer.appends {s : State} {i : Instr Nat} {a : UInt64} {count : Int64}
    {answer : Except RunError Int64 × State} (h : Answer s i a count answer) (arch : Arch)
    (position : Nat) : Appends s (afterCall arch position answer).1 := by
  cases h with
  | refused | fault | read => exact .of_eq rfl rfl
  | output => exact ⟨written_offer _ _ _, List.prefix_rfl⟩
  | errors => exact ⟨List.prefix_rfl, written_offer _ _ _⟩

theorem Execution.appends {arch : Arch} {s : State} {i : Instr Nat} {position : Nat}
    {r : State × Next} (h : Execution arch s i position r) : Appends s r.1 := by
  cases h with
  | write => exact appends_write s arch _ _ _ _ _
  | call hanswer => exact hanswer.appends arch position
  | fail | push | overflow | compare | discard | jump | exit => exact .of_eq rfl rfl

/-- What never gets less along a run: what was written to the two outputs, the stack, and the
count of pushes. -/
structure Grows (s s' : State) : Prop where
  appends : Appends s s'
  low : s'.low ≤ s.low
  pushes : s.pushes ≤ s'.pushes

theorem Grows.refl (s : State) : Grows s s :=
  ⟨.of_eq rfl rfl, UInt64.le_refl _, le_rfl⟩

theorem Grows.trans {s s' s'' : State} (h : Grows s s') (h' : Grows s' s'') : Grows s s'' :=
  ⟨⟨h.appends.1.trans h'.appends.1, h.appends.2.trans h'.appends.2⟩,
    UInt64.le_trans h'.low h.low, h.pushes.trans h'.pushes⟩

theorem grows_step (arch : Arch) (s : State) (i : Instr Nat) (position : Nat) :
    Grows s (step arch s i position).1 :=
  ⟨(execution_step arch s i position).appends, low_step_le arch s i position,
    pushes_le_step arch s i position⟩

theorem grows_runFrom (p : Program) (cancelled : Nat → Bool) (budget steps position : Nat)
    (s : State) : Grows s (runFrom p cancelled budget steps position s).2 := by
  induction budget generalizing steps position s with
  | zero => exact .refl s
  | succ budget ih =>
    rw [runFrom]
    split_ifs with hc hlt
    · exact .refl s
    · have hstep := grows_step p.arch s p.code[position] position
      rcases hs : step p.arch s p.code[position] position with ⟨s', target | code | e⟩
      · rw [hs] at hstep
        exact hstep.trans (ih _ _ _)
      · rw [hs] at hstep
        exact hstep
      · rw [hs] at hstep
        exact hstep
    · exact .refl s

theorem Grows.stackBytes {s s' : State} (h : Grows s s') (hs : s.low ≤ stackTop) :
    s.stackBytes ≤ s'.stackBytes := by
  have hlow := h.low
  have hs' := UInt64.le_trans hlow hs
  rw [UInt64.le_iff_toNat_le] at hlow
  rw [State.stackBytes, State.stackBytes, UInt64.le_iff_toNat_le, UInt64.toNat_sub_of_le _ _ hs,
    UInt64.toNat_sub_of_le _ _ hs']
  omega

/-! ## Where a run ends -/

namespace Program

variable {p : Program} {a b : Point} {m n : Nat}

theorem exists_after_of_le (h : p.after n a = some b) (hm : m ≤ n) :
    ∃ c, p.after m a = some c := by
  induction m generalizing a n with
  | zero => exact ⟨a, rfl⟩
  | succ m ih =>
    obtain ⟨n, rfl⟩ := Nat.exists_eq_succ_of_ne_zero (show n ≠ 0 by omega)
    rw [after, Option.bind_eq_some_iff] at h
    obtain ⟨a', ha, hb⟩ := h
    obtain ⟨c, hc⟩ := ih hb (Nat.le_of_succ_le_succ hm)
    exact ⟨c, by rw [after, ha]; exact hc⟩

/-- A run from a point ends by itself after `n` instructions, which lead on, with this result. The
instruction that ends it is completed if it exits and not completed if it fails. -/
inductive Stop (p : Program) (a : Point) : Nat → Result × State → Prop
  | pastEnd {n : Nat} {b : Point} : p.after n a = some b → p.code[b.position]? = none →
    Stop p a n (⟨.error .pastEnd, n⟩, b.state)
  | exit {n : Nat} {b : Point} {i : Instr Nat} {s : State} {code : Nat} : p.after n a = some b →
    p.code[b.position]? = some i → step p.arch b.state i b.position = (s, .exit code) →
    Stop p a n (⟨.ok code, n + 1⟩, s)
  | fail {n : Nat} {b : Point} {i : Instr Nat} {s : State} {e : RunError} : p.after n a = some b →
    p.code[b.position]? = some i → step p.arch b.state i b.position = (s, .fail e) →
    Stop p a n (⟨.error e, n⟩, s)

theorem Stop.exists_after {r : Result × State} (h : p.Stop a n r) : ∃ b, p.after n a = some b := by
  cases h with
  | pastEnd hb => exact ⟨_, hb⟩
  | exit hb => exact ⟨_, hb⟩
  | fail hb => exact ⟨_, hb⟩

theorem Stop.steps_of_ok {r : Result × State} {code : Nat} (h : p.Stop a n r)
    (ho : r.1.outcome = .ok code) : r.1.steps = n + 1 := by
  cases h with
  | exit => rfl
  | pastEnd | fail => cases ho

theorem Stop.steps_of_error {r : Result × State} {e : RunError} (h : p.Stop a n r)
    (ho : r.1.outcome = .error e) : r.1.steps = n := by
  cases h with
  | exit => cases ho
  | pastEnd | fail => rfl

theorem runFrom_pastEnd (h : p.after n a = some b) (hb : p.code[b.position]? = none) {budget : Nat}
    (hn : n < budget) (steps : Nat) :
    runFrom p never budget steps a.position a.state = (⟨.error .pastEnd, steps + n⟩, b.state) := by
  obtain ⟨k, rfl⟩ := Nat.exists_eq_add_of_lt hn
  have hlt : ¬ b.position < p.code.size := by simpa using hb
  rw [Nat.add_assoc, runFrom_of_after h, runFrom, dif_neg hlt]
  simp [never]

/-- A larger budget does not change how a run ends. -/
theorem Stop.runFrom_eq {r : Result × State} (h : p.Stop a n r) {budget : Nat} (hn : n < budget) :
    runFrom p never budget 0 a.position a.state = r := by
  cases h with
  | pastEnd hb he => rw [runFrom_pastEnd hb he hn, Nat.zero_add]
  | exit hb hi hs => rw [runFrom_exit hb hi hs hn, Nat.zero_add]
  | fail hb hi hs => rw [runFrom_fail hb hi hs hn, Nat.zero_add]

theorem Stop.outcome_early {r : Result × State} (h : p.Stop a n r) (hm : m ≤ n) :
    (runFrom p never m 0 a.position a.state).1 = ⟨.error .stepLimit, m⟩ := by
  obtain ⟨b, hb⟩ := h.exists_after
  obtain ⟨c, hc⟩ := exists_after_of_le hb hm
  rw [runFrom_stop hc, Nat.zero_add]

theorem exists_stop_of_next? (h : p.next? b = none) (hb : p.after n a = some b) :
    ∃ r, p.Stop a n r := by
  unfold next? at h
  split at h
  · next hi => exact ⟨_, .pastEnd hb hi⟩
  · next i hi =>
    split at h
    · cases h
    · next hs => exact ⟨_, .exit hb hi hs⟩
    · next hs => exact ⟨_, .fail hb hi hs⟩

theorem exists_stop (h : p.after n a = none) : ∃ k < n, ∃ r, p.Stop a k r := by
  induction n with
  | zero => cases h
  | succ n ih =>
    rcases hn : p.after n a with _ | b
    · obtain ⟨k, hk, hr⟩ := ih hn
      exact ⟨k, by omega, hr⟩
    · -- The path leads to this point and not further.
      have hnext : p.next? b = none := by
        rw [after_add hn, after] at h
        rcases hb : p.next? b with _ | c
        · rfl
        · rw [hb] at h
          cases h
      exact ⟨n, Nat.lt_succ_self n, exists_stop_of_next? hnext hn⟩

/-- **A run is stopped by its budget, or it has ended by itself before.** -/
theorem runFrom_cases (p : Program) (a : Point) (budget : Nat) :
    (∃ b, p.after budget a = some b ∧
      runFrom p never budget 0 a.position a.state = (⟨.error .stepLimit, budget⟩, b.state)) ∨
    ∃ n < budget, p.Stop a n (runFrom p never budget 0 a.position a.state) := by
  rcases h : p.after budget a with _ | b
  · obtain ⟨n, hn, r, hr⟩ := exists_stop h
    exact .inr ⟨n, hn, by rw [hr.runFrom_eq hn]; exact hr⟩
  · exact .inl ⟨b, rfl, by rw [runFrom_stop h, Nat.zero_add]⟩

/-- A run with a larger budget goes on where one with a smaller budget was stopped. -/
theorem grows_of_le (p : Program) (a : Point) {budget budget' : Nat} (h : budget ≤ budget') :
    Grows (runFrom p never budget 0 a.position a.state).2
      (runFrom p never budget' 0 a.position a.state).2 := by
  rcases runFrom_cases p a budget with ⟨b, hb, hr⟩ | ⟨n, hn, hr⟩
  · obtain ⟨k, rfl⟩ := Nat.exists_eq_add_of_le h
    rw [hr, runFrom_of_after hb]
    exact grows_runFrom _ _ _ _ _ _
  · rw [hr.runFrom_eq (hn.trans_le h)]
    exact .refl _

end Program

/-! ## Limits -/

section Limits

variable {p : Program} {s : State} {limit limit' : Int64} {n : Nat} {r : Result × State}

theorem stepBudget_of_pos (h : 0 < limit) : (stepBudget limit : Int) = limit.toInt := by
  have hpos : 0 < limit.toInt := by simpa [Int64.lt_iff_toInt_lt] using h
  rw [stepBudget, if_neg (by simpa using h)]
  omega

theorem exists_stop_of_run (hpos : 0 < limit)
    (h : (run p Program.never limit s).1.outcome ≠ .error .stepLimit) :
    ∃ n : Nat, n < limit.toInt ∧ p.Stop ⟨p.entry, s⟩ n (run p Program.never limit s) := by
  have hbudget := stepBudget_of_pos hpos
  rcases Program.runFrom_cases p ⟨p.entry, s⟩ (stepBudget limit) with ⟨b, -, hr⟩ | ⟨n, hn, hr⟩
  · refine absurd ?_ h
    rw [run, hr]
  · exact ⟨n, by omega, hr⟩

theorem Program.Stop.run_eq (h : p.Stop ⟨p.entry, s⟩ n r) (hn : n < limit.toInt) :
    run p never limit s = r := by
  have hpos : 0 < limit := by
    rw [Int64.lt_iff_toInt_lt]
    exact lt_of_le_of_lt (Int.natCast_nonneg n) hn
  have hbudget := stepBudget_of_pos hpos
  exact h.runFrom_eq (by omega)

theorem Program.Stop.run_early (h : p.Stop ⟨p.entry, s⟩ n r) (hpos : 0 < limit)
    (hn : limit.toInt ≤ n) : (run p never limit s).1 = ⟨.error .stepLimit, limit.toInt.toNat⟩ := by
  have hbudget := stepBudget_of_pos hpos
  rw [run, h.outcome_early (by omega)]
  congr 1
  omega

theorem Program.grows_run (p : Program) (s : State) (hpos : 0 < limit) (hle : limit ≤ limit') :
    Grows s (run p never limit s).2 ∧ Grows (run p never limit s).2 (run p never limit' s).2 := by
  have hbudget := stepBudget_of_pos hpos
  have hbudget' := stepBudget_of_pos (Int64.lt_of_lt_of_le hpos hle)
  rw [Int64.le_iff_toInt_le] at hle
  exact ⟨grows_runFrom p never _ 0 p.entry s, grows_of_le p ⟨p.entry, s⟩ (by omega)⟩

theorem Program.stackBytes_run_le (hlow : s.low ≤ stackTop) (hpos : 0 < limit)
    (hle : limit ≤ limit') :
    (run p never limit s).2.stackBytes ≤ (run p never limit' s).2.stackBytes := by
  obtain ⟨hstart, hgrows⟩ := p.grows_run s hpos hle
  exact hgrows.stackBytes (UInt64.le_trans hstart.low hlow)

/-- In no state of a machine does the stack begin above its top. -/
theorem Reaches.stackBytes_run_le {text : Bytes} {bits : Int64} {position : Nat}
    {stored : Set UInt64} (loaded : load text bits = .ok p) (reached : Reaches p position s stored)
    (hpos : 0 < limit) (hle : limit ≤ limit') :
    (run p Program.never limit s).2.stackBytes ≤ (run p Program.never limit' s).2.stackBytes :=
  Program.stackBytes_run_le (reached.sane loaded).low hpos hle

end Limits

/-- **A step limit only cuts a run off**: a larger one changes nothing after the end, a smaller one
stops the run on its way there, and with the limit nothing gets less. -/
theorem run_truncates (p : Program) (s : State) :
    let r (limit : Int64) := run p Program.never limit s
    (∀ limit code, 0 < limit → (r limit).1.outcome = .ok code →
      let k := (r limit).1.steps
      k ≤ limit.toInt ∧ (∀ limit' : Int64, k ≤ limit'.toInt → r limit' = r limit) ∧
        ∀ limit' : Int64, 0 < limit' → limit'.toInt < k →
          (r limit').1 = ⟨.error .stepLimit, limit'.toInt.toNat⟩) ∧
    (∀ limit e, 0 < limit → e ≠ .stepLimit → (r limit).1.outcome = .error e →
      let k := (r limit).1.steps
      k < limit.toInt ∧ (∀ limit' : Int64, k < limit'.toInt → r limit' = r limit) ∧
        ∀ limit' : Int64, 0 < limit' → limit'.toInt ≤ k →
          (r limit').1 = ⟨.error .stepLimit, limit'.toInt.toNat⟩) ∧
    ∀ limit limit' : Int64, 0 < limit → limit ≤ limit' →
      written (r limit).2.output <+: written (r limit').2.output ∧
        written (r limit).2.errors <+: written (r limit').2.errors ∧
        (r limit).2.pushes ≤ (r limit').2.pushes ∧
        (s.low ≤ stackTop → (r limit).2.stackBytes ≤ (r limit').2.stackBytes) := by
  intro r
  refine ⟨fun limit code hpos hcode => ?_, fun limit e hpos he hfail => ?_,
    fun limit limit' hpos hle => ?_⟩
  · have hended : (r limit).1.outcome ≠ .error .stepLimit := by simp [hcode]
    obtain ⟨n, hn, hstop⟩ := exists_stop_of_run hpos hended
    -- The instruction that exits is counted.
    have hsteps : (r limit).1.steps = n + 1 := hstop.steps_of_ok hcode
    simp only [hsteps]
    refine ⟨by omega, fun limit' hk => hstop.run_eq (by omega), fun limit' hpos' hk => ?_⟩
    exact hstop.run_early hpos' (by omega)
  · have hended : (r limit).1.outcome ≠ .error .stepLimit := by simp [hfail, he]
    obtain ⟨n, hn, hstop⟩ := exists_stop_of_run hpos hended
    -- The instruction that fails is not.
    have hsteps : (r limit).1.steps = n := hstop.steps_of_error hfail
    simp only [hsteps]
    exact ⟨hn, fun limit' hk => hstop.run_eq hk, fun limit' hpos' hk => hstop.run_early hpos' hk⟩
  · have hgrows : Grows (r limit).2 (r limit').2 := (p.grows_run s hpos hle).2
    refine ⟨hgrows.appends.1, hgrows.appends.2, hgrows.pushes, fun hlow => ?_⟩
    exact Program.stackBytes_run_le hlow hpos hle

/-- A program that pushes a word and exits. -/
def pushAndExit : Program where
  arch := .amd64
  code := #[⟨.push none (.immediate 7), 2, utf8 "push $7"⟩,
    ⟨.mov none (.immediate 60) (.register .ax .quad), 3, utf8 "mov $60, %rax"⟩,
    ⟨.syscall, 4, utf8 "syscall"⟩]
  entry := 0

/-- The program exits with its third instruction, and a limit of two cuts that off. -/
theorem run_truncates_exit :
    let r (limit : Int64) := run pushAndExit Program.never limit {}
    (r 5).1.outcome = .ok 0 ∧ (r 5).1.steps = 3 ∧ r 3 = r 5 ∧
      (r 2).1 = ⟨.error .stepLimit, 2⟩ ∧ (r 1).2.stackBytes = 8 ∧
      (r 1).2.stackBytes ≤ (r 5).2.stackBytes := by
  intro r
  obtain ⟨hexit, -, hgrows⟩ := run_truncates pushAndExit {}
  have hcode : (r 5).1.outcome = .ok 0 := rfl
  have hsteps : (r 5).1.steps = 3 := rfl
  have hbytes : (r 1).2.stackBytes = 8 := by decide +kernel
  obtain ⟨-, hsame, hcut⟩ := hexit 5 0 (by decide) hcode
  rw [hsteps] at hsame hcut
  obtain ⟨-, -, -, hstack⟩ := hgrows 1 5 (by decide) (by decide)
  exact ⟨hcode, hsteps, hsame 3 (by decide), hcut 2 (by decide) (by decide), hbytes,
    hstack (by decide)⟩

end TapeLang.Machine
