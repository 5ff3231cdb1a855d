import TapeLang.Proofs.Simulation.StackGuard

/-!
# Both architectures in lock step

What a run within bounds comes to depends on the tree, the input and the budget. The architecture
only decides how wide the first word of the stack is.

* `AtWork`: a task is at work when the budget ends.
* `resultAt`: what a run comes to if a task is at work at its end.
* **`Verdict.exists_atWork`**: a run within bounds is at the task that the budget tells.
* **`Verdict.agree_of_bounded`**: two runs with one budget agree.
* **`run_lockstep`**: the compiled programs of a source agree after every instruction.
-/

namespace TapeLang

open Assembly Machine Reference

theorem Arch.firstCell_le (arch : Arch) : arch.firstCell ≤ -1 := by
  cases arch <;> decide

theorem Arch.addressable_of_lt {arch : Arch} {p : Int}
    (h : 0 ≤ arch.cellAddress p ∧ arch.cellAddress p < 2 ^ 32) : arch.Addressable p := by
  have hbits : (2 : Int) ^ 32 ≤ 2 ^ arch.bits := by cases arch <;> decide
  exact ⟨h.1, h.2.trans_le hbits⟩

namespace Machine

/-- A task is at work when the budget ends, or it is the end of the tree. -/
structure AtWork (nodes : List Node) (input : Bytes) (budget j : Nat) : Prop where
  before : ∀ i < j, (work nodes input i).todo ≠ []
  begun : (work nodes input j).elapsed ≤ budget
  going : (work nodes input j).todo ≠ [] → budget < (work nodes input (j + 1)).elapsed

/-- What a run comes to if a task is at work at its end. -/
def resultAt (w : Work) (budget : Nat) : Result :=
  if w.todo.isEmpty ∧ w.elapsed + 3 ≤ budget then ⟨.ok 0, w.elapsed + 3⟩
  else ⟨.error .stepLimit, budget⟩

variable {arch arch' : Arch} {t : Setting} {nodes : List Node} {input : Bytes} {budget i j : Nat}
  {w : Work} {output : Option Sink} {r r' : Result × State} {s : State}

theorem AtWork.le (hnodes : Runnable nodes) (hi : AtWork nodes input budget i)
    (hj : AtWork nodes input budget j) : i ≤ j := by
  by_contra hji
  have hlt := hj.going (hi.before j (by omega))
  have : (work nodes input (j + 1)).elapsed ≤ (work nodes input i).elapsed :=
    work_elapsed_mono hnodes (by omega)
  have := hi.begun
  omega

theorem AtWork.unique (hnodes : Runnable nodes) (hi : AtWork nodes input budget i)
    (hj : AtWork nodes input budget j) : i = j :=
  (hi.le hnodes hj).antisymm (hj.le hnodes hi)

theorem Clear.before (h : Clear arch nodes input j) : ∀ i < j, (work nodes input i).todo ≠ [] :=
  fun i hi => (h i hi).1

theorem Inside.of_done {time time' : Nat} (h : Inside t w time s) (hd : w.todo = []) :
    Inside t w time' s := by
  simpa only [Inside, depthAt, inputAt, hd] using h

theorem outcome_resultAt (w : Work) (budget : Nat) :
    (resultAt w budget).outcome = .ok 0 ∨ (resultAt w budget).outcome = .error .stepLimit := by
  unfold resultAt
  split_ifs
  · exact .inl rfl
  · exact .inr rfl

theorem Verdict.of_one (hnodes : Runnable nodes) (h : Verdict t nodes input 1 r) :
    r.1 = ⟨.error .stepLimit, 1⟩ ∧ Guarded t 0 [] input r.2 := by
  have htwo : ∀ j, 2 ≤ (work nodes input j).elapsed := two_le_elapsed hnodes
  cases h with
  | early _ _ hg => exact ⟨rfl, hg Nat.one_pos⟩
  | @stopped j =>
    have := htwo j
    omega
  | @exited j =>
    have := htwo j
    omega
  | @faulted j =>
    have := htwo j
    omega

/-- No access is out of bounds within a budget. -/
def Bounded (arch : Arch) (nodes : List Node) (input : Bytes) (budget : Nat) : Prop :=
  ∀ i, ¬ InBounds arch (work nodes input i) →
    budget ≤ (work nodes input i).elapsed + (work nodes input i).lead

/-- **A run within bounds is at the task that the budget tells.** -/
theorem Verdict.exists_atWork (h : Verdict t nodes input budget r)
    (hb : Bounded t.arch nodes input budget) (htwo : 2 ≤ budget) :
    ∃ j, AtWork nodes input budget j ∧ r.1 = resultAt (work nodes input j) budget ∧
      Inside t (work nodes input j) (budget - (work nodes input j).elapsed) r.2 := by
  cases h with
  | early hlt => omega
  | @stopped j time s hc hbudget hlast hnext _ hin =>
    refine ⟨j, ⟨hc.before, by omega, hnext⟩, ?_, ?_⟩
    · rw [resultAt, if_neg]
      rintro ⟨hd, hle⟩
      have := hlast (List.isEmpty_iff.mp hd)
      omega
    · rwa [show budget - (work nodes input j).elapsed = time by omega]
  | @exited j s hc hd hle hin =>
    refine ⟨j, ⟨hc.before, by omega, fun h => absurd hd h⟩, ?_, hin.of_done hd⟩
    rw [resultAt, if_pos ⟨List.isEmpty_iff.mpr hd, hle⟩]
  | @faulted j _ _ _ hacc hpos hlt =>
    exact absurd hlt (Nat.not_lt_of_le (hb j (not_inBounds_iff.mpr ⟨hacc, hpos⟩)))

/-- **Two runs with one budget agree**, wherever their tapes are: the same cells are in memory. -/
theorem Verdict.agree_of_bounded {t' : Setting} (h : Verdict t nodes input budget r)
    (h' : Verdict t' nodes input budget r') (hnodes : Runnable nodes)
    (hb : Bounded t.arch nodes input budget) (hb' : Bounded t'.arch nodes input budget)
    (hpos : 0 < budget) :
    (r.1.outcome = .ok 0 ∨ r.1.outcome = .error .stepLimit) ∧ r'.1 = r.1 ∧
      ∃ depth written left, Guarded t depth written left r.2 ∧
        Guarded t' depth written left r'.2 := by
  by_cases htwo : 2 ≤ budget
  · obtain ⟨j, hj, hr, hin⟩ := h.exists_atWork hb htwo
    obtain ⟨j', hj', hr', hin'⟩ := h'.exists_atWork hb' htwo
    obtain rfl := hj.unique hnodes hj'
    rw [hr, hr']
    exact ⟨outcome_resultAt _ _, rfl, _, _, _, hin, hin'⟩
  · obtain rfl : budget = 1 := by omega
    obtain ⟨hr, hg⟩ := h.of_one hnodes
    obtain ⟨hr', hg'⟩ := h'.of_one hnodes
    rw [hr, hr']
    exact ⟨.inr rfl, rfl, _, _, _, hg, hg'⟩

theorem Verdict.agree (hnodes : Runnable nodes)
    (hb : ∀ arch i, InBounds arch (work nodes input i)) (hpos : 0 < budget)
    (h : Verdict (.fresh arch output) nodes input budget r)
    (h' : Verdict (.fresh arch' output) nodes input budget r') :
    (r.1.outcome = .ok 0 ∨ r.1.outcome = .error .stepLimit) ∧ r'.1 = r.1 ∧
      ∃ depth written left, Guarded (.fresh arch output) depth written left r.2 ∧
        Guarded (.fresh arch' output) depth written left r'.2 :=
  h.agree_of_bounded h' hnodes (fun i hi => absurd (hb arch i) hi)
    (fun i hi => absurd (hb arch' i) hi) hpos

theorem Guarded.stackBytes_eq {depth : Nat} {written left : Bytes} {s' : State}
    (h : Guarded (.fresh arch output) depth written left s)
    (h' : Guarded (.fresh arch' output) depth written left s') :
    s'.pushes = s.pushes ∧ s'.output = s.output ∧
      s.stackBytes.toNat + (wordWidth arch').bytes =
        s'.stackBytes.toNat + (wordWidth arch).bytes := by
  have hpushes : s'.pushes = s.pushes := h'.pushes.trans h.pushes.symm
  have hbytes := h.stackBytes.2
  have hbytes' := h'.stackBytes.2
  rw [hpushes] at hbytes'
  exact ⟨hpushes, h'.output.trans h.output.symm, by omega⟩

theorem stepBudget_pos (limit : Int64) : 0 < stepBudget limit := by
  unfold stepBudget
  split_ifs with h
  · decide
  · have : 0 < limit.toInt := by
      rw [Int64.not_le, Int64.lt_iff_toInt_lt] at h
      exact h
    omega

end Machine

/-- **The compiled programs of a source run in lock step** on the two machines, if the cells that it
visits have addresses on both. -/
theorem run_lockstep {file source : Bytes} {nodes : List Node}
    (short : source.length < 2 ^ 63) (parsed : parse file source = .ok nodes)
    (input : Option Input) (output errors : Option Sink)
    (inBounds : ∀ n, (trace source (inputBytes input) n).accesses →
      -1 ≤ (trace source (inputBytes input) n).world.position)
    (inRange : ∀ (arch : Arch) n,
      0 ≤ arch.cellAddress (trace source (inputBytes input) n).world.position ∧
        arch.cellAddress (trace source (inputBytes input) n).world.position < 2 ^ 32) :
    ∃ p q, load (Arch.amd64.listing nodes).text 64 = .ok p ∧
      load (Arch.x86.listing nodes).text 32 = .ok q ∧
      ∀ limit,
        let r := run p Program.never limit { input, output, errors }
        let r' := run q Program.never limit { input, output, errors }
        (r.1.outcome = .ok 0 ∨ r.1.outcome = .error .stepLimit) ∧
          r'.1.outcome = r.1.outcome ∧ r'.1.steps = r.1.steps ∧ r'.2.pushes = r.2.pushes ∧
          r'.2.output = r.2.output ∧ r.2.stackBytes.toNat = r'.2.stackBytes.toNat + 4 := by
  have hs := spells_of_parse short parsed
  have hb : ∀ arch i, InBounds arch (work nodes (inputBytes input) i) := fun arch =>
    inBounds_work hs fun n hn => arch.firstCell_le.trans (inBounds n hn)
  have hverdict : ∀ {arch : Arch} {p : Program} (limit : Int64), Compiled arch nodes p →
      Verdict (.fresh arch output) nodes (inputBytes input) (stepBudget limit)
        (run p Program.never limit { input, output, errors }) := by
    intro arch p limit hp
    have ranged := ranged_of_addressable (fun n => Arch.addressable_of_lt (inRange arch n))
      (stepBudget limit)
    rcases hp.verdict hs Program.never input output errors ranged with hv | ⟨k, -, s, hc, -⟩
    · exact hv
    · cases hc
  obtain ⟨p, hp⟩ := exists_compiled short parsed .amd64
  obtain ⟨q, hq⟩ := exists_compiled short parsed .x86
  refine ⟨p, q, hp.loads, hq.loads, fun limit => ?_⟩
  intro r r'
  obtain ⟨houtcome, hresult, depth, written, left, hg, hg'⟩ :=
    (hverdict limit hp).agree hs.runnable hb (stepBudget_pos limit) (hverdict limit hq)
  obtain ⟨hpushes, hwritten, hbytes⟩ := hg.stackBytes_eq hg'
  change r.2.stackBytes.toNat + 4 = r'.2.stackBytes.toNat + 8 at hbytes
  exact ⟨houtcome, congrArg _ hresult, congrArg _ hresult, hpushes, hwritten, by omega⟩

/-- A program that moves its input to the next cell and then uses the cell before the first. -/
theorem run_lockstep_transfer :
    ∃ nodes p q, parse "transfer" (utf8 ",[>+<-]>.<<+") = .ok nodes ∧
      load (Arch.amd64.listing nodes).text 64 = .ok p ∧
      load (Arch.x86.listing nodes).text 32 = .ok q ∧
      ∀ limit,
        let input : Option Input := some { chunks := [[2]] }
        let r := run p Program.never limit { input, output := some {} }
        let r' := run q Program.never limit { input, output := some {} }
        r'.1.outcome = r.1.outcome ∧ r'.1.steps = r.1.steps ∧ r'.2.pushes = r.2.pushes ∧
          r'.2.output = r.2.output ∧ r.2.stackBytes.toNat = r'.2.stackBytes.toNat + 4 := by
  have parsed : parse "transfer" (utf8 ",[>+<-]>.<<+") = .ok
      [{ kind := .read, loc := ⟨"transfer", 1, 1⟩ },
        { kind := .loop, loc := ⟨"transfer", 1, 2⟩, children :=
          [{ kind := .moveForward, count := 1, loc := ⟨"transfer", 1, 3⟩ },
            { kind := .increment, count := 1, loc := ⟨"transfer", 1, 4⟩ },
            { kind := .moveBackward, count := 1, loc := ⟨"transfer", 1, 5⟩ },
            { kind := .decrement, count := 1, loc := ⟨"transfer", 1, 6⟩ }] },
        { kind := .moveForward, count := 1, loc := ⟨"transfer", 1, 8⟩ },
        { kind := .write, loc := ⟨"transfer", 1, 9⟩ },
        { kind := .moveBackward, count := 2, loc := ⟨"transfer", 1, 10⟩ },
        { kind := .increment, count := 1, loc := ⟨"transfer", 1, 12⟩ }] := by
    cbv
  have halted : (trace (utf8 ",[>+<-]>.<<+") [2] 17).code = [] := by decide +kernel
  have bounds := forall_trace_of_halted (P := fun c => (c.accesses → -1 ≤ c.world.position) ∧
    (0 ≤ Arch.amd64.cellAddress c.world.position ∧
      Arch.amd64.cellAddress c.world.position < 2 ^ 32) ∧
    0 ≤ Arch.x86.cellAddress c.world.position ∧ Arch.x86.cellAddress c.world.position < 2 ^ 32)
    halted (by decide +kernel)
  have inRange : ∀ (arch : Arch) n,
      0 ≤ arch.cellAddress (trace (utf8 ",[>+<-]>.<<+") [2] n).world.position ∧
        arch.cellAddress (trace (utf8 ",[>+<-]>.<<+") [2] n).world.position < 2 ^ 32 := by
    intro arch n
    cases arch
    · exact (bounds n).2.1
    · exact (bounds n).2.2
  obtain ⟨p, q, hp, hq, hrun⟩ := run_lockstep (by decide) parsed (some { chunks := [[2]] })
    (some {}) none (fun n => (bounds n).1) inRange
  exact ⟨_, p, q, parsed, hp, hq, fun limit => (hrun limit).2⟩

end TapeLang
