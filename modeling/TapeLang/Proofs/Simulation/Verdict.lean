import Mathlib.Data.Nat.Find
import TapeLang.Proofs.Simulation.Steps

/-!
# What comes of a run

A run of a compiled program follows the run of its tree task by task. It stops when the budget is
used up, when the tree is done, or at the first access before the first word; what it leaves behind
is known in each case.

* `Clear`: a run can get to a task.
* `Verdict`: how a run ends, and where the run of the tree is then.
* **`verdict_of_run`**: every run within a budget has a verdict.
-/

namespace TapeLang.Machine

open Assembly Reference

/-- The first task accesses no cell before the first word. -/
def InBounds (arch : Arch) (w : Work) : Prop :=
  w.accesses → arch.firstCell ≤ w.world.position

theorem not_inBounds_iff {arch : Arch} {w : Work} :
    ¬ InBounds arch w ↔ w.accesses ∧ w.world.position < arch.firstCell := by
  rw [InBounds, Classical.not_imp, Int.not_le]

/-- There are tasks up to one, and they access no cell before the first word. -/
def Clear (arch : Arch) (nodes : List Node) (input : Bytes) (j : Nat) : Prop :=
  ∀ i < j, (work nodes input i).todo ≠ [] ∧ InBounds arch (work nodes input i)

/-- How a run with a budget ends, and where the run of the tree is then. -/
inductive Verdict (t : Setting) (nodes : List Node) (input : Bytes) (budget : Nat) :
    Result × State → Prop
  /-- The budget ends before the first task. -/
  | early {s : State} : budget < 2 → s.output = t.stdout → (0 < budget → Guarded t 0 [] input s) →
    Verdict t nodes input budget (⟨.error .stepLimit, budget⟩, s)
  /-- The budget ends in a task, or after the last. -/
  | stopped {j time : Nat} {s : State} : Clear t.arch nodes input j →
    budget = (work nodes input j).elapsed + time →
    ((work nodes input j).todo = [] → time < 3) →
    ((work nodes input j).todo ≠ [] → budget < (work nodes input (j + 1)).elapsed) →
    (¬ InBounds t.arch (work nodes input j) → time ≤ (work nodes input j).lead) →
    Inside t (work nodes input j) time s →
    Verdict t nodes input budget (⟨.error .stepLimit, budget⟩, s)
  /-- The program ends. -/
  | exited {j : Nat} {s : State} : Clear t.arch nodes input j → (work nodes input j).todo = [] →
    (work nodes input j).elapsed + 3 ≤ budget → Inside t (work nodes input j) 2 s →
    Verdict t nodes input budget (⟨.ok 0, (work nodes input j).elapsed + 3⟩, s)
  /-- An access is out of bounds. -/
  | faulted {j : Nat} {s : State} {f : Fault} : Clear t.arch nodes input j →
    (work nodes input j).accesses →
    (work nodes input j).world.position < t.arch.firstCell →
    (work nodes input j).elapsed + (work nodes input j).lead < budget →
    Inside t (work nodes input j) (work nodes input j).lead s →
    f.address = t.cellAt (work nodes input j).world.position →
    Verdict t nodes input budget
      (⟨.error (.fault f), (work nodes input j).elapsed + (work nodes input j).lead⟩, s)

variable {t : Setting} {p : Program} {nodes : List Node} {input : Bytes} {s : State}
  {budget j : Nat}

/-- The machine arrives at every task that it can get to. -/
theorem exists_represents (hnodes : Runnable nodes) (ha : p.arch = t.arch)
    (hc : p.code.toList.map Instr.op = t.arch.code nodes) (h : Ready t input s)
    (hj : ∀ i < j, (work nodes input i).todo ≠ [] ∧ InBounds t.arch (work nodes input i) ∧
      t.InRange (work nodes input (i + 1)).world.position) :
    ∃ a, p.after (work nodes input j).elapsed ⟨0, s⟩ = some a ∧
      Represents t p (work nodes input j) a := by
  induction j with
  | zero =>
    obtain ⟨s', hpush, hmov, hr⟩ := represents_start hnodes ha hc h
    refine ⟨_, ?_, hr⟩
    change p.after 2 _ = _
    rw [Program.after, hpush]
    change p.after 1 _ = _
    rw [Program.after, hmov]
    rfl
  | succ j ih =>
    obtain ⟨a, hafter, hr⟩ := ih fun i hi => hj i (Nat.lt_succ_of_lt hi)
    obtain ⟨htodo, hbounds, hrange⟩ := hj j (Nat.lt_succ_self j)
    rw [work_succ] at hrange
    obtain ⟨n, b, hn, hseg, hb⟩ := hr.exists_next ha htodo hbounds hrange
    rw [work_succ, hn, Program.after_add hafter, hseg.after_eq]
    exact ⟨b, rfl, hb⟩

theorem runFrom_after {a b : Point} {m n : Nat} (ha : p.after m ⟨0, s⟩ = some a)
    (hb : p.after n a = some b) :
    runFrom p Program.never (m + n) 0 0 s = (⟨.error .stepLimit, m + n⟩, b.state) := by
  have hrun := Program.runFrom_stop ((Program.after_add ha).trans hb) 0
  rwa [Nat.zero_add] at hrun

theorem runFrom_inside {a b : Point} {w : Work} {n time : Nat}
    (hafter : p.after w.elapsed ⟨0, s⟩ = some a) (hseg : p.Segment (Inside t w) a n b)
    (hb : Inside t w n b.state) (ht : time ≤ n) :
    ∃ s', Inside t w time s' ∧ runFrom p Program.never (w.elapsed + time) 0 0 s =
      (⟨.error .stepLimit, w.elapsed + time⟩, s') := by
  have hc : ∃ c, p.after time a = some c ∧ Inside t w time c.state := by
    rcases Nat.lt_or_eq_of_le ht with hlt | rfl
    · exact hseg.exists_after hlt
    · exact ⟨b, hseg.after_eq, hb⟩
  obtain ⟨c, hac, hin⟩ := hc
  exact ⟨c.state, hin, runFrom_after hafter hac⟩

section

variable {a : Point} (ha : p.arch = t.arch) (hclear : Clear t.arch nodes input j)
  (hafter : p.after (work nodes input j).elapsed ⟨0, s⟩ = some a)
  (hr : Represents t p (work nodes input j) a) (hle : (work nodes input j).elapsed ≤ budget)
include ha hclear hafter hr hle

theorem verdict_done (hd : (work nodes input j).todo = []) :
    Verdict t nodes input budget (runFrom p Program.never budget 0 0 s) := by
  obtain ⟨b, hseg, hb, i, hi, hstep⟩ := hr.exists_exit ha hd
  by_cases hlt : (work nodes input j).elapsed + 3 ≤ budget
  · have hrun := Program.runFrom_exit ((Program.after_add hafter).trans hseg.after_eq) hi hstep
      (show (work nodes input j).elapsed + 2 < budget by omega) 0
    rw [Nat.zero_add] at hrun
    rw [hrun]
    exact .exited hclear hd hlt hb
  · obtain ⟨time, rfl⟩ := Nat.exists_eq_add_of_le hle
    obtain ⟨s', hs', hrun⟩ := runFrom_inside hafter hseg hb (show time ≤ 2 by omega)
    rw [hrun]
    refine .stopped hclear rfl (fun _ => by omega) (fun h => absurd hd h) (fun h => ?_) hs'
    exact absurd (not_inBounds_iff.mp h).1 (Work.not_accesses_of_done hd)

/-- The verdict at an access out of bounds, if the machine notices it or the budget ends before. -/
theorem verdict_fault (hnodes : Runnable nodes) (hb : ¬ InBounds t.arch (work nodes input j))
    (htop : t.origin + (wordWidth t.arch).bytes = stackTop.toNat ∨
      budget ≤ (work nodes input j).elapsed + (work nodes input j).lead) :
    Verdict t nodes input budget (runFrom p Program.never budget 0 0 s) := by
  obtain ⟨hacc, hpos⟩ := not_inBounds_iff.mp hb
  obtain ⟨b, hseg, hin, hfault⟩ := hr.exists_fault ha hacc hpos
  by_cases hlt : (work nodes input j).elapsed + (work nodes input j).lead < budget
  · obtain ⟨i, size, hi, hstep⟩ := hfault (htop.resolve_right (Nat.not_le_of_lt hlt))
    have hrun := Program.runFrom_fail ((Program.after_add hafter).trans hseg.after_eq) hi hstep
      hlt 0
    rw [Nat.zero_add] at hrun
    rw [hrun]
    exact .faulted hclear hacc hpos hlt hin rfl
  · obtain ⟨time, rfl⟩ := Nat.exists_eq_add_of_le hle
    obtain ⟨s', hs', hrun⟩ := runFrom_inside hafter hseg hin (show time ≤ _ by omega)
    rw [hrun]
    have hlead := Work.lead_lt (runnables_work hnodes j) hacc
    refine .stopped hclear rfl (fun hd => ?_) (fun _ => ?_) (fun _ => by omega) hs'
    · exact absurd hacc (Work.not_accesses_of_done hd)
    · rw [work_succ]
      omega

theorem verdict_task (hd : (work nodes input j).todo ≠ [])
    (hb : InBounds t.arch (work nodes input j))
    (hlt : budget < (work nodes input (j + 1)).elapsed)
    (hrange : (work nodes input j).elapsed < budget →
      t.InRange (work nodes input (j + 1)).world.position) :
    Verdict t nodes input budget (runFrom p Program.never budget 0 0 s) := by
  obtain ⟨time, rfl⟩ := Nat.exists_eq_add_of_le hle
  have hs : ∃ s', Inside t (work nodes input j) time s' ∧
      runFrom p Program.never ((work nodes input j).elapsed + time) 0 0 s =
        (⟨.error .stepLimit, (work nodes input j).elapsed + time⟩, s') := by
    rcases Nat.eq_zero_or_pos time with rfl | hpos
    · exact runFrom_inside hafter (.nil a) hr.inside le_rfl
    · have hrange := hrange (by omega)
      rw [work_succ] at hrange hlt
      obtain ⟨n, b, hn, hseg, -⟩ := hr.exists_next ha hd hb hrange
      obtain ⟨c, hac, hin⟩ := hseg.exists_after (show time < n by omega)
      exact ⟨c.state, hin, runFrom_after hafter hac⟩
  obtain ⟨s', hin, hrun⟩ := hs
  rw [hrun]
  exact .stopped hclear rfl (fun h => absurd h hd) (fun _ => hlt) (fun h => absurd hb h) hin

end

/-- A run gets no further than a task: it is the last, or out of bounds, or the budget ends. -/
def LastTask (arch : Arch) (nodes : List Node) (input : Bytes) (budget j : Nat) : Prop :=
  (work nodes input j).todo = [] ∨ ¬ InBounds arch (work nodes input j) ∨
    budget < (work nodes input (j + 1)).elapsed

theorem lt_elapsed (hnodes : Runnable nodes) (j : Nat) :
    (work nodes input j).todo = [] ∨ j < (work nodes input j).elapsed := by
  induction j with
  | zero => exact .inr (Nat.zero_lt_succ 1)
  | succ j ih =>
    by_cases hd : (work nodes input j).todo = []
    · left
      rwa [work_succ, Work.next_of_done hd]
    · right
      have hlt : (work nodes input j).elapsed < (work nodes input (j + 1)).elapsed :=
        elapsed_lt hnodes (Nat.lt_succ_self j) hd
      have := ih.resolve_left hd
      omega

/-- Every run gets no further than some task. -/
theorem exists_lastTask (arch : Arch) (hnodes : Runnable nodes) (input : Bytes) (budget : Nat) :
    ∃ j, LastTask arch nodes input budget j ∧ ∀ i < j, ¬ LastTask arch nodes input budget i := by
  classical
  have hex : ∃ j, LastTask arch nodes input budget j :=
    ⟨budget, (lt_elapsed hnodes budget).imp id fun hlt =>
      .inr (hlt.trans_le (work_elapsed_mono hnodes (Nat.le_succ budget)))⟩
  exact ⟨Nat.find hex, Nat.find_spec hex, fun i hi => Nat.find_min hex hi⟩

theorem verdict_early (hnodes : Runnable nodes) (ha : p.arch = t.arch)
    (hc : p.code.toList.map Instr.op = t.arch.code nodes) (h : Ready t input s)
    (hb : budget < 2) : Verdict t nodes input budget (runFrom p Program.never budget 0 0 s) := by
  obtain ⟨s', hpush, -, -⟩ := represents_start hnodes ha hc h
  obtain rfl | rfl : budget = 0 ∨ budget = 1 := by omega
  · exact .early hb h.output fun h => absurd h (Nat.lt_irrefl 0)
  · have hafter : p.after 1 ⟨0, s⟩ = some ⟨1, s.pushWord t⟩ := by
      rw [Program.after, hpush]
      rfl
    have hg := h.guarded_pushWord
    rw [show runFrom p Program.never 1 0 0 s = _ from Program.runFrom_stop hafter 0]
    exact .early hb hg.output fun _ => hg

/-- **Every run within a budget has a verdict**, if the cells that it visits have addresses. -/
theorem verdict_of_run (hnodes : Runnable nodes) (ha : p.arch = t.arch)
    (hc : p.code.toList.map Instr.op = t.arch.code nodes) (h : Ready t input s)
    (htop : t.origin + (wordWidth t.arch).bytes = stackTop.toNat ∨
      ∀ j, ¬ InBounds t.arch (work nodes input j) →
        budget ≤ (work nodes input j).elapsed + (work nodes input j).lead)
    (hrange : ∀ j, Clear t.arch nodes input (j + 1) → (work nodes input j).elapsed < budget →
      t.InRange (work nodes input (j + 1)).world.position) :
    Verdict t nodes input budget (runFrom p Program.never budget 0 0 s) := by
  by_cases hearly : budget < 2
  · exact verdict_early hnodes ha hc h hearly
  -- The first task that the run does not get past decides how it ends.
  obtain ⟨j, hj, hmin⟩ := exists_lastTask t.arch hnodes input budget
  simp only [LastTask, not_or, not_not, Nat.not_lt] at hmin
  have hclear : Clear t.arch nodes input j := fun i hi => ⟨(hmin i hi).1, (hmin i hi).2.1⟩
  have hbefore : ∀ i < j, (work nodes input i).elapsed < budget := fun i hi =>
    (elapsed_lt hnodes (Nat.lt_succ_self i) (hmin i hi).1).trans_le (hmin i hi).2.2
  obtain ⟨a, hafter, hr⟩ := exists_represents (j := j) hnodes ha hc h fun i hi =>
    ⟨(hmin i hi).1, (hmin i hi).2.1, hrange i (fun k hk => hclear k (by omega)) (hbefore i hi)⟩
  have hle : (work nodes input j).elapsed ≤ budget := by
    cases j with
    | zero => exact Nat.le_of_not_lt hearly
    | succ j => exact (hmin j (Nat.lt_succ_self j)).2.2
  by_cases hd : (work nodes input j).todo = []
  · exact verdict_done ha hclear hafter hr hle hd
  by_cases hb : InBounds t.arch (work nodes input j)
  · have hlt := (hj.resolve_left hd).resolve_left (not_not_intro hb)
    refine verdict_task ha hclear hafter hr hle hd hb hlt fun hbegun => ?_
    refine hrange j (fun k hk => ?_) hbegun
    rcases Nat.lt_succ_iff_lt_or_eq.mp hk with hk | rfl
    · exact hclear k hk
    · exact ⟨hd, hb⟩
  · exact verdict_fault ha hclear hafter hr hle hnodes hb (htop.imp_right fun h => h j hb)

end TapeLang.Machine
