import TapeLang.Proofs.Simulation.Preservation

/-!
# How the stack grows

From its first push on, a compiled program keeps the stack pointer at the lowest mapped address. It
pushes one word at the start and then one cell whenever a move forward passes the furthest cell so
far, so the number of pushes tells how far the tape has been used.

* `Located`: the cells in memory after so many instructions of a run.
* **`Verdict.located`**: a run has as many cells in memory as the run of the tree says.
* **`Located.exists_begun`**: there are no more than the source has reached, and as many unless a
  move forward is at work.
* **`Located.eq_furthest`**: there are as many when a move forward is over.
* **`run_guards_stack`**: the law of the stack, at every point of a run.
-/

namespace TapeLang

open Assembly Machine Reference

namespace Machine

/-- The cells after the first that are in memory after so many instructions: none after the first
push, and those of the task at work later. -/
inductive Located (nodes : List Node) (input : Bytes) : (steps depth : Nat) → Prop
  | pushed : Located nodes input 1 0
  | inside (j time : Nat) :
    ((work nodes input j).todo ≠ [] →
      (work nodes input j).elapsed + time < (work nodes input (j + 1)).elapsed) →
    Located nodes input ((work nodes input j).elapsed + time) (depthAt (work nodes input j) time)

theorem depthAt_of_done {w : Work} (h : w.todo = []) (time : Nat) : depthAt w time = w.backed := by
  rw [depthAt, h]

theorem backed_le_depthAt (w : Work) (time : Nat) : w.backed ≤ depthAt w time := by
  unfold depthAt
  split
  · exact Nat.le_add_right _ _
  · exact le_rfl

theorem depthAt_le {w : Work} {time : Nat} (h : Task.Runnables w.todo)
    (hlt : w.elapsed + time < w.next.elapsed) : depthAt w time ≤ w.next.backed := by
  rcases w with ⟨todo, world, backed, elapsed⟩
  cases h with
  | nil => exact le_rfl
  | again => exact le_rfl
  | loop => exact le_rfl
  | @operation kind count _ _ _ hk =>
    rw [Work.next_operation (ne_loop_of_byte hk) rfl] at hlt ⊢
    cases kind with
    | loop | unknown => cases hk
    | increment | decrement | moveBackward | write | read => exact le_rfl
    | moveForward =>
      have hpos : (world.act .moveForward count).position = world.position + Node.repeats count :=
        congrArg World.position (world.iterate_forward _)
      change elapsed + time < elapsed + (4 + 3 * ((world.position + Node.repeats count).toNat -
        backed)) at hlt
      change backed + (time - 2) / 3 ≤ max backed (world.act .moveForward count).position.toNat
      rw [hpos]
      omega

variable {arch : Arch} {source input : Bytes} {nodes : List Node} {budget steps depth : Nat}
  {output : Option Sink} {r : Result × State}

/-- **A run has as many cells in memory as the run of the tree says**, once it has begun. -/
theorem Verdict.located (hnodes : Runnable nodes)
    (h : Verdict (.fresh arch output) nodes input budget r) (hpos : 0 < r.1.steps) :
    ∃ depth written left, Located nodes input r.1.steps depth ∧
      Guarded (.fresh arch output) depth written left r.2 := by
  cases h with
  | early hlt _ hg =>
    obtain rfl : budget = 1 := by
      change 0 < budget at hpos
      omega
    exact ⟨0, _, _, .pushed, hg hpos⟩
  | @stopped j time s _ hbudget _ hnext _ hin =>
    subst hbudget
    exact ⟨_, _, _, .inside j time hnext, hin⟩
  | @exited j s _ hd _ hin =>
    rw [Inside, depthAt_of_done hd, ← depthAt_of_done hd 3] at hin
    exact ⟨_, _, _, .inside j 3 fun h => absurd hd h, hin⟩
  | @faulted j s f _ hacc _ _ hin =>
    refine ⟨_, _, _, .inside j _ fun _ => ?_, hin⟩
    rw [work_succ]
    exact Work.lead_lt (runnables_work hnodes j) hacc

/-- **No more cells are in memory than the source has reached**, and as many unless a move forward
is still at work. -/
theorem Located.exists_begun (h : Located nodes input steps depth) (hs : Spells source nodes []) :
    ∃ n, Begun source input steps n ∧ depth ≤ (account source input n).furthest ∧
      (¬ Forwarding source input steps n → depth = (account source input n).furthest) := by
  cases h with
  | pushed =>
    have hbegun : Begun source input 1 0 :=
      ⟨fun i hi => absurd hi (Nat.not_lt_zero i), .inl (Nat.le_succ 1)⟩
    exact ⟨0, hbegun, le_rfl, fun _ => rfl⟩
  | inside j time hnext =>
    rcases Nat.eq_zero_or_pos time with rfl | hpos
    · obtain ⟨n, hn, ht⟩ := exists_begun_start hs input j
      rw [depthAt_zero, ← ht.furthest]
      exact ⟨n, hn, le_rfl, fun _ => rfl⟩
    by_cases hd : (work nodes input j).todo = []
    · obtain ⟨n, hn, he⟩ := exists_begun_of_done hs hd (Nat.lt_add_of_pos_right hpos)
      rw [depthAt_of_done hd]
      exact ⟨n, hn, by rw [he]; rfl, fun _ => by rw [he]; rfl⟩
    · obtain ⟨n, hn⟩ := exists_ends hs input hd
      have hlt := hnext hd
      have hle := depthAt_le (runnables_work hs.runnable j) (work_succ nodes input j ▸ hlt)
      rw [← work_succ] at hle
      have hbegun := hn.begun hs.runnable (Nat.lt_add_of_pos_right hpos) hlt.le
      refine ⟨n + 1, hbegun, hn.tracks.furthest ▸ hle, fun hno => ?_⟩
      -- The task is no move forward, so it puts nothing into memory.
      have hback := hn.forward.resolve_left fun hf => hno ⟨n, rfl, hf, hn.tracks.elapsed ▸ hlt⟩
      rw [hn.tracks.furthest]
      exact hle.antisymm (hback ▸ backed_le_depthAt _ time)

/-- **There are as many cells in memory as the source has reached when a move forward is over.** -/
theorem Located.eq_furthest (h : Located nodes input steps depth) (hs : Spells source nodes [])
    {n : Nat} (hf : (account source input n).config.endsForward)
    (he : (account source input (n + 1)).elapsed = steps) :
    depth = (account source input (n + 1)).furthest := by
  have hbegun : Begun source input steps (n + 1) := by
    refine ⟨fun i hi => ?_, .inl he.ge⟩
    rw [← he]
    exact (elapsed_mono (Nat.le_of_lt_succ hi)).trans_lt (elapsed_lt_of_endsForward hf)
  obtain ⟨m, hm, -, heq⟩ := h.exists_begun hs
  obtain rfl := hm.eq hbegun he.ge
  refine heq ?_
  rintro ⟨-, -, -, hlt⟩
  omega

theorem Verdict.pushes_of_exit (hs : Spells source nodes [])
    (h : Verdict (.fresh arch output) nodes input budget r) {code : Nat}
    (hexit : r.1.outcome = .ok code) :
    ∃ n, (account source input n).config.code = [] ∧
      r.2.pushes = 1 + (account source input n).furthest := by
  cases h with
  | early => cases hexit
  | stopped => cases hexit
  | faulted => cases hexit
  | exited _ hd _ hin =>
    obtain ⟨n, hn, -⟩ := exists_halted hs hd
    refine ⟨n, by rw [hn]; rfl, ?_⟩
    rw [hin.pushes, depthAt_of_done hd, hn]
    rfl

theorem Guarded.stackBytes {written left : Bytes} {s : State}
    (h : Guarded (.fresh arch output) depth written left s) :
    1 ≤ s.pushes ∧ s.stackBytes.toNat = (wordWidth arch).bytes + 2 * (s.pushes - 1) := by
  have hpushes : s.pushes = 1 + depth := h.pushes
  have hsp := h.sp
  rw [Setting.address_fresh, Arch.cellAddress] at hsp
  refine ⟨by omega, ?_⟩
  rw [State.stackBytes, h.low, UInt64.toNat_sub_of_le]
  · omega
  · rw [UInt64.le_iff_toNat_le]
    omega

theorem Verdict.steps_pos (hnodes : Runnable nodes)
    (h : Verdict (.fresh arch output) nodes input budget r) (hpos : 0 < budget) :
    0 < r.1.steps := by
  cases h with
  | early => exact hpos
  | stopped => exact hpos
  | exited => exact Nat.succ_pos _
  | @faulted j =>
    have : 2 ≤ (work nodes input j).elapsed := two_le_elapsed hnodes j
    exact Nat.add_pos_left (by omega) _

/-- The stack of a state with as many cells in memory as the run of the tree says. -/
theorem Located.law {written left : Bytes} {s : State} (h : Located nodes input steps depth)
    (hs : Spells source nodes []) (hg : Guarded (.fresh arch output) depth written left s) :
    s.registers.sp = s.low ∧ 1 ≤ s.pushes ∧
      s.stackBytes.toNat = (wordWidth arch).bytes + 2 * (s.pushes - 1) ∧
      (∃ n, Begun source input steps n ∧
        s.pushes ≤ 1 + (account source input n).furthest ∧
        (¬ Forwarding source input steps n →
          s.pushes = 1 + (account source input n).furthest)) ∧
      ∀ n, (account source input n).config.endsForward →
        (account source input (n + 1)).elapsed = steps →
        s.pushes = 1 + (account source input (n + 1)).furthest := by
  obtain ⟨hone, hbytes⟩ := hg.stackBytes
  have hpushes : s.pushes = 1 + depth := hg.pushes
  refine ⟨hg.low.symm, hone, hbytes, ?_, fun n hf he => ?_⟩
  · obtain ⟨n, hn, hle, heq⟩ := h.exists_begun hs
    rw [hpushes]
    exact ⟨n, hn, Nat.add_le_add_left hle 1, fun hno => congrArg (1 + ·) (heq hno)⟩
  · rw [hpushes, h.eq_furthest hs hf he]

end Machine

/-- **The law of the stack**: a program maps the cells that its source has reached, and each of them
once. -/
theorem run_guards_stack {file source : Bytes} {nodes : List Node}
    (short : source.length < 2 ^ 63) (parsed : parse file source = .ok nodes) (arch : Arch)
    (input : Option Input) (output errors : Option Sink) (cancelled : Nat → Bool) (limit : Int64)
    (ranged : Ranged arch source (inputBytes input) (stepBudget limit)) :
    ∃ p, load (arch.listing nodes).text (Int64.ofNat arch.bits) = .ok p ∧
      ∀ point ≤ stepBudget limit,
        let reference := account source (inputBytes input)
        let r := runFrom p cancelled point 0 p.entry { input, output, errors }
        (0 < point → cancelled 0 = false → 0 < r.1.steps) ∧
        (0 < r.1.steps →
          r.2.registers.sp = r.2.low ∧
          1 ≤ r.2.pushes ∧
          r.2.stackBytes.toNat = (wordWidth arch).bytes + 2 * (r.2.pushes - 1) ∧
          (∃ n, Begun source (inputBytes input) r.1.steps n ∧
            r.2.pushes ≤ 1 + (reference n).furthest ∧
            (¬ Forwarding source (inputBytes input) r.1.steps n →
              r.2.pushes = 1 + (reference n).furthest)) ∧
          (∀ n, (reference n).config.endsForward → (reference (n + 1)).elapsed = r.1.steps →
            r.2.pushes = 1 + (reference (n + 1)).furthest) ∧
          ∀ code, r.1.outcome = .ok code →
            ∃ n, (reference n).config.code = [] ∧ r.2.pushes = 1 + (reference n).furthest) := by
  obtain ⟨p, hp⟩ := exists_compiled short parsed arch
  have hs := spells_of_parse short parsed
  refine ⟨p, hp.loads, fun point hpoint => ?_⟩
  intro reference r
  rcases hp.verdict hs cancelled input output errors (ranged.mono hpoint) with
    hv | ⟨k, -, s, hk, he, hv⟩
  · change Verdict _ _ _ _ r at hv
    refine ⟨fun hpos _ => hv.steps_pos hs.runnable hpos, fun hpos => ?_⟩
    obtain ⟨depth, written, left, hloc, hg⟩ := hv.located hs.runnable hpos
    obtain ⟨hsp, hone, hbytes, hbegun, hforward⟩ := hloc.law hs hg
    exact ⟨hsp, hone, hbytes, hbegun, hforward, fun code => hv.pushes_of_exit hs⟩
  · change r = _ at he
    rw [he]
    refine ⟨fun _ hno => ?_, fun hpos => ?_⟩
    · refine Nat.pos_of_ne_zero fun (hzero : k = 0) => ?_
      rw [hzero, hno] at hk
      cases hk
    · obtain ⟨depth, written, left, hloc, hg⟩ := hv.located hs.runnable (show 0 < k from hpos)
      obtain ⟨hsp, hone, hbytes, hbegun, hforward⟩ := hloc.law hs hg
      exact ⟨hsp, hone, hbytes, hbegun, hforward, fun code h => by cases h⟩

/-- Two cells to the right, one back and one forward again: there are never more than three pushes,
the first word included. -/
theorem run_guards_stack_swing :
    ∃ nodes p, parse "swing" (utf8 ">><>") = .ok nodes ∧
      load (Arch.x86.listing nodes).text 32 = .ok p ∧
      ∀ point ≤ 100, 0 < point →
        let r := runFrom p Program.never point 0 p.entry {}
        r.2.registers.sp = r.2.low ∧ r.2.pushes ≤ 3 := by
  have parsed : parse "swing" (utf8 ">><>") = .ok
      [{ kind := .moveForward, count := 2, loc := ⟨"swing", 1, 1⟩ },
        { kind := .moveBackward, count := 1, loc := ⟨"swing", 1, 3⟩ },
        { kind := .moveForward, count := 1, loc := ⟨"swing", 1, 4⟩ }] := by
    cbv
  have halted : (trace (utf8 ">><>") [] 4).code = [] := by decide +kernel
  have inRange := forall_trace_of_halted (P := fun c => Arch.x86.Addressable c.world.position)
    halted (by decide +kernel)
  obtain ⟨p, hload, hlaw⟩ := run_guards_stack (by decide) parsed .x86 none none none Program.never
    100 (ranged_of_addressable inRange _)
  refine ⟨_, p, parsed, hload, fun point hpoint hpos => ?_⟩
  obtain ⟨hsteps, hlaw⟩ := hlaw point hpoint
  obtain ⟨hsp, -, -, ⟨n, -, hle, -⟩, -⟩ := hlaw (hsteps hpos rfl)
  have hfurthest : (account (utf8 ">><>") [] n).furthest ≤ 2 := by
    have hbefore : ∀ i ≤ 4, (account (utf8 ">><>") [] i).furthest ≤ 2 := by decide +kernel
    rcases Nat.le_total n 4 with hn | hn
    · exact hbefore n hn
    · rw [account_halted (by rw [config_account]; exact halted) hn]
      exact hbefore 4 le_rfl
  exact ⟨hsp, hle.trans (Nat.add_le_add_left hfurthest 1)⟩

end TapeLang
