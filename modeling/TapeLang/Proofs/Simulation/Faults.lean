import TapeLang.Proofs.Simulation.Preservation

/-!
# When compiled programs fault

A compiled program faults at the first access before the first word of the stack, and at no other
time. It fails for no other reason of its own.

* **`exists_first_outOfBounds`**: the first task out of bounds begins with the first byte that is.
* **`Verdict.fault_of_outOfBounds`**: a byte that is out of bounds leads to a fault.
* **`Verdict.outOfBounds_of_fault`**: a fault comes from the first such byte.
* **`run_faults_iff`**: which runs fault, where, and with what output.
-/

namespace TapeLang

open Assembly Machine Reference

namespace Reference

variable {arch : Arch} {source input : Bytes} {nodes : List Node} {n j : Nat}

theorem Within.outOfBounds (h : Within (account source input n) (work nodes input j))
    (hout : (account source input n).OutOfBounds arch) :
    (work nodes input j).accesses ∧ (work nodes input j).world.position < arch.firstCell ∧
      (account source input n).elapsed + (account source input n).config.lead =
        (work nodes input j).elapsed + (work nodes input j).lead := by
  obtain ⟨hacc, hlead, hpos⟩ := h.access hout.1
  exact ⟨hacc, hpos ▸ hout.2, by rw [h.elapsed, hlead]⟩

/-- **The first task out of bounds begins with the first byte out of bounds.** -/
theorem exists_first_outOfBounds (hs : Spells source nodes []) (hc : Clear arch nodes input j)
    (hb : ¬ InBounds arch (work nodes input j)) :
    ∃ n, (account source input n).OutOfBounds arch ∧
      (∀ i < n, ¬ (account source input i).OutOfBounds arch) ∧
      Within (account source input n) (work nodes input j) := by
  obtain ⟨m, hm, hout⟩ := exists_outOfBounds hs hb
  have hex : ∃ n, (account source input n).OutOfBounds arch := ⟨m, hout⟩
  refine ⟨Nat.find hex, Nat.find_spec hex, fun i hi => Nat.find_min hex hi, ?_⟩
  obtain ⟨k, hk⟩ := exists_within hs input (Nat.find hex)
  have hjk : j ≤ k := by
    by_contra hkj
    exact hk.not_inBounds (Nat.find_spec hex) (hc k (Nat.lt_of_not_le hkj)).2
  -- The least byte is not after `m`, so it is charged to the same time and is of the same task.
  have hle : (work nodes input k).elapsed ≤ (work nodes input j).elapsed := by
    rw [← hk.elapsed, ← hm.elapsed]
    exact elapsed_mono (Nat.find_min' hex hout)
  have heq : work nodes input k = work nodes input j :=
    work_eq_of_elapsed hs.runnable (hle.antisymm (work_elapsed_mono hs.runnable hjk))
  exact heq ▸ hk

end Reference

namespace Machine

variable {arch : Arch} {source input : Bytes} {nodes : List Node} {budget n : Nat}
  {output : Option Sink} {r : Result × State}

theorem Verdict.outcome (h : Verdict (.fresh arch output) nodes input budget r) :
    r.1.outcome = .ok 0 ∨ (∃ f, r.1.outcome = .error (.fault f)) ∨
      r.1.outcome = .error .stepLimit := by
  cases h with
  | early => exact .inr (.inr rfl)
  | stopped => exact .inr (.inr rfl)
  | exited => exact .inl rfl
  | faulted => exact .inr (.inl ⟨_, rfl⟩)

/-- **A byte out of bounds leads to a fault**, if the budget lasts. -/
theorem Verdict.fault_of_outOfBounds (hs : Spells source nodes [])
    (h : Verdict (.fresh arch output) nodes input budget r)
    (hout : (account source input n).OutOfBounds arch)
    (hlt : (account source input n).elapsed + (account source input n).config.lead < budget) :
    ∃ f, r.1.outcome = .error (.fault f) := by
  obtain ⟨k, hk⟩ := exists_within hs input n
  obtain ⟨hacc, -, htime⟩ := hk.outOfBounds hout
  have hclear : ∀ {j}, Clear arch nodes input j → j ≤ k := by
    intro j hc
    by_contra hkj
    exact hk.not_inBounds hout (hc k (Nat.lt_of_not_le hkj)).2
  have htwo : 2 ≤ (work nodes input k).elapsed := two_le_elapsed hs.runnable k
  cases h with
  | early hb => omega
  | @stopped j time s hc hbudget hlast hnext hlead =>
    have hjk := hclear hc
    by_cases hd : (work nodes input j).todo = []
    · rw [work_done hd hjk] at hacc
      exact absurd hacc (Work.not_accesses_of_done hd)
    rcases Nat.eq_or_lt_of_le hjk with rfl | hlt'
    · have := hlead (hk.not_inBounds hout)
      omega
    · have := hnext hd
      have : (work nodes input (j + 1)).elapsed ≤ (work nodes input k).elapsed :=
        work_elapsed_mono hs.runnable hlt'
      omega
  | exited hc hd =>
    rw [work_done hd (hclear hc)] at hacc
    exact absurd hacc (Work.not_accesses_of_done hd)
  | faulted => exact ⟨_, rfl⟩

theorem addressable_of_first (hr : Ranged arch source input budget)
    (hout : (account source input n).OutOfBounds arch)
    (hfirst : ∀ i < n, ¬ (account source input i).OutOfBounds arch)
    (hlt : (account source input n).elapsed < budget) :
    arch.Addressable (account source input n).config.world.position := by
  cases n with
  | zero =>
    have hpos : 0 < arch.firstCell := hout.2
    exact absurd (hpos.trans arch.firstCell_neg) (lt_irrefl 0)
  | succ n =>
    refine hr n (fun i hi => hfirst i (Nat.lt_succ_of_le hi)) (lt_of_le_of_lt ?_ hlt)
    exact elapsed_mono (Nat.le_succ n)

/-- **A fault comes from the first byte out of bounds.** It is at the address of the cell, and all
output before it has been written. -/
theorem Verdict.outOfBounds_of_fault (hs : Spells source nodes [])
    (h : Verdict (.fresh arch output) nodes input budget r)
    (hr : Ranged arch source input budget) {f : Fault} (hf : r.1.outcome = .error (.fault f)) :
    ∃ n, (account source input n).OutOfBounds arch ∧
      (∀ i < n, ¬ (account source input i).OutOfBounds arch) ∧
      (account source input n).elapsed + (account source input n).config.lead < budget ∧
      (f.address.toNat : Int) = arch.cellAddress (account source input n).config.world.position ∧
      r.2.output = deliver output (account source input n).config.world.output := by
  cases h with
  | early => cases hf
  | stopped => cases hf
  | exited => cases hf
  | @faulted j s f hc hacc hpos hlt hin hf' =>
    cases hf
    obtain ⟨n, hout, hfirst, hwithin⟩ :=
      exists_first_outOfBounds hs hc (not_inBounds_iff.mpr ⟨hacc, hpos⟩)
    obtain ⟨-, hlead, hcell⟩ := hwithin.access hout.1
    have htime := hwithin.elapsed
    have haddr := addressable_of_first hr hout hfirst (by omega)
    refine ⟨n, hout, hfirst, by omega, ?_, ?_⟩
    · rw [hf', ← hcell, Setting.toNat_cellAt _ ((Setting.inRange_fresh arch output _).mpr haddr),
        Setting.address_fresh]
    · rw [hwithin.output]
      exact hin.output

end Machine

/-- **A compiled program faults at the first access before the first word, and only there**, if the
cells that it visits have addresses. -/
theorem run_faults_iff {file source : Bytes} {nodes : List Node}
    (short : source.length < 2 ^ 63) (parsed : parse file source = .ok nodes) (arch : Arch)
    (input : Option Input) (output errors : Option Sink) (cancelled : Nat → Bool) (limit : Int64)
    (ranged : Ranged arch source (inputBytes input) (stepBudget limit)) :
    ∃ p, load (arch.listing nodes).text (Int64.ofNat arch.bits) = .ok p ∧
      let reference := account source (inputBytes input)
      let r := run p cancelled limit { input, output, errors }
      (r.1.outcome = .ok 0 ∨ (∃ f, r.1.outcome = .error (.fault f)) ∨
        r.1.outcome = .error .stepLimit ∨
        r.1.outcome = .error .cancelled ∧ ∃ k, cancelled k = true) ∧
      (r.1.outcome ≠ .error .cancelled →
        ((∃ f, r.1.outcome = .error (.fault f)) ↔
          ∃ n, (reference n).OutOfBounds arch ∧
            (reference n).elapsed + (reference n).config.lead < stepBudget limit)) ∧
      ∀ f, r.1.outcome = .error (.fault f) →
        ∃ n, (reference n).OutOfBounds arch ∧ (∀ i < n, ¬ (reference i).OutOfBounds arch) ∧
          (reference n).config.world.position < 0 ∧
          (f.address.toNat : Int) = arch.cellAddress (reference n).config.world.position ∧
          r.2.output = deliver output (reference n).config.world.output ∧
          (output = some {} →
            r.2.output.map Sink.contents = some (reference n).config.world.output) := by
  obtain ⟨p, hp⟩ := exists_compiled short parsed arch
  have hs := spells_of_parse short parsed
  refine ⟨p, hp.loads, ?_⟩
  intro reference r
  rcases hp.verdict hs cancelled input output errors ranged with hv | ⟨k, -, s, hc, he, -⟩
  · change Verdict _ _ _ _ r at hv
    refine ⟨?_, fun _ => ⟨?_, ?_⟩, ?_⟩
    · exact hv.outcome.imp id fun h => h.imp id .inl
    · rintro ⟨f, hf⟩
      obtain ⟨n, hout, -, hlt, -⟩ := hv.outOfBounds_of_fault hs ranged hf
      exact ⟨n, hout, hlt⟩
    · rintro ⟨n, hout, hlt⟩
      exact hv.fault_of_outOfBounds hs hout hlt
    · intro f hf
      obtain ⟨n, hout, hfirst, -, haddr, hwritten⟩ := hv.outOfBounds_of_fault hs ranged hf
      refine ⟨n, hout, hfirst, ?_, haddr, hwritten, ?_⟩
      · exact hout.2.trans arch.firstCell_neg
      · rintro rfl
        rw [hwritten]
        exact contents_deliver _
  · have hout : r.1.outcome = .error .cancelled := congrArg (fun r => r.1.outcome) he
    refine ⟨.inr (.inr (.inr ⟨hout, k, hc⟩)), fun h => absurd hout h, fun f hf => ?_⟩
    rw [hout] at hf
    cases hf

/-- The fourth cell to the left of the first cannot be read on a machine with 64 bits. -/
theorem run_faults_iff_left :
    ∃ nodes p f, parse "left" (utf8 ",.<<<<.") = .ok nodes ∧
      load (Arch.amd64.listing nodes).text 64 = .ok p ∧
      let r := run p Program.never 100 { input := some { chunks := [[7]] }, output := some {} }
      r.1.outcome = .error (.fault f) ∧ f.address = stackTop ∧
        r.2.output.map Sink.contents = some [7] := by
  have parsed : parse "left" (utf8 ",.<<<<.") = .ok
      [{ kind := .read, loc := ⟨"left", 1, 1⟩ }, { kind := .write, loc := ⟨"left", 1, 2⟩ },
        { kind := .moveBackward, count := 4, loc := ⟨"left", 1, 3⟩ },
        { kind := .write, loc := ⟨"left", 1, 7⟩ }] := by
    cbv
  have halted : (trace (utf8 ",.<<<<.") [7] 7).code = [] := by decide +kernel
  have inRange := forall_trace_of_halted (P := fun c => Arch.amd64.Addressable c.world.position)
    halted (by decide +kernel)
  obtain ⟨p, hload, houtcome, hiff, hfault⟩ := run_faults_iff (by decide) parsed .amd64
    (some { chunks := [[7]] }) (some {}) none Program.never 100 (ranged_of_addressable inRange _)
  have hout : (account (utf8 ",.<<<<.") [7] 6).OutOfBounds .amd64 := by decide +kernel
  have hbefore : ∀ i < 6, ¬ (account (utf8 ",.<<<<.") [7] i).OutOfBounds .amd64 := by
    decide +kernel
  obtain ⟨f, hf⟩ := (hiff fun hc => by
    rcases houtcome with h | ⟨f, h⟩ | h | ⟨-, k, h⟩
    · cases hc.symm.trans h
    · cases hc.symm.trans h
    · cases hc.symm.trans h
    · cases h).mpr ⟨6, hout, by decide +kernel⟩
  obtain ⟨n, hn, hfirst, -, haddr, -, hwritten⟩ := hfault f hf
  obtain rfl : n = 6 := by
    by_contra hne
    rcases Nat.lt_or_gt_of_ne hne with hlt | hgt
    · exact hbefore n hlt hn
    · exact hfirst 6 hgt hout
  refine ⟨_, p, f, parsed, hload, hf, ?_, ?_⟩
  · refine UInt64.toNat_inj.mp (Int.natCast_inj.mp (haddr.trans ?_))
    decide +kernel
  · refine (hwritten rfl).trans ?_
    decide +kernel

end TapeLang
