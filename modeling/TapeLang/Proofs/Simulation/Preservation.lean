import TapeLang.Proofs.Simulation.Compiled

/-!
# Compiled programs do what their sources say

As long as the run of a source stays within the cells that a fresh machine has, the machine ends
when the source does and outputs the same; if the source goes on for ever, so does the machine.

* **`run_of_done`**: how a run ends if the tree is done at some time.
* **`run_of_endless`**: a run is stopped by its budget if the tree is never done.
* **`run_preserves_semantics`**: the machine agrees with the reference semantics.
-/

namespace TapeLang

open Assembly Machine Reference

namespace Machine

theorem Inside.contents {arch : Arch} {w : Work} {time : Nat} {s : State}
    (h : Inside (.fresh arch (some {})) w time s) :
    s.output.map Sink.contents = some w.world.output := by
  rw [h.output]
  exact contents_deliver w.world.output

variable {arch : Arch} {nodes : List Node} {input : Bytes} {budget i j : Nat}
  {r : Result × State}

theorem le_of_elapsed_le (hnodes : Runnable nodes) (hle : (work nodes input j).elapsed ≤ budget)
    (hlt : budget < (work nodes input (i + 1)).elapsed) : j ≤ i := by
  by_contra hij
  have : (work nodes input (i + 1)).elapsed ≤ (work nodes input j).elapsed :=
    work_elapsed_mono hnodes (by omega)
  omega

theorem two_le_elapsed (hnodes : Runnable nodes) (j : Nat) : 2 ≤ (work nodes input j).elapsed :=
  work_elapsed_mono (i := 0) hnodes (Nat.zero_le j)

theorem work_eq_of_done (hi : (work nodes input i).todo = [])
    (hj : (work nodes input j).todo = []) : work nodes input i = work nodes input j := by
  rcases Nat.le_total i j with hij | hji
  · exact (work_done hi hij).symm
  · exact work_done hj hji

/-- **How a run ends if the tree is done at some time.** -/
theorem run_of_done (hnodes : Runnable nodes) (hb : ∀ i, InBounds arch (work nodes input i))
    (hd : (work nodes input j).todo = [])
    (h : Verdict (.fresh arch (some {})) nodes input budget r) :
    ((work nodes input j).elapsed + 3 ≤ budget → r.1.outcome = .ok 0 ∧
      r.2.output.map Sink.contents = some (work nodes input j).world.output) ∧
    (budget < (work nodes input j).elapsed + 3 → r.1.outcome = .error .stepLimit ∧
      ∃ written, r.2.output.map Sink.contents = some written ∧
        written <+: (work nodes input j).world.output) := by
  cases h with
  | early hlt hout =>
    refine ⟨fun hle => ?_, fun _ => ⟨rfl, [], ?_, List.nil_prefix⟩⟩
    · omega
    · rw [hout]
      rfl
  | @stopped i time s _ hbudget hlast hnext _ hin =>
    -- The run is in a task before the end of the tree, or in the instructions after it.
    have hlt : budget < (work nodes input j).elapsed + 3 ∧
        (work nodes input i).world.output <+: (work nodes input j).world.output := by
      by_cases hi : (work nodes input i).todo = []
      · have heq := work_eq_of_done hi hd
        have := hlast hi
        refine ⟨?_, heq ▸ List.prefix_rfl⟩
        rw [← heq]
        omega
      · have hij : i < j := by
          by_contra hji
          rw [work_done hd (Nat.le_of_not_lt hji)] at hi
          exact hi hd
        have := hnext hi
        have : (work nodes input (i + 1)).elapsed ≤ (work nodes input j).elapsed :=
          work_elapsed_mono hnodes hij
        exact ⟨by omega, work_output_prefix hij.le⟩
    exact ⟨fun hle => absurd hlt.1 (by omega), fun _ => ⟨rfl, _, hin.contents, hlt.2⟩⟩
  | @exited i s _ hi hle hin =>
    rw [work_eq_of_done hi hd] at hle hin
    exact ⟨fun _ => ⟨rfl, hin.contents⟩, fun hlt => absurd hle (by omega)⟩
  | @faulted i _ _ _ hacc hpos => exact absurd (hb i hacc) (Int.not_le.mpr hpos)

/-- **A run is stopped by its budget if the tree is never done.** -/
theorem run_of_endless (hb : ∀ i, InBounds arch (work nodes input i))
    (hd : ∀ i, (work nodes input i).todo ≠ [])
    (h : Verdict (.fresh arch (some {})) nodes input budget r) :
    r.1.outcome = .error .stepLimit ∧
      ∃ i, r.2.output.map Sink.contents = some (work nodes input i).world.output ∧
        (2 ≤ budget → budget < (work nodes input (i + 1)).elapsed) := by
  cases h with
  | early hlt hout =>
    refine ⟨rfl, 0, ?_, fun hle => absurd hlt (by omega)⟩
    rw [hout]
    rfl
  | @stopped i _ _ _ _ _ hnext _ hin => exact ⟨rfl, i, hin.contents, fun _ => hnext (hd i)⟩
  | @exited i _ _ hi => exact absurd hi (hd i)
  | @faulted i _ _ _ hacc hpos => exact absurd (hb i hacc) (Int.not_le.mpr hpos)

end Machine

namespace Reference

variable {arch : Arch} {source input : Bytes} {nodes : List Node}

theorem inBounds_work (h : Spells source nodes [])
    (hb : ∀ n, (trace source input n).accesses →
      arch.firstCell ≤ (trace source input n).world.position) (j : Nat) :
    InBounds arch (work nodes input j) := by
  by_contra hj
  obtain ⟨n, -, hout⟩ := exists_outOfBounds h hj
  rw [Account.OutOfBounds, config_account] at hout
  have := hb n hout.1
  have := hout.2
  omega

theorem ranged_of_addressable
    (hr : ∀ n, arch.Addressable (trace source input n).world.position) (budget : Nat) :
    Ranged arch source input budget := by
  intro n _ _
  rw [config_account]
  exact hr (n + 1)

theorem todo_ne_nil (h : Spells source nodes []) (hn : ∀ n, (trace source input n).code ≠ [])
    (j : Nat) : (work nodes input j).todo ≠ [] := by
  intro hd
  obtain ⟨n, he, -⟩ := exists_halted h hd
  refine hn n ?_
  rw [← config_account, he]
  rfl

end Reference

/-- **The machine agrees with the reference semantics** on every run over cells that have addresses,
whether it ends or not. -/
theorem run_preserves_semantics {file source : Bytes} {nodes : List Node}
    (short : source.length < 2 ^ 63) (parsed : parse file source = .ok nodes) (arch : Arch)
    (input : Option Input) (errors : Option Sink)
    (inBounds : ∀ n, (trace source (inputBytes input) n).accesses →
      arch.firstCell ≤ (trace source (inputBytes input) n).world.position)
    (inRange : ∀ n, arch.Addressable (trace source (inputBytes input) n).world.position) :
    ∃ p, load (arch.listing nodes).text (Int64.ofNat arch.bits) = .ok p ∧
      let ending (limit : Int64) :=
        run p Program.never limit { input, output := some {}, errors }
      let outcome (limit : Int64) := (ending limit).1.outcome
      let stdout (limit : Int64) := (ending limit).2.output.map Sink.contents
      (∀ n, (trace source (inputBytes input) n).code = [] →
        ∃ N, ∀ limit,
          (N ≤ stepBudget limit → outcome limit = .ok 0 ∧
            stdout limit = some (trace source (inputBytes input) n).world.output) ∧
          (stepBudget limit < N → outcome limit = .error .stepLimit ∧
            ∃ written, stdout limit = some written ∧
              written <+: (trace source (inputBytes input) n).world.output)) ∧
      ((∀ n, (trace source (inputBytes input) n).code ≠ []) →
        (∀ limit, outcome limit = .error .stepLimit ∧
          ∃ n, stdout limit = some (trace source (inputBytes input) n).world.output) ∧
        ∀ n, ∃ N, ∀ limit, N ≤ stepBudget limit →
          ∃ written, stdout limit = some written ∧
            (trace source (inputBytes input) n).world.output <+: written) := by
  obtain ⟨p, hp⟩ := exists_compiled short parsed arch
  have hs := spells_of_parse short parsed
  have hb : ∀ i, InBounds arch (work nodes (inputBytes input) i) := inBounds_work hs inBounds
  have hverdict : ∀ limit, Verdict (.fresh arch (some {})) nodes (inputBytes input)
      (stepBudget limit) (run p Program.never limit { input, output := some {}, errors }) := by
    intro limit
    rcases hp.verdict hs Program.never input (some {}) errors
      (ranged_of_addressable inRange (stepBudget limit)) with hv | ⟨k, -, s, hc, -⟩
    · exact hv
    · cases hc
  refine ⟨p, hp.loads, fun n hn => ?_, fun hn => ⟨fun limit => ?_, fun n => ?_⟩⟩
  · rw [← config_account] at hn ⊢
    obtain ⟨j, hd, he⟩ := done_of_halted hs hn
    rw [he]
    exact ⟨_, fun limit => run_of_done hs.runnable hb hd (hverdict limit)⟩
  · obtain ⟨hout, i, hi, -⟩ := run_of_endless hb (todo_ne_nil hs hn) (hverdict limit)
    obtain ⟨m, hm⟩ := exists_account hs (inputBytes input) i
    refine ⟨hout, m, ?_⟩
    rw [← config_account, hm.eq]
    exact hi
  · obtain ⟨j, hj⟩ := exists_within hs (inputBytes input) n
    refine ⟨(work nodes (inputBytes input) j).elapsed, fun limit hle => ?_⟩
    obtain ⟨-, i, hi, hlt⟩ := run_of_endless hb (todo_ne_nil hs hn) (hverdict limit)
    have htwo : 2 ≤ (work nodes (inputBytes input) j).elapsed := two_le_elapsed hs.runnable j
    refine ⟨_, hi, ?_⟩
    rw [← config_account, hj.output]
    exact work_output_prefix (le_of_elapsed_le hs.runnable hle (hlt (htwo.trans hle)))

/-- A program that counts down from its input exits with all numbers on the way. -/
theorem run_preserves_semantics_countdown :
    ∃ nodes p N, parse "countdown" (utf8 ",[.-]") = .ok nodes ∧
      load (Arch.amd64.listing nodes).text 64 = .ok p ∧
      ∀ limit, N ≤ stepBudget limit →
        let r := run p Program.never limit { input := some { chunks := [[3]] }, output := some {} }
        r.1.outcome = .ok 0 ∧ r.2.output.map Sink.contents = some [3, 2, 1] := by
  have parsed : parse "countdown" (utf8 ",[.-]") = .ok
      [{ kind := .read, loc := ⟨"countdown", 1, 1⟩ },
        { kind := .loop, loc := ⟨"countdown", 1, 2⟩, children :=
          [{ kind := .write, loc := ⟨"countdown", 1, 3⟩ },
            { kind := .decrement, count := 1, loc := ⟨"countdown", 1, 4⟩ }] }] := by
    cbv
  have halted : (trace (utf8 ",[.-]") [3] 11).code = [] := by decide +kernel
  have bounds := forall_trace_of_halted (P := fun c => Arch.amd64.Addressable c.world.position ∧
    (c.accesses → Arch.amd64.firstCell ≤ c.world.position)) halted (by decide +kernel)
  obtain ⟨p, hload, hhalts, -⟩ := run_preserves_semantics (by decide) parsed .amd64
    (some { chunks := [[3]] }) none (fun n => (bounds n).2) (fun n => (bounds n).1)
  obtain ⟨N, hN⟩ := hhalts 11 halted
  refine ⟨_, p, N, parsed, hload, fun limit hlimit => ?_⟩
  obtain ⟨hexit, houtput⟩ := (hN limit).1 hlimit
  refine ⟨hexit, houtput.trans ?_⟩
  decide +kernel

end TapeLang
