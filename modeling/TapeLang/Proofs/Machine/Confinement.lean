import Mathlib.Data.Set.Lattice
import TapeLang.Proofs.Listing.Labels
import TapeLang.Proofs.Machine.Change

/-!
# The stack confines a program

A listing may put any number into any register, and a machine may be run again and again. Whatever
it does, it never looks at a byte outside the stack and never writes one, the stack never shrinks,
and in 32-bit mode no register holds more than 32 bits.

* `Reaches`: the states of a machine, with all bytes that were ever stored to.
* `Sane`, **`Reaches.sane`**: what holds of every such state.
* **`Reaches.runFrom`**: a run stays among them.
* **`run_confines_memory`**: the two together, for every listing that can be loaded.
-/

namespace TapeLang.Machine

attribute [local irreducible] Memory.store Memory.set Memory.write

/-- The position of the next instruction. After the end of a run the next run begins at `start`. -/
def Next.position (start : Nat) : Next → Nat
  | .goto position => position
  | .exit _ | .fail _ => start

/-- The bytes of some spans. -/
def covered (spans : List Span) : Set UInt64 := {a | ∃ x ∈ spans, a ∈ x}

/-- The states that a machine can be in before an instruction, with the bytes that were ever stored
to. It may be run again wherever it was stopped, and its streams may be replaced at any time. -/
inductive Reaches (p : Program) : Nat → State → Set UInt64 → Prop
  | fresh : Reaches p p.entry {} ∅
  | streams {position : Nat} {s : State} {stored : Set UInt64} (input : Option Input)
    (output errors : Option Sink) :
    Reaches p position s stored → Reaches p position { s with input, output, errors } stored
  | step {position : Nat} {s : State} {stored : Set UInt64} {i : Instr Nat} :
    Reaches p position s stored → p.code[position]? = some i →
    Reaches p ((step p.arch s i position).2.position p.entry) (step p.arch s i position).1
      (stored ∪ covered (stores p.arch s i))
  | again {position : Nat} {s : State} {stored : Set UInt64} :
    Reaches p position s stored → Reaches p p.entry s stored

variable {p : Program} {position : Nat} {s : State} {stored : Set UInt64} {arch : Arch}
  {i : Instr Nat}

/-! ## One instruction -/

theorem low_step_le (arch : Arch) (s : State) (i : Instr Nat) (position : Nat) :
    (step arch s i position).1.low ≤ s.low :=
  (change_step arch s i position).low_le

theorem pushes_le_step (arch : Arch) (s : State) (i : Instr Nat) (position : Nat) :
    s.pushes ≤ (step arch s i position).1.pushes :=
  (change_step arch s i position).pushes_le

/-- **What an instruction writes is mapped** after it. -/
theorem inStack_of_mem_stores {x : Span} {b : UInt64} (hx : x ∈ stores arch s i) (hb : b ∈ x) :
    (step arch s i position).1.InStack b := by
  have hlow := low_step_le arch s i position
  unfold stores at hx
  split at hx
  · next hop =>
    have h := State.inStack_of_mem_pushSpan hx hb position
    simp only [step, hop]
    exact h
  · exact (Operand.inStack_of_mem_span hx hb).mono hlow
  · split_ifs at hx
    · cases hx
    · exact (Operand.inStack_of_mem_span hx hb).mono hlow
  · cases hx
  · exact (State.inStack_of_mem_buffer hx hb).mono hlow
  · exact (State.inStack_of_mem_buffer hx hb).mono hlow

theorem get_step {b : UInt64} (hb : b ∉ covered (stores arch s i)) (position : Nat) :
    (step arch s i position).1.memory.get b = s.memory.get b := by
  obtain ⟨a, data, hspan, hm⟩ := effect_step arch s i position
  have hmemory : (step arch s i position).1.memory = s.memory.write a data :=
    congrArg (fun r => r.1.memory) (hm s.memory fun _ _ _ _ => rfl)
  rw [hmemory]
  refine Memory.get_write_of_notMem fun hmem => ?_
  have hne : data ≠ [] := by
    rintro rfl
    obtain ⟨k, hk, -⟩ := hmem
    exact absurd hk (Nat.not_lt_zero k)
  obtain ⟨x, hx, rfl, hle⟩ := hspan hne
  exact hb ⟨x, hx, mem_span_of_le hmem hle⟩

/-! ## All states -/

/-- What holds of every state: the stack ends at its top, all that was ever stored to is still in
it, no other byte has changed, and registers of 32 bits have no more. -/
structure Sane (arch : Arch) (s : State) (stored : Set UInt64) : Prop where
  low : s.low ≤ stackTop
  inside : ∀ a ∈ stored, s.InStack a
  blank : ∀ a, a ∉ stored → s.memory.get a = 0
  short : arch = .x86 → s.registers.Short

theorem sane_fresh (arch : Arch) : Sane arch {} ∅ := by
  have hshort : ∀ r, (Registers.get { sp := stackTop } r).toNat < 2 ^ 32 := by
    intro r
    cases r <;> decide
  exact ⟨UInt64.le_refl _, fun a ha => absurd ha (Set.notMem_empty a),
    fun a _ => Memory.get_empty a, fun _ => hshort⟩

theorem Sane.step (h : Sane arch s stored) (hn : arch = .x86 → i.op.Narrow) (position : Nat) :
    Sane arch (step arch s i position).1 (stored ∪ covered (stores arch s i)) := by
  have hlow := low_step_le arch s i position
  refine ⟨UInt64.le_trans hlow h.low, ?_, fun a ha => ?_, ?_⟩
  · rintro a (ha | ⟨x, hx, ha⟩)
    · exact (h.inside a ha).mono hlow
    · exact inStack_of_mem_stores hx ha
  · rw [Set.mem_union, not_or] at ha
    rw [get_step ha.2, h.blank a ha.1]
  · rintro rfl
    exact (change_step .x86 s i position).short (hn rfl) (h.short rfl)

theorem Reaches.sane {text : Bytes} {bits : Int64} (loaded : load text bits = .ok p)
    (h : Reaches p position s stored) : Sane p.arch s stored := by
  induction h with
  | fresh => exact sane_fresh p.arch
  | streams _ _ _ _ ih => exact ⟨ih.low, ih.inside, ih.blank, ih.short⟩
  | step _ hi ih =>
    exact ih.step (fun ha => narrow_of_load loaded ha (Array.mem_of_getElem? hi)) _
  | again _ ih => exact ih

/-- **A run stays among the states of a machine**, and the stack only grows in it. -/
theorem Reaches.runFrom (h : Reaches p position s stored) (cancelled : Nat → Bool)
    (budget steps : Nat) :
    ∃ position' stored', stored ⊆ stored' ∧
      Reaches p position' (runFrom p cancelled budget steps position s).2 stored' ∧
      (runFrom p cancelled budget steps position s).2.low ≤ s.low ∧
      s.pushes ≤ (runFrom p cancelled budget steps position s).2.pushes := by
  induction budget generalizing steps position s stored with
  | zero => exact ⟨position, stored, subset_rfl, h, UInt64.le_refl _, le_rfl⟩
  | succ budget ih =>
    rw [Machine.runFrom]
    split_ifs with hc hlt
    · exact ⟨position, stored, subset_rfl, h, UInt64.le_refl _, le_rfl⟩
    · -- The instruction is a step of the machine, whether the run goes on after it or ends.
      have hnext := h.step (Array.getElem?_eq_getElem hlt)
      have hlow := low_step_le p.arch s p.code[position] position
      have hpushes := pushes_le_step p.arch s p.code[position] position
      rcases hs : Machine.step p.arch s p.code[position] position with ⟨s', target | code | e⟩
      · rw [hs] at hnext hlow hpushes
        obtain ⟨position', stored', hsub, hr, hl, hp⟩ := ih hnext (steps + 1)
        exact ⟨position', stored', Set.subset_union_left.trans hsub, hr, UInt64.le_trans hl hlow,
          hpushes.trans hp⟩
      · rw [hs] at hnext hlow hpushes
        exact ⟨_, _, Set.subset_union_left, hnext, hlow, hpushes⟩
      · rw [hs] at hnext hlow hpushes
        exact ⟨_, _, Set.subset_union_left, hnext, hlow, hpushes⟩
    · exact ⟨position, stored, subset_rfl, h, UInt64.le_refl _, le_rfl⟩

/-- **The stack confines every program that can be loaded**: all that its machine ever reads or
stores to lies in the stack, which never shrinks. -/
theorem run_confines_memory {text : Bytes} {bits : Int64} (loaded : load text bits = .ok p)
    (reached : Reaches p position s stored) :
    s.low ≤ stackTop ∧ (∀ a ∈ stored, s.InStack a) ∧ (∀ a, a ∉ stored → s.memory.get a = 0) ∧
      (p.arch = .x86 → ∀ r, (s.registers.get r).toNat < 2 ^ 32) ∧
      (∀ i, p.code[position]? = some i →
        let s' := (step p.arch s i position).1
        s'.low ≤ s.low ∧ s.pushes ≤ s'.pushes ∧
          Effect s (loads p.arch s i) (stores p.arch s i) (fun s => step p.arch s i position) ∧
          (∀ a ∈ covered (loads p.arch s i), s.InStack a) ∧
          ∀ a ∈ covered (stores p.arch s i), s'.InStack a) ∧
      ∀ cancelled limit,
        let s' := (run p cancelled limit s).2
        s'.low ≤ s.low ∧ s.pushes ≤ s'.pushes ∧
          ∃ position' stored', stored ⊆ stored' ∧ Reaches p position' s' stored' := by
  have hsane := reached.sane loaded
  refine ⟨hsane.low, hsane.inside, hsane.blank, hsane.short, fun i _ => ?_,
    fun cancelled limit => ?_⟩
  · refine ⟨low_step_le _ _ _ _, pushes_le_step _ _ _ _, effect_step _ _ _ _, ?_, ?_⟩
    · rintro a ⟨x, hx, ha⟩
      exact inStack_of_mem_loads hx ha
    · rintro a ⟨x, hx, ha⟩
      exact inStack_of_mem_stores hx ha
  · obtain ⟨position', stored', hsub, hr, hl, hp⟩ :=
      reached.again.runFrom cancelled (stepBudget limit) 0
    exact ⟨hl, hp, position', stored', hsub, hr⟩

/-- A listing of two instructions: after the push, the byte that it stored to is in the stack. -/
theorem run_confines_memory_push :
    ∃ p s stored, load (utf8 "_start:\n  pushw $0\n  addw $1, (%esp)\n") 32 = .ok p ∧
      Reaches p 1 s stored ∧ stackTop - 2 ∈ stored ∧ s.InStack (stackTop - 2) ∧
      (∀ r, (s.registers.get r).toNat < 2 ^ 32) ∧
      ∀ cancelled limit, (run p cancelled limit s).2.low ≤ stackTop - 2 := by
  have hoperand : Assembly.IsOperand .x86 (utf8 "(%esp)") (.memory .sp) := ⟨by decide, rfl⟩
  have hwritten : Assembly.Written .x86
      [.label (utf8 "_start"), .instr (utf8 "pushw" ++ utf8 " " ++ utf8 "$0"),
        .instr (utf8 "addw" ++ utf8 " " ++ utf8 "$1" ++ utf8 ", " ++ utf8 "(%esp)")]
      [.mark (utf8 "_start"), .op (.push (some .word) (.immediate 0)),
        .op (.arith .add (some .word) (.immediate 1) (.memory .sp))] :=
    .mark ⟨by decide, by decide⟩ (.op (Assembly.instruction_push Assembly.mnemonic_pushw (by decide)
      Assembly.isOperand_zero) (.op (Assembly.instruction_arith Assembly.mnemonic_addw (by decide)
      Assembly.isOperand_one hoperand) .nil))
  have hresolved : ∀ place : Bytes → Option Nat, Assembly.Placed place 0
      [.mark (utf8 "_start"), .op (.push (some .word) (.immediate 0)),
        .op (.arith .add (some .word) (.immediate 1) (.memory .sp))] →
      place (utf8 "_start") = some 0 ∧ List.mapM (Op.resolve place)
        [.push (some .word) (.immediate 0), .arith .add (some .word) (.immediate 1) (.memory .sp)] =
          .ok [.push (some .word) (.immediate 0),
            .arith .add (some .word) (.immediate 1) (.memory .sp)] :=
    fun place hplace => ⟨hplace.1, rfl⟩
  obtain ⟨p, hp, ha, he, hcode⟩ := Assembly.loadFor_of_written hwritten (by decide) hresolved
  have hload : load (utf8 "_start:\n  pushw $0\n  addw $1, (%esp)\n") 32 = .ok p := hp
  have hhas : p.Has 0 [.push (some .word) (.immediate 0),
      .arith .add (some .word) (.immediate 1) (.memory .sp)] := by
    rw [Program.Has, List.drop_zero, hcode]
  obtain ⟨⟨i, hi, hop⟩, -⟩ := Program.has_cons.mp hhas
  have hstep : step .x86 {} i 0 = _ :=
    step_push (a := stackTop - 2) hop (by decide) (by decide) (by decide)
  have hstored : stackTop - 2 ∈ covered (stores p.arch {} i) := by
    have hspan : stores p.arch {} i = [⟨stackTop - 2, 2⟩] := by
      rw [ha]
      simp only [stores, hop]
      rfl
    rw [hspan]
    exact ⟨_, List.mem_singleton_self _, 0, by decide, by decide⟩
  have reached := (Reaches.fresh (p := p)).step (he ▸ hi)
  obtain ⟨-, hstack, -, hshort, -, hrun⟩ := run_confines_memory hload reached
  rw [he, ha, hstep] at reached hstack hshort hrun
  refine ⟨p, _, _, hload, reached, .inr (ha ▸ hstored), hstack _ (.inr (ha ▸ hstored)),
    hshort rfl, fun cancelled limit => (hrun cancelled limit).1⟩

end TapeLang.Machine
