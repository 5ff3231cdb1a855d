import TapeLang.Proofs.Machine.Confinement
import TapeLang.Proofs.Simulation.Wraparound
import TapeLang.Proofs.Streams.Calm

/-!
# Running a machine again

A machine keeps everything from one run to the next: registers, flags, memory and streams. A
compiled program does not notice. However its earlier runs came to an end, the stack pointer is at
the lowest mapped address, so the next run puts its tape below all that they left behind and clears
every cell before it uses it.

* `Settled`, **`Reaches.settled`**: the stack pointer of a compiled program.
* `afterRuns`: the state after several runs.
* `Setting.used`: where the tape of the next run will be.
* **`Compiled.verdict_of_ready`**: a run within bounds has a verdict, wherever its tape is.
* **`rerun_starts_afresh`**: a run on a used machine and one on a fresh machine.
* **`rerun_wraps_afresh`**: the fresh machine may run out of addresses where the used one does not.
-/

namespace TapeLang

open Assembly Machine Reference

namespace Reference

/-- A cell that the run of a source accesses within so many instructions of the machine. -/
def Accesses (source input : Bytes) (budget : Nat) (q : Int) : Prop :=
  ∃ n, let a := account source input n
    a.config.accesses ∧ a.elapsed + a.config.lead < budget ∧ a.config.world.position = q

/-- A cell that the run of a source visits within so many instructions of the machine. -/
def Visits (source input : Bytes) (budget : Nat) (q : Int) : Prop :=
  ∃ n, (∀ i < n, (account source input i).elapsed < budget) ∧
    (account source input n).config.world.position = q

variable {arch : Arch} {source input : Bytes} {nodes : List Node} {budget : Nat}

theorem visits_zero (source input : Bytes) (budget : Nat) : Visits source input budget 0 :=
  ⟨0, fun i hi => absurd hi (Nat.not_lt_zero i), rfl⟩

theorem visits_succ {n : Nat} (h : (account source input n).elapsed < budget) :
    Visits source input budget (account source input (n + 1)).config.world.position :=
  ⟨n + 1, fun _ hi => (elapsed_mono (Nat.le_of_lt_succ hi)).trans_lt h, rfl⟩

theorem of_visits {P : Int → Prop} {q : Int}
    (h : ∀ n, P (trace source input n).world.position) (hv : Visits source input budget q) :
    P q := by
  obtain ⟨n, -, rfl⟩ := hv
  rw [config_account]
  exact h n

theorem of_accesses {P : Int → Prop} {q : Int}
    (h : ∀ n, (trace source input n).accesses → P (trace source input n).world.position)
    (ha : Accesses source input budget q) : P q := by
  obtain ⟨n, hn, -, rfl⟩ := ha
  rw [config_account] at hn ⊢
  exact h n hn

theorem bounded_of_accesses (hs : Spells source nodes [])
    (h : ∀ q, Accesses source input budget q → arch.firstCell ≤ q) :
    Bounded arch nodes input budget := by
  intro j hj
  obtain ⟨n, hw, hacc, hpos⟩ := exists_outOfBounds hs hj
  obtain ⟨-, hlead, -⟩ := hw.access hacc
  by_contra hlt
  rw [← hw.elapsed, ← hlead] at hlt
  have := h _ ⟨n, hacc, Nat.lt_of_not_le hlt, rfl⟩
  omega

end Reference

namespace Machine

/-! ## The stack pointer -/

/-- An operation that moves the stack pointer by a push only, and by a word at most. -/
def Op.tame (arch : Arch) : Op Nat → Bool
  | .push width _ => (width.getD (wordWidth arch)).bytes ≤ (wordWidth arch).bytes
  | op => (op.writes arch).map Prod.fst ≠ some .sp

theorem tame_operationCode (arch : Arch) (start : Nat) (count : Int64) (kind : Kind) :
    ∀ op ∈ operationCode arch start count kind, op.tame arch := by
  rw [← List.all_eq_true]
  cases kind <;> cases arch <;> rfl

theorem tame_blockCode (arch : Arch) (nodes : List Node) (start : Nat) :
    ∀ op ∈ blockCode arch start nodes, op.tame arch := by
  induction nodes using Node.block_induction generalizing start with
  | nil => exact fun op hop => absurd hop List.not_mem_nil
  | loop count children loc rest ihc ihr =>
    have htest : (testOp arch).tame arch := by cases arch <;> rfl
    rw [blockCode, nodeCode]
    simp only [List.mem_append, List.mem_cons, List.not_mem_nil, or_false]
    rintro op ((rfl | hop | rfl | rfl) | hop)
    · rfl
    · exact ihc _ op hop
    · exact htest
    · rfl
    · exact ihr _ op hop
  | operation kind count children loc rest hk ihr =>
    rw [blockCode, nodeCode_operation arch start hk]
    intro op hop
    rcases List.mem_append.mp hop with hop | hop
    · exact tame_operationCode arch start count kind op hop
    · exact ihr _ op hop

theorem tame_code (arch : Arch) (nodes : List Node) : ∀ op ∈ arch.code nodes, op.tame arch := by
  have hpro : (prologueCode arch).all (·.tame arch) := by cases arch <;> rfl
  have hepi : (epilogueOps arch).all (·.tame arch) := by cases arch <;> rfl
  intro op hop
  rw [Arch.code, List.mem_append, List.mem_append] at hop
  rcases hop with (hop | hop) | hop
  · exact List.all_eq_true.mp hpro op hop
  · exact tame_blockCode arch nodes 2 op hop
  · exact List.all_eq_true.mp hepi op hop

/-- The stack pointer is at the lowest mapped address, or there is no room for a word. -/
def Settled (arch : Arch) (rs : Registers) (low : UInt64) : Prop :=
  rs.sp = low ∨ low.toNat < (wordWidth arch).bytes

variable {arch : Arch} {op : Op Nat} {s : State} {rs : Registers} {low : UInt64} {pushes : Nat}

theorem Op.ne_sp_of_writes {r : Reg} {w : Width} (hop : op.tame arch)
    (hw : op.writes arch = some (r, w)) : r ≠ .sp := by
  rintro rfl
  unfold Op.tame at hop
  split at hop
  · cases hw
  · refine absurd ?_ (of_decide_eq_true hop)
    rw [hw]
    rfl

theorem toNat_pushTarget {w : Width} (hw : w.bytes ≤ (wordWidth arch).bytes)
    (htop : s.registers.sp ≤ stackTop) (hroom : (wordWidth arch).bytes ≤ s.registers.sp.toNat) :
    (s.pushTarget arch w).toNat = s.registers.sp.toNat - w.bytes := by
  have hbits : 2 ^ 32 ≤ 2 ^ arch.bits := by cases arch <;> decide
  have hbytes : (UInt64.ofNat w.bytes).toNat = w.bytes := by cases w <;> rfl
  have hstack := toNat_stackTop
  rw [UInt64.le_iff_toNat_le] at htop
  rw [State.pushTarget, toNat_mask, UInt64.toNat_sub_of_le, hbytes, Nat.mod_eq_of_lt (by omega)]
  rw [UInt64.le_iff_toNat_le, hbytes]
  omega

theorem Change.settled (h : Change arch op s rs low pushes) (hop : op.tame arch)
    (htop : s.low ≤ stackTop) (hs : Settled arch s.registers s.low) : Settled arch rs low := by
  by_cases hroom : low.toNat < (wordWidth arch).bytes
  · exact .inr hroom
  -- The stack only grows: if there is room for a word now, there was room before.
  have hle := UInt64.le_iff_toNat_le.mp h.low_le
  have hsp : s.registers.sp = s.low := hs.resolve_right (by omega)
  left
  cases h with
  | keep => exact hsp
  | @write r w v hw =>
    exact (s.registers.get_set_of_ne (Op.ne_sp_of_writes hop hw).symm w v).trans hsp
  | @push width source sp hpush hsp' =>
    subst hpush
    have htame : (width.getD (wordWidth arch)).bytes ≤ (wordWidth arch).bytes :=
      of_decide_eq_true hop
    have hpos : 0 < (width.getD (wordWidth arch)).bytes := by
      cases width.getD (wordWidth arch) <;> decide
    have hlt : sp < s.low := by
      rw [UInt64.lt_iff_toNat_lt, ← hsp', toNat_pushTarget htame (hsp ▸ htop) (by rw [hsp]; omega),
        hsp]
      omega
    exact (if_pos hlt).symm

theorem Compiled.tame {nodes : List Node} {p : Program} (hp : Compiled arch nodes p) :
    ∀ i ∈ p.code, i.op.tame p.arch := by
  intro i hi
  refine hp.mode ▸ tame_code arch nodes i.op ?_
  rw [← hp.code]
  exact List.mem_map_of_mem (Array.mem_toList_iff.mpr hi)

theorem Reaches.settled {p : Program} {position : Nat} {stored : Set UInt64} {text : Bytes}
    {bits : Int64} (loaded : load text bits = .ok p) (hcode : ∀ i ∈ p.code, i.op.tame p.arch)
    (h : Reaches p position s stored) : Settled p.arch s.registers s.low := by
  induction h with
  | fresh => exact .inl rfl
  | streams _ _ _ _ ih => exact ih
  | @step position s stored i hr hi ih =>
    have htame := hcode i (Array.mem_of_getElem? hi)
    exact (change_step p.arch s i position).settled htame (hr.sane loaded).low ih
  | again _ ih => exact ih

/-! ## Runs one after another -/

/-- The state after several runs. Each has its own limit and may be cancelled. -/
def afterRuns (p : Program) (calls : List ((Nat → Bool) × Int64)) (s : State) : State :=
  calls.foldl (fun s call => (run p call.1 call.2 s).2) s

theorem Reaches.afterRuns {p : Program} {position : Nat} {stored : Set UInt64}
    (h : Reaches p position s stored) (calls : List ((Nat → Bool) × Int64)) :
    ∃ position' stored', Reaches p position' (afterRuns p calls s) stored' := by
  induction calls generalizing position s stored with
  | nil => exact ⟨position, stored, h⟩
  | cons call calls ih =>
    obtain ⟨position', stored', -, hr, -⟩ := h.again.runFrom call.1 (stepBudget call.2) 0
    exact ih hr

theorem deliver_append (sink : Option Sink) (a b : Bytes) :
    deliver sink (a ++ b) = deliver (deliver sink a) b :=
  List.foldl_append

theorem Compiled.output_afterRuns {nodes : List Node} {p : Program} {output : Option Sink}
    (hp : Compiled arch nodes p) (hnodes : Runnable nodes)
    (h : ∃ before, s.output = deliver output before) (calls : List ((Nat → Bool) × Int64)) :
    ∃ before, (afterRuns p calls s).output = deliver output before := by
  induction calls generalizing s with
  | nil => exact h
  | cons call calls ih =>
    obtain ⟨before, hb⟩ := h
    -- Two runs from one state offer the same bytes to the same sink.
    have halike : Alike output output s s :=
      ⟨fun _ _ => rfl, rfl, rfl, rfl, rfl, rfl, before, hb, hb⟩
    obtain ⟨written, hw, -⟩ := (hp.alike_run hnodes halike call.1 call.2).2.output
    exact ih ⟨written, hw⟩

/-! ## The tape of the next run -/

/-- The address of a cell in the next run. -/
def State.cellAddress (s : State) (arch : Arch) (q : Int) : Int :=
  s.low.toNat - (wordWidth arch).bytes - 2 * q

/-- The setting of the next run. -/
def Setting.used (arch : Arch) (s : State) (htop : s.low ≤ stackTop)
    (hroom : (wordWidth arch).bytes ≤ s.low.toNat) : Setting where
  arch := arch
  origin := s.low.toNat - (wordWidth arch).bytes
  base := s.pushes + 1
  stdout := s.output
  fits := by
    rw [UInt64.le_iff_toNat_le] at htop
    omega

section

variable (htop : s.low ≤ stackTop) (hroom : (wordWidth arch).bytes ≤ s.low.toNat)

theorem Setting.address_used (q : Int) :
    (Setting.used arch s htop hroom).address q = s.cellAddress arch q := by
  change ((s.low.toNat - (wordWidth arch).bytes : Nat) : Int) - 2 * q = _
  unfold State.cellAddress
  omega

theorem ready_used (hsp : s.registers.sp = s.low) :
    Ready (.used arch s htop hroom) s.remaining s := by
  refine ⟨?_, hsp.symm, rfl, rfl, rfl⟩
  change s.registers.sp.toNat = s.low.toNat - (wordWidth arch).bytes + (wordWidth arch).bytes
  rw [hsp]
  omega

theorem Setting.inRange_used {q : Int} (hlow : 0 ≤ s.cellAddress arch q)
    (hhigh : arch.cellAddress q < 2 ^ arch.bits) :
    (Setting.used arch s htop hroom).InRange q ∧ arch.Addressable q := by
  have hle := UInt64.le_iff_toNat_le.mp htop
  unfold Setting.InRange Arch.Addressable
  rw [address_used]
  change (0 ≤ s.cellAddress arch q ∧ s.cellAddress arch q < 2 ^ arch.bits) ∧ _
  unfold State.cellAddress Arch.cellAddress at *
  omega

end

/-- **A run within bounds has a verdict**, wherever its tape is. -/
theorem Compiled.verdict_of_ready {t : Setting} {source input : Bytes} {nodes : List Node}
    {p : Program} {limit : Int64} (hp : Compiled t.arch nodes p) (hs : Spells source nodes [])
    (h : Ready t input s) (hb : Bounded t.arch nodes input (stepBudget limit))
    (hr : ∀ q, Visits source input (stepBudget limit) q → t.InRange q) :
    Verdict t nodes input (stepBudget limit) (run p Program.never limit s) := by
  rw [run, hp.entry]
  refine verdict_of_run hs.runnable hp.mode hp.code h (.inr hb) fun j hc hlt => ?_
  exact forall_visited hs (fun n _ hn => hr _ (visits_succ hn)) hc hlt

/-- A run that is stopped in a task leaves a state inside it. -/
theorem Compiled.inside_of_atWork {source : Bytes} {nodes : List Node} {p : Program} {j : Nat}
    {limit : Int64} (hp : Compiled arch nodes p) (hs : Spells source nodes [])
    (input : Option Input) (output errors : Option Sink)
    (accesses : ∀ q, Accesses source (inputBytes input) (stepBudget limit) q → arch.firstCell ≤ q)
    (visits : ∀ q, Visits source (inputBytes input) (stepBudget limit) q → arch.Addressable q)
    (htwo : 2 ≤ stepBudget limit) (hj : AtWork nodes (inputBytes input) (stepBudget limit) j) :
    Inside (.fresh arch output) (work nodes (inputBytes input) j)
      (stepBudget limit - (work nodes (inputBytes input) j).elapsed)
      (run p Program.never limit { input, output, errors }).2 := by
  have hb := bounded_of_accesses hs accesses
  have hv := Compiled.verdict_of_ready (t := .fresh arch output) hp hs
    (ready_fresh arch input output errors) hb fun q hq =>
      (Setting.inRange_fresh arch output q).mpr (visits q hq)
  obtain ⟨i, hi, -, hin⟩ := hv.exists_atWork hb htwo
  obtain rfl := hi.unique hs.runnable hj
  exact hin

/-- A run that is stopped after one instruction leaves a word on the stack. -/
theorem Compiled.guarded_of_one {nodes : List Node} {p : Program} {limit : Int64}
    (hp : Compiled arch nodes p) (hnodes : Runnable nodes) (hone : stepBudget limit = 1)
    (input : Option Input) (output errors : Option Sink) :
    Guarded (.fresh arch output) 0 [] (inputBytes input)
      (run p Program.never limit { input, output, errors }).2 := by
  rw [run, hp.entry, hone]
  exact ((verdict_early (t := .fresh arch output) hnodes hp.mode hp.code
    (ready_fresh arch input output errors) one_lt_two).of_one hnodes).2

section

variable {output : Option Sink} {depth : Nat} {written left : Bytes}
  (h : Guarded (.fresh arch output) depth written left s)
include h

theorem Guarded.toNat_low : (s.low.toNat : Int) = arch.cellAddress depth := by
  rw [← Setting.address_fresh arch output, h.low]
  exact h.sp

/-- The tape of the next run begins a word below the last cell of the first one. -/
theorem Guarded.cellAddress (q : Int) :
    s.cellAddress arch q = arch.cellAddress (depth + q) - (wordWidth arch).bytes := by
  rw [State.cellAddress, h.toNat_low]
  unfold Arch.cellAddress
  omega

end

/-- With the same cells in memory a used machine has grown as much as a fresh one. -/
theorem Guarded.growth {output : Option Sink} {htop : s.low ≤ stackTop}
    {hroom : (wordWidth arch).bytes ≤ s.low.toNat} {depth : Nat} {written left : Bytes}
    {s₁ s₂ : State} (h : Guarded (.used arch s htop hroom) depth written left s₁)
    (h' : Guarded (.fresh arch output) depth written left s₂) :
    s₁.pushes = s.pushes + s₂.pushes ∧
      s₁.stackBytes.toNat = s.stackBytes.toNat + s₂.stackBytes.toNat := by
  have hpushes : s₁.pushes = s.pushes + 1 + depth := h.pushes
  have hpushes' : s₂.pushes = 1 + depth := h'.pushes
  have hbytes := h'.stackBytes.2
  have hsp := h.sp
  rw [Setting.address_used, State.cellAddress, ← h.low] at hsp
  have hle := UInt64.le_iff_toNat_le.mp htop
  refine ⟨by omega, ?_⟩
  rw [hbytes, State.stackBytes, State.stackBytes, UInt64.toNat_sub_of_le _ _ htop,
    UInt64.toNat_sub_of_le]
  · omega
  · rw [UInt64.le_iff_toNat_le]
    omega

/-- **The next run of a used machine and the first run of a fresh one.** -/
theorem Compiled.run_used {source : Bytes} {nodes : List Node} {p : Program} {position : Nat}
    {stored : Set UInt64} {limit : Int64} (hp : Compiled arch nodes p) (hs : Spells source nodes [])
    (h : Reaches p position s stored)
    (accesses : ∀ q, Accesses source s.remaining (stepBudget limit) q → arch.firstCell ≤ q)
    (visits : ∀ q, Visits source s.remaining (stepBudget limit) q →
      0 ≤ s.cellAddress arch q ∧ arch.cellAddress q < 2 ^ arch.bits)
    {input : Option Input} (hinput : inputBytes input = s.remaining) (output errors : Option Sink) :
    let r := run p Program.never limit s
    let r' := run p Program.never limit { input, output, errors }
    r.1 = r'.1 ∧ r.2.pushes = s.pushes + r'.2.pushes ∧
      r.2.stackBytes.toNat = s.stackBytes.toNat + r'.2.stackBytes.toNat ∧
      r.2.remaining = r'.2.remaining ∧
      ∃ written, r.2.output = deliver s.output written ∧ r'.2.output = deliver output written := by
  have htop : s.low ≤ stackTop := (h.sane hp.loads).low
  have hroom : (wordWidth arch).bytes ≤ s.low.toNat := by
    have := (visits 0 (visits_zero _ _ _)).1
    unfold State.cellAddress at this
    omega
  have hsp : s.registers.sp = s.low := by
    refine (h.settled hp.loads hp.tame).resolve_right ?_
    rw [hp.mode]
    omega
  have hb := bounded_of_accesses hs accesses
  have hrange := fun q hq => Setting.inRange_used htop hroom (visits q hq).1 (visits q hq).2
  intro r r'
  -- Both runs follow the same run of the tree, and the budget tells where it is at the end.
  have hv : Verdict (.used arch s htop hroom) nodes s.remaining (stepBudget limit) r :=
    Compiled.verdict_of_ready hp hs (ready_used htop hroom hsp) hb fun q hq => (hrange q hq).1
  have hv' : Verdict (.fresh arch output) nodes s.remaining (stepBudget limit) r' :=
    Compiled.verdict_of_ready hp hs (hinput ▸ ready_fresh arch input output errors) hb
      fun q hq => (Setting.inRange_fresh arch output q).mpr (hrange q hq).2
  obtain ⟨-, hresult, depth, written, left, hg, hg'⟩ :=
    hv.agree_of_bounded hv' hs.runnable hb hb (stepBudget_pos limit)
  obtain ⟨hpushes, hbytes⟩ := hg.growth hg'
  exact ⟨hresult.symm, hpushes, hbytes, hg.input.trans hg'.input.symm, written, hg.output,
    hg'.output⟩

end Machine

/-- **A run on a used machine is like the first run on a fresh one** that gets what is left of the
input, if the cells that it visits have an address on both. -/
theorem rerun_starts_afresh {file source : Bytes} {nodes : List Node}
    (short : source.length < 2 ^ 63) (parsed : parse file source = .ok nodes) (arch : Arch) :
    ∃ p, load (arch.listing nodes).text (Int64.ofNat arch.bits) = .ok p ∧
      ∀ (input : Option Input) (output errors : Option Sink) (calls : List ((Nat → Bool) × Int64))
        (limit : Int64),
        let s := afterRuns p calls { input, output, errors }
        (∀ q, Accesses source s.remaining (stepBudget limit) q → arch.firstCell ≤ q) →
        (∀ q, Visits source s.remaining (stepBudget limit) q →
          0 ≤ s.cellAddress arch q ∧ arch.cellAddress q < 2 ^ arch.bits) →
        ∀ (input' : Option Input) (output' errors' : Option Sink),
          inputBytes input' = s.remaining →
          let r := run p Program.never limit s
          let r' := run p Program.never limit
            { input := input', output := output', errors := errors' }
          r.1 = r'.1 ∧ r.2.pushes = s.pushes + r'.2.pushes ∧
            r.2.stackBytes.toNat = s.stackBytes.toNat + r'.2.stackBytes.toNat ∧
            r.2.remaining = r'.2.remaining ∧
            ∃ before written, s.output = deliver output before ∧
              r.2.output = deliver output (before ++ written) ∧
              r'.2.output = deliver output' written ∧
              (output = some {} → s.output.map Sink.contents = some before ∧
                r.2.output.map Sink.contents = some (before ++ written)) ∧
              (output' = some {} → r'.2.output.map Sink.contents = some written) := by
  obtain ⟨p, hp⟩ := exists_compiled short parsed arch
  have hs := spells_of_parse short parsed
  refine ⟨p, hp.loads, fun input output errors calls limit => ?_⟩
  intro s accesses visits input' output' errors' hinput r r'
  have hfresh : Reaches p p.entry { input, output, errors } ∅ :=
    Reaches.fresh.streams input output errors
  obtain ⟨position, stored, hreach⟩ := hfresh.afterRuns calls
  obtain ⟨hresult, hpushes, hbytes, hleft, written, hw, hw'⟩ :=
    hp.run_used hs hreach accesses visits hinput output' errors'
  obtain ⟨before, hbefore⟩ := hp.output_afterRuns hs.runnable ⟨[], rfl⟩ calls
  rw [hbefore, ← deliver_append] at hw
  refine ⟨hresult, hpushes, hbytes, hleft, before, written, hbefore, hw, hw', ?_, ?_⟩
  · rintro rfl
    exact ⟨hbefore ▸ contents_deliver before, hw ▸ contents_deliver (before ++ written)⟩
  · rintro rfl
    exact hw' ▸ contents_deliver written

/-- A run is stopped when the pointer has moved on but the next cell is not yet in memory. The run
after it copies the input as if nothing had been. -/
theorem rerun_starts_afresh_next :
    ∃ nodes p, parse "next" (utf8 ">,.") = .ok nodes ∧
      load (Arch.x86.listing nodes).text 32 = .ok p ∧ ∀ limit,
        let fresh : State := { input := some { chunks := [[7]] }, output := some {} }
        let s := afterRuns p [(Program.never, 3)] fresh
        let r := run p Program.never limit s
        let r' := run p Program.never limit fresh
        r.1 = r'.1 ∧ r.2.pushes = 1 + r'.2.pushes ∧
          r.2.stackBytes.toNat = 4 + r'.2.stackBytes.toNat ∧
          r.2.output.map Sink.contents = r'.2.output.map Sink.contents := by
  have parsed : parse "next" (utf8 ">,.") = .ok
      [{ kind := .moveForward, count := 1, loc := ⟨"next", 1, 1⟩ },
        { kind := .read, loc := ⟨"next", 1, 2⟩ }, { kind := .write, loc := ⟨"next", 1, 3⟩ }] := by
    cbv
  have hs := spells_of_parse (by decide) parsed
  have halted : (trace (utf8 ">,.") [7] 3).code = [] := by decide +kernel
  have hpos := forall_trace_of_halted
    (P := fun c => 0 ≤ c.world.position ∧ c.world.position ≤ 1) halted (by decide +kernel)
  have haccesses : ∀ budget q, Accesses (utf8 ">,.") [7] budget q → Arch.x86.firstCell ≤ q :=
    fun budget q => of_accesses fun n _ => le_trans (by decide) (hpos n).1
  have hvisits : ∀ budget q, Visits (utf8 ">,.") [7] budget q → q = 0 ∨ q = 1 :=
    fun budget q => of_visits (P := fun q => q = 0 ∨ q = 1) fun n => by
      have := hpos n
      omega
  have haddress : ∀ budget q, Visits (utf8 ">,.") [7] budget q → Arch.x86.Addressable q := by
    intro budget q hq
    rcases hvisits budget q hq with rfl | rfl
    · decide
    · decide
  obtain ⟨p, hload, h⟩ := rerun_starts_afresh (by decide) parsed .x86
  obtain ⟨p', hp⟩ := exists_compiled (by decide) parsed .x86
  obtain rfl : p' = p := Except.ok.inj (hp.loads.symm.trans hload)
  refine ⟨_, p', parsed, hload, fun limit => ?_⟩
  intro fresh s r r'
  -- The first run is stopped in the first task, with its first word on the stack.
  have hstop : Guarded (.fresh .x86 (some {})) 0 [] [7] s :=
    hp.inside_of_atWork (j := 0) hs (some { chunks := [[7]] }) (some {}) none
      (haccesses (stepBudget 3)) (haddress _) (by decide)
      ⟨fun i hi => absurd hi (Nat.not_lt_zero i), by decide, fun _ => by decide⟩
  have hremaining : s.remaining = [7] := hstop.input
  have hpushes : s.pushes = 1 := hstop.pushes
  have hbytes : s.stackBytes.toNat = 4 := by
    rw [hstop.stackBytes.2, hpushes]
    rfl
  have hroom : ∀ q, Visits (utf8 ">,.") s.remaining (stepBudget limit) q →
      0 ≤ s.cellAddress .x86 q ∧ Arch.x86.cellAddress q < 2 ^ 32 := by
    intro q hq
    rw [hremaining] at hq
    refine ⟨?_, (haddress _ q hq).2⟩
    rw [hstop.cellAddress]
    rcases hvisits _ q hq with rfl | rfl
    · decide
    · decide
  obtain ⟨hresult, hgrown, hsize, -, before, written, -, -, -, hr, hr'⟩ :=
    h _ _ none [(Program.never, 3)] limit (fun q hq => haccesses _ q (hremaining ▸ hq)) hroom
      (some { chunks := [[7]] }) (some {}) none hremaining.symm
  have hempty : s.output.map Sink.contents = some [] :=
    (congrArg _ hstop.output).trans (contents_deliver [])
  obtain ⟨hbefore, hr⟩ := hr rfl
  obtain rfl : before = [] := Option.some.inj (hbefore.symm.trans hempty)
  exact ⟨hresult, hpushes ▸ hgrown, hbytes ▸ hsize, hr.trans (hr' rfl).symm⟩

/-- The fresh machine has to be mentioned: for this source the addresses of the next run are all in
range, but on a fresh machine one wraps. -/
theorem rerun_wraps_afresh :
    let source := excursion 537395203
    ∃ nodes p, parse "wrap" source = .ok nodes ∧
      load (Arch.x86.listing nodes).text 32 = .ok p ∧
      let fresh : State := { output := some {} }
      let s := afterRuns p [(Program.never, 1)] fresh
      (∀ q, Accesses source s.remaining (stepBudget 100) q → Arch.x86.firstCell ≤ q) ∧
        (∀ q, Visits source s.remaining (stepBudget 100) q →
          0 ≤ s.cellAddress .x86 q ∧ s.cellAddress .x86 q < 2 ^ 32) ∧
        inputBytes fresh.input = s.remaining ∧
        (run p Program.never 100 s).1 = ⟨.ok 0, 10⟩ ∧
        (run p Program.never 100 fresh).1 = ⟨.error .stepLimit, 100⟩ := by
  intro source
  obtain ⟨back, forth, parsed⟩ :=
    exists_parse_excursion (k := 537395203) "wrap" (by decide) (by decide)
  have short : source.length < 2 ^ 63 := by
    rw [length_excursion]
    decide
  have hs := spells_of_parse short parsed
  obtain ⟨p, hp⟩ := exists_compiled short parsed .x86
  refine ⟨_, p, parsed, hp.loads, ?_⟩
  intro fresh s
  have hstop : Guarded (.fresh .x86 (some {})) 0 [] [] s :=
    hp.guarded_of_one hs.runnable (by decide) none (some {}) none
  have hlow : (s.low.toNat : Int) = 3220176892 := hstop.toNat_low
  have haccesses : ∀ q, Accesses source [] (stepBudget 100) q → Arch.x86.firstCell ≤ q := fun q =>
    of_accesses fun n hn => absurd hn (forall_trace_excursion (by decide) [] n).1
  have hvisits : ∀ q, Visits source [] (stepBudget 100) q →
      0 ≤ s.cellAddress .x86 q ∧ s.cellAddress .x86 q < 2 ^ 32 := by
    intro q hq
    obtain ⟨hback, hforth⟩ := of_visits (P := fun q => -537395203 ≤ q ∧ q ≤ 0)
      (fun n => (forall_trace_excursion (by decide) [] n).2) hq
    rw [State.cellAddress, hlow]
    change 0 ≤ 3220176892 - 4 - 2 * q ∧ 3220176892 - 4 - 2 * q < 2 ^ 32
    omega
  have htop : s.low ≤ stackTop := by
    rw [UInt64.le_iff_toNat_le, toNat_stackTop]
    omega
  have hroom : (wordWidth .x86).bytes ≤ s.low.toNat := by
    change 4 ≤ s.low.toNat
    omega
  have hverdict : Verdict (.used .x86 s htop hroom) (excursionTree 537395203 back forth) []
      (stepBudget 100) (run p Program.never 100 s) :=
    Compiled.verdict_of_ready hp hs (hstop.input ▸ ready_used htop hroom hstop.low.symm)
      (bounded_of_accesses hs haccesses) fun q hq => by
        rw [Setting.InRange, Setting.address_used]
        exact hvisits q hq
  have hremaining : s.remaining = [] := hstop.input
  rw [hremaining]
  refine ⟨haccesses, hvisits, rfl, hverdict.excursion (by decide) (by decide) (by decide), ?_⟩
  exact hp.run_wrap 1610088445 (by decide) (by decide) (by decide) (by decide)
    (by decide) (by decide) none (some {}) none

end TapeLang
