import Mathlib.Data.Nat.Digits.Defs
import TapeLang.Proofs.Machine.Assignment
import TapeLang.Proofs.Machine.Execution
import TapeLang.Proofs.Machine.Path

/-!
# Flags and conditional jumps

An operand stands for a number at a width: an immediate for its remainder, a register for its low
bits, memory for its bytes with the lowest first. The carry of a comparison tells which of two such
numbers is less, and its zero flag whether they are equal. Nothing but an operation that computes
flags changes them, so a conditional jump decides what the last of these compared.

* `State.number`, **`toNat_read`**: the numbers that operands stand for.
* `Arith.carries`, `Arith.vanishes`, **`flags_step_arith`**: what an operation does to the flags.
* `Op.keepsFlags`, **`flags_step_of_keepsFlags`**: what leaves the flags as they are.
* `Condition.compares`, **`jump_compares`**: what a conditional jump decides.
-/

namespace TapeLang.Machine

variable {arch : Arch} {s : State} {i : Instr Nat} {position : Nat} {w : Width}
  {source target : Operand Nat}

/-! ## Numbers -/

/-- The unsigned number that an operand stands for at a width. -/
def State.number (s : State) (arch : Arch) (w : Width) : Operand Nat → Nat
  | .immediate n => (n.toInt % 2 ^ (8 * w.bytes)).toNat
  | .register r _ => (s.registers.get r).toNat % 2 ^ (8 * w.bytes)
  | .memory base =>
    Nat.ofDigits 256 ((s.memory.slice (s.address arch base) w.bytes).map UInt8.toNat)
  | .label _ => 0

theorem toInt_emod (n : Int64) (w : Width) :
    (n.toInt % 2 ^ (8 * w.bytes)).toNat = n.toUInt64.toNat % 2 ^ (8 * w.bytes) := by
  have hdvd : (2 ^ (8 * w.bytes) : Int) ∣ 2 ^ 64 := by
    exact_mod_cast w.dvd_two_pow
  have hemod : n.toInt % 2 ^ 64 = n.toUInt64.toNat := by
    change n.toBitVec.toInt % 2 ^ 64 = (n.toBitVec.toNat : Int)
    have := n.toBitVec.isLt
    rw [BitVec.toInt_eq_toNat_cond]
    split <;> omega
  rw [← Int.emod_emod_of_dvd _ hdvd, hemod]
  norm_cast

theorem slice_succ (m : Memory) (a : UInt64) (n : Nat) :
    m.slice a (n + 1) = m.get a :: m.slice (a + 1) n := by
  have hadd : ∀ k, a + UInt64.ofNat (k + 1) = a + 1 + UInt64.ofNat k := by
    intro k
    rw [UInt64.ofNat_add, UInt64.add_assoc, UInt64.add_comm 1]
    rfl
  rw [Memory.slice, Memory.slice, List.range_succ_eq_map, List.map_cons, List.map_map]
  refine congrArg₂ List.cons (congrArg m.get (UInt64.add_zero a)) (List.map_congr_left ?_)
  intro k _
  rw [Function.comp_apply, Nat.succ_eq_add_one, hadd]

/-- Memory is read as a number with the lowest byte first. -/
theorem toNat_load (m : Memory) (a : UInt64) {n : Nat} (hn : n ≤ 8) :
    (m.load a n).toNat = Nat.ofDigits 256 ((m.slice a n).map UInt8.toNat) := by
  induction n generalizing a with
  | zero => rfl
  | succ n ih =>
    have hbyte := (m.get a).toNat_lt
    have hrest : (m.load (a + 1) n).toNat < 2 ^ (8 * n) := Memory.fits_load m (a + 1) n
    -- The shifted number still has room, and its low bits are free for the byte.
    have hroom : (m.load (a + 1) n).toNat * 2 ^ 8 < 2 ^ 64 := by
      have hpow : 2 ^ (8 * n) * 2 ^ 8 ≤ 2 ^ 64 := by
        rw [← Nat.pow_add]
        exact Nat.pow_le_pow_right (by decide) (by omega)
      have := Nat.mul_lt_mul_of_pos_right hrest (show 0 < 2 ^ 8 by decide)
      omega
    rw [slice_succ, List.map_cons, Nat.ofDigits_cons, ← ih (a + 1) (by omega), Memory.load,
      UInt64.toNat_or, UInt64.toNat_shiftLeft, UInt8.toNat_toUInt64,
      show (8 : UInt64).toNat % 64 = 8 from rfl, Nat.shiftLeft_eq, Nat.mod_eq_of_lt hroom,
      ← Nat.shiftLeft_eq, ← Nat.shiftLeft_add_eq_or_of_lt hbyte, Nat.shiftLeft_eq]
    omega

/-- **What is read from an operand is its number.** -/
theorem toNat_read {v : UInt64} (h : s.read arch i w source = .ok v) :
    v.toNat = s.number arch w source := by
  cases source with
  | immediate n =>
    cases h
    rw [w.toNat_mask]
    exact (toInt_emod n w).symm
  | register r =>
    cases h
    exact w.toNat_mask _
  | memory base =>
    rw [State.read_eq, map_eq_ok] at h
    obtain ⟨-, -, rfl⟩ := h
    apply toNat_load
    cases w <;> decide
  | label => cases h

/-! ## Operations -/

/-- Whether an operation on two numbers carries: a sum does not fit the width, or a difference is
negative. -/
def Arith.carries (f : Arith) (w : Width) (u v : Nat) : Bool :=
  match f with
  | .add => 2 ^ (8 * w.bytes) ≤ u + v
  | .sub | .cmp => u < v

/-- Whether the result of an operation on two numbers is zero. -/
def Arith.vanishes (f : Arith) (w : Width) (u v : Nat) : Bool :=
  match f with
  | .add => (u + v) % 2 ^ (8 * w.bytes) = 0
  | .sub | .cmp => u = v

theorem add_mod_lt_iff {u v n : Nat} (hu : u < n) (hv : v < n) : (u + v) % n < u ↔ n ≤ u + v := by
  by_cases h : n ≤ u + v
  · rw [Nat.mod_eq_sub_mod h, Nat.mod_eq_of_lt (by omega)]
    omega
  · rw [Nat.mod_eq_of_lt (by omega)]
    omega

theorem sub_mod_eq_zero_iff {u v n : Nat} (hu : u < n) (hv : v < n) :
    (u + n - v) % n = 0 ↔ u = v := by
  by_cases h : v ≤ u
  · rw [show u + n - v = u - v + n by omega, Nat.add_mod_right, Nat.mod_eq_of_lt (by omega)]
    omega
  · rw [Nat.mod_eq_of_lt (by omega)]
    omega

theorem Arith.carry_apply (f : Arith) {u v : UInt64} (hu : w.Fits u) (hv : w.Fits v) :
    (f.apply w u v).2 = f.carries w u.toNat v.toNat := by
  cases f with
  | add =>
    change decide (w.mask (u + v) < u) = _
    rw [carries, decide_eq_decide, UInt64.lt_iff_toNat_lt]
    have hsum : (w.mask (u + v)).toNat = _ := Arith.add.toNat_apply hv u
    rw [hsum]
    exact add_mod_lt_iff hu hv
  | sub | cmp => exact decide_eq_decide.mpr UInt64.lt_iff_toNat_lt

theorem Arith.zero_apply (f : Arith) {u v : UInt64} (hu : w.Fits u) (hv : w.Fits v) :
    decide ((f.apply w u v).1 = 0) = f.vanishes w u.toNat v.toNat := by
  have hzero : (f.apply w u v).1 = 0 ↔ f.result w u.toNat v.toNat % 2 ^ (8 * w.bytes) = 0 := by
    rw [← UInt64.toNat_inj, f.toNat_apply hv]
    rfl
  rw [decide_eq_decide.mpr hzero]
  cases f with
  | add => rfl
  | sub | cmp => exact decide_eq_decide.mpr (sub_mod_eq_zero_iff hu hv)

/-- The zero flag and the carry flag. -/
def State.flags (s : State) : Bool × Bool := (s.zero, s.carry)

theorem State.flags_write (s : State) (arch : Arch) (w : Width) (target : Operand Nat)
    (v : UInt64) : (s.write arch w target v).flags = s.flags := by
  cases target <;> rfl

theorem flags_stepArith (f : Arith) {u v : UInt64} (hv : s.read arch i w source = .ok v)
    (hu : s.read arch i w target = .ok u) :
    (stepArith s arch i f w source target position).1.flags =
      (decide ((f.apply w u v).1 = 0), (f.apply w u v).2) := by
  simp only [stepArith, hv, hu]
  split_ifs
  · rfl
  · split
    · rfl
    · exact State.flags_write _ arch w target _

/-- **What an operation does to the flags**, also when its result cannot be written. -/
theorem flags_step_arith {f : Arith} {width : Option Width} {u v : UInt64}
    (hop : i.op = .arith f width source target) (hw : operandWidth arch width source target = w)
    (hv : s.read arch i w source = .ok v) (hu : s.read arch i w target = .ok u) :
    (step arch s i position).1.flags =
      (f.vanishes w (s.number arch w target) (s.number arch w source),
        f.carries w (s.number arch w target) (s.number arch w source)) := by
  simp only [step, hop, hw]
  rw [flags_stepArith f hv hu, f.zero_apply (State.fits_read hu) (State.fits_read hv),
    f.carry_apply (State.fits_read hu) (State.fits_read hv), toNat_read hu, toNat_read hv]

/-! ## Other instructions -/

/-- Whether an instruction is none of those that compute flags. -/
def Op.keepsFlags : Op Nat → Bool
  | .arith _ _ _ _ => false
  | .push _ _ | .mov _ _ _ | .jump _ _ | .syscall | .interrupt _ => true

theorem Answer.flags_eq {a : UInt64} {count : Int64} {answer : Except RunError Int64 × State}
    (h : Answer s i a count answer) (arch : Arch) (position : Nat) :
    (afterCall arch position answer).1.flags = s.flags := by
  cases h <;> rfl

theorem flags_systemCall :
    (systemCall s arch i position).1.flags = s.flags := by
  by_cases hexit : s.address arch .ax = (callTable arch).exit
  · rw [systemCall_exit i hexit]
  by_cases hread : s.address arch .ax = (callTable arch).read
  · rw [systemCall_read i hread]
    exact (answer_callRead s i _ _ _).flags_eq arch position
  by_cases hwrite : s.address arch .ax = (callTable arch).write
  · rw [systemCall_write i hwrite]
    exact (answer_callWrite s i _ _ _).flags_eq arch position
  · rw [systemCall_unknown hexit hread hwrite]

theorem flags_stepPush : (stepPush s arch i w source position).1.flags = s.flags := by
  rw [stepPush_eq]
  split
  · rfl
  · split <;> rfl

theorem flags_stepMov : (stepMov s arch i w source target position).1.flags = s.flags := by
  unfold stepMov
  split
  · rfl
  · split
    · rfl
    · exact s.flags_write arch w target _

/-- **Any other instruction leaves the flags as they are.** -/
theorem flags_step_of_keepsFlags (h : i.op.keepsFlags) :
    (step arch s i position).1.flags = s.flags := by
  unfold step
  cases hop : i.op with
  | push => exact flags_stepPush
  | mov => exact flags_stepMov
  | arith => cases hop ▸ h
  | jump => rfl
  | syscall =>
    cases arch with
    | amd64 => exact flags_systemCall
    | x86 => rfl
  | interrupt vector =>
    dsimp only
    split_ifs
    · exact flags_systemCall
    · rfl

/-! ## Conditional jumps -/

/-- Whether a condition is true of the target and the source of a comparison. -/
def Condition.compares (u v : Nat) : Condition → Bool
  | .always => true
  | .equal => u = v
  | .notEqual => u ≠ v
  | .above => v < u
  | .aboveOrEqual => v ≤ u
  | .below => u < v
  | .belowOrEqual => u ≤ v

/-- The two flags of a comparison are enough to decide every condition. -/
theorem Condition.holds_compared (c : Condition) (w : Width) (u v : Nat) :
    c.holds (Arith.cmp.vanishes w u v) (Arith.cmp.carries w u v) = c.compares u v := by
  have hzero : Arith.cmp.vanishes w u v = decide (u = v) := rfl
  have hcarry : Arith.cmp.carries w u v = decide (u < v) := rfl
  rw [hzero, hcarry]
  cases c with
  | always | equal | below => rfl
  | notEqual => simp [holds, compares]
  | aboveOrEqual =>
    rw [holds, compares, ← decide_not]
    exact decide_eq_decide.mpr Nat.not_lt
  | above | belowOrEqual =>
    rw [holds, compares, Bool.eq_iff_iff]
    simp
    omega

variable {p : Program} {a b : Point} {n : Nat}

theorem exists_step_of_after (h : p.after (n + 1) a = some b) :
    ∃ i c, p.code[a.position]? = some i ∧
      step p.arch a.state i a.position = (c.state, .goto c.position) ∧
      ∀ m, p.after (m + 1) a = p.after m c := by
  rw [Program.after, Option.bind_eq_some_iff] at h
  obtain ⟨c, hc, -⟩ := h
  obtain ⟨i, hi, hs⟩ := Program.step_of_next? hc
  refine ⟨i, c, hi, hs, fun m => ?_⟩
  rw [Program.after, hc]
  rfl

theorem flags_after (h : p.after n a = some b)
    (hkeep : ∀ m < n, ∀ c j, p.after m a = some c → p.code[c.position]? = some j →
      j.op.keepsFlags) :
    b.state.flags = a.state.flags := by
  induction n generalizing a with
  | zero =>
    cases h
    rfl
  | succ n ih =>
    obtain ⟨i, c, hi, hs, hafter⟩ := exists_step_of_after h
    have hfirst : (step p.arch a.state i a.position).1.flags = a.state.flags :=
      flags_step_of_keepsFlags (hkeep 0 (Nat.succ_pos n) a i rfl hi)
    rw [hs] at hfirst
    rw [← hfirst]
    refine ih ((hafter n).symm.trans h) fun m hm d j hd => ?_
    exact hkeep (m + 1) (Nat.succ_lt_succ hm) d j ((hafter m).trans hd)

theorem exists_read_of_step_arith {f : Arith} {width : Option Width} {s' : State} {target' : Nat}
    (hop : i.op = .arith f width source target) (hw : operandWidth arch width source target = w)
    (h : step arch s i position = (s', .goto target')) :
    ∃ u v, s.read arch i w target = .ok u ∧ s.read arch i w source = .ok v := by
  simp only [step, hop, hw, stepArith] at h
  split at h
  · cases h
  · next v hv =>
    split at h
    · cases h
    · next u hu => exact ⟨u, v, hu, hv⟩

/-- **A conditional jump decides what was compared last**, as unsigned numbers of its width,
whatever has happened to the operands since. -/
theorem jump_compares (p : Program) :
    (∀ s i position f width source target, i.op = .arith f width source target →
      let w := operandWidth p.arch width source target
      let u := s.number p.arch w target
      let v := s.number p.arch w source
      (∃ a, s.read p.arch i w target = .ok a) → (∃ b, s.read p.arch i w source = .ok b) →
      (step p.arch s i position).1.flags = (f.vanishes w u v, f.carries w u v)) ∧
    (∀ s i position, i.op.keepsFlags → (step p.arch s i position).1.flags = s.flags) ∧
    ∀ a b n i width source target j c goal, p.code[a.position]? = some i →
      i.op = .arith .cmp width source target → p.after (n + 1) a = some b →
      (∀ m < n, ∀ d k, p.after (m + 1) a = some d → p.code[d.position]? = some k →
        k.op.keepsFlags) →
      p.code[b.position]? = some j → j.op = .jump c goal →
      let w := operandWidth p.arch width source target
      let u := a.state.number p.arch w target
      let v := a.state.number p.arch w source
      let next := if c.compares u v then goal.target else b.position + 1
      step p.arch b.state j b.position = (b.state, .goto next) ∧
        ∀ budget steps, runFrom p Program.never (n + 1 + (budget + 1)) steps a.position a.state =
          runFrom p Program.never budget (steps + (n + 1) + 1) next b.state := by
  refine ⟨?_, fun s i position h => flags_step_of_keepsFlags h, ?_⟩
  · rintro s i position f width source target hop w u v ⟨x, hx⟩ ⟨y, hy⟩
    exact flags_step_arith hop rfl hy hx
  · intro a b n i width source target j c goal hi hop hb hkeep hj hjump w u v next
    obtain ⟨i', d, hi', hs, hafter⟩ := exists_step_of_after hb
    obtain rfl : i = i' := Option.some.inj (hi.symm.trans hi')
    obtain ⟨x, y, hx, hy⟩ := exists_read_of_step_arith hop rfl hs
    have hcompared : (step p.arch a.state i a.position).1.flags =
        (Arith.cmp.vanishes w u v, Arith.cmp.carries w u v) :=
      flags_step_arith hop rfl hy hx
    rw [hs] at hcompared
    have hkept : b.state.flags = d.state.flags :=
      flags_after ((hafter n).symm.trans hb) fun m hm e k he => hkeep m hm e k ((hafter m).trans he)
    obtain ⟨hzero, hcarry⟩ := Prod.mk.inj (hkept.trans hcompared)
    have hstep : step p.arch b.state j b.position = (b.state, .goto next) := by
      simp only [step, hjump]
      rw [hzero, hcarry, c.holds_compared w u v]
    refine ⟨hstep, fun budget steps => ?_⟩
    rw [Program.runFrom_of_after hb]
    exact Program.runFrom_of_next? (Program.next?_of_step hj hstep) _ _

/-- A comparison with a negative number at 16 bits, and a jump below a move that changes what was
compared. -/
def compareNegative : Program where
  arch := .amd64
  code := #[⟨.arith .cmp none (.immediate (-1)) (.register .ax .word), 2, utf8 "cmp $-1, %ax"⟩,
    ⟨.mov none (.immediate 0) (.register .ax .quad), 3, utf8 "mov $0, %rax"⟩,
    ⟨.jump .equal (.label 5), 4, utf8 "je far"⟩]
  entry := 0

/-- The low bits of the register were those of the number, so the jump is taken, although the
register is zero by then. -/
theorem jump_compares_negative :
    let a : Point := ⟨0, { registers := { ax := 0x1ffff } }⟩
    ∃ b j, compareNegative.after 2 a = some b ∧ b.state.registers.ax = 0 ∧
      compareNegative.code[b.position]? = some j ∧ j.op = .jump .equal (.label 5) ∧
      step .amd64 b.state j b.position = (b.state, .goto 5) := by
  intro a
  obtain ⟨b, j, hb, hax, hj, hop⟩ : ∃ b j, compareNegative.after 2 a = some b ∧
      b.state.registers.ax = 0 ∧ compareNegative.code[b.position]? = some j ∧
      j.op = .jump .equal (.label 5) :=
    ⟨_, _, rfl, rfl, rfl, rfl⟩
  have hkeep : ∀ m < 1, ∀ d k, compareNegative.after (m + 1) a = some d →
      compareNegative.code[d.position]? = some k → k.op.keepsFlags := by
    intro m hm d k hd hk
    obtain rfl : m = 0 := Nat.lt_one_iff.mp hm
    obtain rfl : _ = d := Option.some.inj hd
    obtain rfl : _ = k := Option.some.inj hk
    rfl
  have hequal : Condition.equal.compares (a.state.number .amd64 .word (.register .ax .word))
      (a.state.number .amd64 .word (.immediate (-1))) = true := by decide
  obtain ⟨-, -, hjump⟩ := jump_compares compareNegative
  have hstep := (hjump a b 1 _ _ _ _ j _ _ rfl rfl hb hkeep hj hop).1
  refine ⟨b, j, hb, hax, hj, hop, hstep.trans ?_⟩
  exact congrArg (fun next => (b.state, Next.goto next)) (if_pos hequal)

end TapeLang.Machine
