import TapeLang.Proofs.Listing.Labels
import TapeLang.Proofs.Reference.Agreement
import TapeLang.Proofs.Simulation.Verdict

/-!
# Compiled programs on a fresh machine

A source that parses is compiled, loaded and run on a machine whose stack is empty. The run of the
source tells how the run on the machine ends.

* `Arch.cellAddress`, `Arch.Addressable`: where the cells of a fresh machine are.
* `Account.OutOfBounds`: an access that the machine does not allow.
* `Ranged`: the cells that a run visits have addresses.
* `Compiled`: the program of a tree.
* **`exists_compiled`**: the listing of a parsed source is loaded.
* **`Compiled.verdict`**: every run of a compiled program has a verdict or is cancelled.
-/

namespace TapeLang

open Assembly Machine Reference

/-! ## Cells of a fresh machine -/

/-- The address of a cell. -/
def Arch.cellAddress (arch : Arch) (p : Int) : Int :=
  stackTop.toNat - (wordWidth arch).bytes - 2 * p

/-- The address of a cell is one that a register can hold. -/
def Arch.Addressable (arch : Arch) (p : Int) : Prop :=
  0 ≤ arch.cellAddress p ∧ arch.cellAddress p < 2 ^ arch.bits

instance (arch : Arch) (p : Int) : Decidable (arch.Addressable p) :=
  inferInstanceAs (Decidable (_ ∧ _))

namespace Reference

/-- The byte ahead accesses a cell before the first word of the stack. -/
def Account.OutOfBounds (a : Account) (arch : Arch) : Prop :=
  a.config.accesses ∧ a.config.world.position < arch.firstCell

instance (a : Account) (arch : Arch) : Decidable (a.OutOfBounds arch) :=
  inferInstanceAs (Decidable (_ ∧ _))

/-- No access is out of bounds up to a byte, that byte included. -/
def Unhurt (arch : Arch) (source input : Bytes) (n : Nat) : Prop :=
  ∀ i ≤ n, ¬ (account source input i).OutOfBounds arch

/-- Every cell that is visited within so many instructions has an address. -/
def Ranged (arch : Arch) (source input : Bytes) (budget : Nat) : Prop :=
  ∀ n, Unhurt arch source input n → (account source input n).elapsed < budget →
    arch.Addressable (account source input (n + 1)).config.world.position

theorem Ranged.mono {arch : Arch} {source input : Bytes} {budget budget' : Nat}
    (h : Ranged arch source input budget) (hb : budget' ≤ budget) :
    Ranged arch source input budget' :=
  fun n hn he => h n hn (he.trans_le hb)

variable {arch : Arch} {source input : Bytes} {nodes : List Node} {i j : Nat}

/-- A byte that is out of bounds belongs to a task that is. -/
theorem Within.not_inBounds (h : Within (account source input i) (work nodes input j))
    (hout : (account source input i).OutOfBounds arch) :
    ¬ InBounds arch (work nodes input j) := by
  obtain ⟨hacc, -, hpos⟩ := h.access hout.1
  exact not_inBounds_iff.mpr ⟨hacc, hpos ▸ hout.2⟩

theorem exists_outOfBounds (h : Spells source nodes [])
    (hb : ¬ InBounds arch (work nodes input j)) :
    ∃ n, Within (account source input n) (work nodes input j) ∧
      (account source input n).OutOfBounds arch := by
  obtain ⟨hacc, hpos⟩ := not_inBounds_iff.mp hb
  obtain ⟨n, hw, ha⟩ := exists_access h hacc
  refine ⟨n, hw, ha, ?_⟩
  rw [(hw.access ha).2.2]
  exact hpos

end Reference

namespace Machine

/-- The setting of a fresh machine. -/
def Setting.fresh (arch : Arch) (stdout : Option Sink) : Setting where
  arch := arch
  origin := stackTop.toNat - (wordWidth arch).bytes
  base := 1
  stdout := stdout
  fits := by cases arch <;> decide

theorem Setting.origin_fresh (arch : Arch) (stdout : Option Sink) :
    (fresh arch stdout).origin + (wordWidth arch).bytes = stackTop.toNat := by
  cases arch <;> rfl

theorem Setting.address_fresh (arch : Arch) (stdout : Option Sink) (p : Int) :
    (fresh arch stdout).address p = arch.cellAddress p := by
  have := origin_fresh arch stdout
  unfold Setting.address Arch.cellAddress
  omega

theorem Setting.inRange_fresh (arch : Arch) (stdout : Option Sink) (p : Int) :
    (fresh arch stdout).InRange p ↔ arch.Addressable p := by
  unfold Setting.InRange Arch.Addressable
  rw [address_fresh]
  rfl

theorem ready_fresh (arch : Arch) (input : Option Input) (output errors : Option Sink) :
    Ready (.fresh arch output) (inputBytes input) { input, output, errors } :=
  ⟨(Setting.origin_fresh arch output).symm, rfl, rfl, rfl, rfl⟩

/-- The program of a tree. -/
structure Compiled (arch : Arch) (nodes : List Node) (p : Program) : Prop where
  loads : load (arch.listing nodes).text (Int64.ofNat arch.bits) = .ok p
  mode : p.arch = arch
  entry : p.entry = 0
  code : p.code.toList.map Instr.op = arch.code nodes

/-- **The listing of a parsed source is loaded** as the program of its tree. -/
theorem exists_compiled {file source : Bytes} {nodes : List Node}
    (short : source.length < 2 ^ 63) (parsed : parse file source = .ok nodes) (arch : Arch) :
    ∃ p, Compiled arch nodes p := by
  obtain ⟨lines, hl, hw, hm⟩ := written_of_parse arch short parsed
  obtain ⟨p, hload, harch, hentry, hcode⟩ := load_of_written arch hl hw hm
  exact ⟨p, hload, harch, hentry, hcode⟩

variable {arch : Arch} {source : Bytes} {nodes : List Node} {p : Program} {budget j : Nat}

theorem forall_visited {bytes : Bytes} {P : Int → Prop} (h : Spells source nodes [])
    (hr : ∀ n, Unhurt arch source bytes n → (account source bytes n).elapsed < budget →
      P (account source bytes (n + 1)).config.world.position)
    (hc : Clear arch nodes bytes (j + 1)) (hlt : (work nodes bytes j).elapsed < budget) :
    P (work nodes bytes (j + 1)).world.position := by
  obtain ⟨n, hn⟩ := exists_ends h bytes (hc j (Nat.lt_succ_self j)).1
  have hunhurt : Unhurt arch source bytes n := by
    intro i hi hout
    obtain ⟨k, hk, hcov⟩ := hn.within i hi
    exact hcov.not_inBounds hout (hc k (Nat.lt_succ_of_le hk)).2
  have := hr n hunhurt (hn.elapsed ▸ hlt)
  rw [hn.tracks.eq] at this
  exact this

/-- **Every run of a compiled program has a verdict or is cancelled**; then it ends like a run with
a smaller budget. -/
theorem Compiled.verdict (hp : Compiled arch nodes p) (h : Spells source nodes [])
    (cancelled : Nat → Bool) (input : Option Input) (output errors : Option Sink)
    (hr : Ranged arch source (inputBytes input) budget) :
    let r := runFrom p cancelled budget 0 p.entry { input, output, errors }
    Verdict (.fresh arch output) nodes (inputBytes input) budget r ∨
      ∃ k ≤ budget, ∃ s, cancelled k = true ∧ r = (⟨.error .cancelled, k⟩, s) ∧
        Verdict (.fresh arch output) nodes (inputBytes input) k (⟨.error .stepLimit, k⟩, s) := by
  intro r
  have hverdict : ∀ k ≤ budget, Verdict (.fresh arch output) nodes (inputBytes input) k
      (runFrom p Program.never k 0 p.entry { input, output, errors }) := by
    intro k hk
    rw [hp.entry]
    refine verdict_of_run h.runnable hp.mode hp.code (ready_fresh arch input output errors)
      (.inl (Setting.origin_fresh arch output)) fun j hc hlt => ?_
    exact (Setting.inRange_fresh arch output _).mpr (forall_visited h (hr.mono hk) hc hlt)
  rcases Program.runFrom_cancelled p cancelled budget 0 p.entry { input, output, errors } with
    he | ⟨k, hk, s, hc, he, hs⟩
  · left
    change Verdict _ _ _ _ (runFrom p cancelled budget 0 p.entry _)
    rw [he]
    exact hverdict budget le_rfl
  · right
    rw [Nat.zero_add] at hc he hs
    exact ⟨k, hk, s, hc, he, hs ▸ hverdict k hk⟩

end Machine

end TapeLang
