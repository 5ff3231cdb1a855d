import Mathlib.Data.List.Basic
import TapeLang.Proofs.Listing.Code
import TapeLang.Proofs.Machine.Cells
import TapeLang.Proofs.Reference.Tasks

/-!
# The tape on the stack

The tape lies on the stack upside down: the further a cell is, the lower its address. The first
word that is pushed holds the first cell and the few cells before it; every later push adds one
cell. The stack pointer is always the lowest address that is mapped.

* `Setting`: where the tape is and what the run started from.
* `Guarded`: the stack of a state, and its streams.
* `Holds`: a state holds a tape.
* **`Holds.write_cell`**, **`Holds.push`**: the tape is written to and grows.
* `Holds.check_fault`: a cell before the first word cannot be accessed.
-/

namespace TapeLang

/-- The first cell in the word that is pushed first. -/
def Arch.firstCell (arch : Arch) : Int :=
  1 - ((Machine.wordWidth arch).bytes : Int) / 2

theorem Arch.firstCell_neg (arch : Arch) : arch.firstCell < 0 := by
  cases arch <;> decide

theorem Arch.bits_eq (arch : Arch) : arch.bits = 64 ∨ arch.bits = 32 := by
  cases arch <;> decide

namespace Machine

open Assembly Reference

-- What a store does is said by lemmas; unfolding it evaluates the bound of the array.
attribute [local irreducible] Memory.store Memory.set

theorem toNat_stackTop : stackTop.toNat = 0xbff00000 := rfl

/-! ## Numbers in registers -/

theorem toNat_mask (arch : Arch) (v : UInt64) :
    ((wordWidth arch).mask v).toNat = v.toNat % 2 ^ arch.bits := by
  cases arch with
  | amd64 => exact (Nat.mod_eq_of_lt v.toNat_lt).symm
  | x86 =>
    change (v &&& 0xffffffff).toNat = _
    rw [UInt64.toNat_and]
    exact Nat.and_two_pow_sub_one_eq_mod v.toNat 32

theorem toNat_toUInt64 {count : Int64} (h : 0 ≤ count.toInt) :
    count.toUInt64.toNat = Node.repeats count := by
  have := count.toUInt64.toNat_lt
  change 0 ≤ count.toBitVec.toInt at h
  change count.toBitVec.toNat = count.toBitVec.toInt.toNat
  rw [BitVec.toInt_eq_toNat_cond] at *
  split at h <;> omega

theorem Registers.get_set (rs : Registers) (arch : Arch) (r r' : Reg) (v : UInt64) :
    (rs.set r (wordWidth arch) v).get r' =
      if r' = r then (wordWidth arch).mask v else rs.get r' := by
  cases arch <;> exact get_put rs r r' _

/-- Writes a register as wide as a word. -/
def State.setReg (s : State) (arch : Arch) (r : Reg) (v : UInt64) : State :=
  { s with registers := s.registers.set r (wordWidth arch) v }

theorem State.get_setReg (s : State) (arch : Arch) (r r' : Reg) (v : UInt64) :
    (s.setReg arch r v).registers.get r' =
      if r' = r then (wordWidth arch).mask v else s.registers.get r' :=
  s.registers.get_set arch r r' v

theorem mask_mask (arch : Arch) (v : UInt64) :
    (wordWidth arch).mask ((wordWidth arch).mask v) = (wordWidth arch).mask v := by
  refine UInt64.toNat_inj.mp ?_
  rw [toNat_mask, toNat_mask, Nat.mod_mod]

theorem pointer_ne_sp (arch : Arch) : pointer arch ≠ .sp := by
  cases arch <;> decide

/-! ## Streams -/

/-- Offers bytes to a stream one by one. -/
def deliver (sink : Option Sink) (bytes : Bytes) : Option Sink :=
  bytes.foldl (fun sink b => (offer sink [b] 1).2) sink

/-- The bytes of an input stream; without a stream there are none. -/
def inputBytes : Option Input → Bytes
  | none => []
  | some input => input.chunks.flatten

/-- What is left of the input. -/
def State.remaining (s : State) : Bytes := inputBytes s.input

theorem deliver_concat (sink : Option Sink) (bytes : Bytes) (b : UInt8) :
    deliver sink (bytes ++ [b]) = (offer (deliver sink bytes) [b] 1).2 :=
  List.foldl_append

theorem deliver_unlimited (received : Array UInt8) (bytes : Bytes) :
    deliver (some { received }) bytes = some { received := received ++ bytes } := by
  induction bytes generalizing received with
  | nil => simp [deliver]
  | cons b bytes ih =>
    have h := ih (received ++ [b])
    rw [deliver] at h ⊢
    rw [List.foldl_cons]
    refine h.trans ?_
    simp

theorem contents_deliver (bytes : Bytes) :
    (deliver (some {}) bytes).map Sink.contents = some bytes := by
  rw [deliver_unlimited]
  simp [Sink.contents]

theorem readChunks_none {chunks : List Bytes} (h : chunks.flatten = []) :
    Input.readChunks 1 chunks = none := by
  induction chunks with
  | nil => rfl
  | cons chunk chunks ih =>
    obtain ⟨rfl, hc⟩ := List.append_eq_nil_iff.mp (List.flatten_cons ▸ h)
    rw [Input.readChunks, ih hc]

theorem readChunks_some {chunks : List Bytes} {b : UInt8} {rest : Bytes}
    (h : chunks.flatten = b :: rest) :
    ∃ chunks', Input.readChunks 1 chunks = some ([b], chunks') ∧ chunks'.flatten = rest := by
  induction chunks with
  | nil => cases h
  | cons chunk chunks ih =>
    rcases chunk with _ | ⟨b', _ | ⟨b'', left⟩⟩
    · exact ih h
    · cases h
      exact ⟨chunks, rfl, rfl⟩
    · cases h
      exact ⟨(b'' :: left) :: chunks, rfl, rfl⟩

theorem readInput_end {s : State} (h : s.remaining = []) (a : UInt64) :
    ∃ result input, readInput s a 1 = (result, { s with input }) ∧
      (result = 0 ∨ result = ioFailure) ∧ State.remaining { s with input } = [] := by
  rcases s with ⟨rs, zero, carry, m, low, pushes, _ | input, output, errors⟩
  · exact ⟨0, none, rfl, .inl rfl, rfl⟩
  · refine ⟨if input.failing then ioFailure else 0, some { input with chunks := [] }, ?_, ?_, rfl⟩
    · rw [readInput]
      simp only [readChunks_none h]
      rfl
    · split
      · exact .inr rfl
      · exact .inl rfl

theorem readInput_byte {s : State} {b : UInt8} {rest : Bytes} (h : s.remaining = b :: rest)
    (a : UInt64) :
    ∃ input, readInput s a 1 = (1, { s with memory := s.memory.set a b, input }) ∧
      ∀ m, State.remaining { s with memory := m, input } = rest := by
  rcases s with ⟨rs, zero, carry, m, low, pushes, _ | input, output, errors⟩
  · cases h
  · obtain ⟨chunks', hread, hrest⟩ := readChunks_some h
    refine ⟨some { input with chunks := chunks' }, ?_, fun _ => hrest⟩
    rw [readInput]
    simp only [hread]
    rfl

/-! ## Settings -/

/-- Where the tape of a run is, and what the run started from. -/
structure Setting where
  arch : Arch
  /-- The address of the first cell. -/
  origin : Nat
  /-- The pushes after the first word. -/
  base : Nat
  stdout : Option Sink
  fits : origin + (wordWidth arch).bytes ≤ stackTop.toNat

namespace Setting

variable (t : Setting)

/-- The address of a cell. -/
def address (p : Int) : Int := t.origin - 2 * p

/-- A cell has an address. -/
def InRange (p : Int) : Prop := 0 ≤ t.address p ∧ t.address p < 2 ^ t.arch.bits

/-- The address of a cell, in a register. -/
def cellAt (p : Int) : UInt64 := UInt64.ofNat (t.address p).toNat

theorem toNat_cellAt {p : Int} (h : t.InRange p) : ((t.cellAt p).toNat : Int) = t.address p := by
  have hb : (2 : Int) ^ t.arch.bits ≤ 2 ^ 64 := by cases t.arch <;> decide
  have := h.1
  have := h.2
  rw [cellAt, UInt64.toNat_ofNat_of_lt' (show _ < 2 ^ 64 by omega)]
  omega

theorem eq_address {p : Int} (h : t.InRange p) {v : Nat}
    (hv : ((v : Int) - t.address p) % 2 ^ t.arch.bits = 0) :
    ((v % 2 ^ t.arch.bits : Nat) : Int) = t.address p := by
  obtain ⟨hlow, hhigh⟩ := h
  have hb := t.arch.bits_eq
  rcases hb with hb | hb <;>
  · rw [hb] at hv hhigh ⊢
    omega

end Setting

/-! ## Tapes -/

/-- The stack pointer is the lowest mapped address, with so many cells after the first, and the
streams have come so far. -/
structure Guarded (t : Setting) (depth : Nat) (output input : Bytes) (s : State) : Prop where
  sp : (s.registers.sp.toNat : Int) = t.address depth
  low : s.low = s.registers.sp
  pushes : s.pushes = t.base + depth
  output : s.output = deliver t.stdout output
  input : s.remaining = input

/-- A state holds a tape, with so many cells after the first in memory. -/
structure Holds (t : Setting) (w : World) (depth : Nat) (s : State) : Prop where
  guarded : Guarded t depth w.output w.input s
  pointer : s.registers.get (pointer t.arch) = t.cellAt w.position
  range : t.InRange w.position
  cells : ∀ q, t.arch.firstCell ≤ q → q ≤ depth → s.memory.cell (t.cellAt q) = w.cells q
  blank : ∀ q : Int, depth < q → w.cells q = 0

variable {t : Setting} {w : World} {depth : Nat} {output input : Bytes} {s : State}

theorem Guarded.setReg (h : Guarded t depth output input s) {r : Reg} (hr : r ≠ .sp) (v : UInt64) :
    Guarded t depth output input (s.setReg t.arch r v) := by
  have hsp : (s.setReg t.arch r v).registers.sp = s.registers.sp := by
    change (s.registers.set r (wordWidth t.arch) v).get .sp = _
    rw [Registers.get_set, if_neg hr.symm]
    rfl
  exact ⟨hsp ▸ h.sp, hsp ▸ h.low, h.pushes, h.output, h.input⟩

theorem Guarded.flags (h : Guarded t depth output input s) (zero carry : Bool) :
    Guarded t depth output input { s with zero, carry } :=
  ⟨h.sp, h.low, h.pushes, h.output, h.input⟩

theorem Guarded.memory (h : Guarded t depth output input s) (memory : Memory) :
    Guarded t depth output input { s with memory } :=
  ⟨h.sp, h.low, h.pushes, h.output, h.input⟩

theorem Holds.setReg (h : Holds t w depth s) {r : Reg} (hr : r ≠ .sp)
    (hp : r ≠ Assembly.pointer t.arch) (v : UInt64) : Holds t w depth (s.setReg t.arch r v) := by
  refine ⟨h.guarded.setReg hr v, ?_, h.range, h.cells, h.blank⟩
  change (s.registers.set r (wordWidth t.arch) v).get _ = _
  rw [Registers.get_set, if_neg hp.symm]
  exact h.pointer

theorem Holds.flags (h : Holds t w depth s) (zero carry : Bool) :
    Holds t w depth { s with zero, carry } :=
  ⟨h.guarded.flags zero carry, h.pointer, h.range, h.cells, h.blank⟩

theorem Holds.move (h : Holds t w depth s) {distance : Int} {v : UInt64}
    (hr : t.InRange (w.position + distance))
    (hv : ((v.toNat : Int) - t.address (w.position + distance)) % 2 ^ t.arch.bits = 0) :
    Holds t (w.move distance) depth (s.setReg t.arch (Assembly.pointer t.arch) v) := by
  refine ⟨h.guarded.setReg (pointer_ne_sp t.arch) v, ?_, hr, h.cells, h.blank⟩
  change (s.registers.set _ (wordWidth t.arch) v).get _ = t.cellAt (w.position + distance)
  rw [Registers.get_set, if_pos rfl]
  refine UInt64.toNat_inj.mp (Int.natCast_inj.mp ?_)
  rw [toNat_mask, t.eq_address hr hv, t.toNat_cellAt hr]

/-! ## Accesses -/

theorem bytes_of_wordWidth (arch : Arch) :
    ((wordWidth arch).bytes : Int) = 2 - 2 * arch.firstCell ∧ 4 ≤ (wordWidth arch).bytes := by
  cases arch <;> decide

/-- A cell that is in memory has an address below the top of the stack. -/
theorem Guarded.inRange (h : Guarded t depth output input s) {q : Int}
    (hf : t.arch.firstCell ≤ q) (hd : q ≤ depth) :
    t.InRange q ∧ t.address q + 2 ≤ stackTop.toNat ∧
      (s.registers.sp.toNat : Int) ≤ t.address q := by
  have hsp := h.sp
  have hfits := t.fits
  have htop := toNat_stackTop
  have hbits : (2 : Int) ^ 32 ≤ 2 ^ t.arch.bits := by cases t.arch <;> decide
  have := bytes_of_wordWidth t.arch
  unfold Setting.InRange
  unfold Setting.address at *
  omega

/-- Cells in memory do not overlap. -/
theorem Guarded.apart (h : Guarded t depth output input s) {p q : Int}
    (hp : t.arch.firstCell ≤ p) (hpd : p ≤ depth) (hq : t.arch.firstCell ≤ q) (hqd : q ≤ depth) :
    (q ≠ p → t.cellAt q ≠ t.cellAt p) ∧ t.cellAt q + 1 ≠ t.cellAt p ∧
      t.cellAt q ≠ t.cellAt p + 1 := by
  obtain ⟨hrp, htp, -⟩ := h.inRange hp hpd
  obtain ⟨hrq, htq, -⟩ := h.inRange hq hqd
  have hcp := t.toNat_cellAt hrp
  have hcq := t.toNat_cellAt hrq
  have htop := toNat_stackTop
  have hone : (1 : UInt64).toNat = 1 := rfl
  unfold Setting.address at hcp hcq htp htq
  refine ⟨fun hne he => ?_, fun he => ?_, fun he => ?_⟩
  · have hn := congrArg UInt64.toNat he
    omega
  · have hn := congrArg UInt64.toNat he
    rw [UInt64.toNat_add, hone] at hn
    omega
  · have hn := congrArg UInt64.toNat he
    rw [UInt64.toNat_add, hone] at hn
    omega

theorem State.mapped_of_le {a size : UInt64} (hl : s.low ≤ a)
    (ht : a.toNat + size.toNat ≤ stackTop.toNat) : s.mapped a size = true := by
  have htop := toNat_stackTop
  have hadd : (a + size).toNat = a.toNat + size.toNat := by
    rw [UInt64.toNat_add, Nat.mod_eq_of_lt (by omega)]
  have h₁ : ¬ a < s.low := UInt64.not_lt.mpr hl
  have h₂ : ¬ stackTop < a + size := by
    rw [UInt64.lt_iff_toNat_lt, hadd]
    omega
  have h₃ : ¬ a + size < a := by
    rw [UInt64.lt_iff_toNat_lt, hadd]
    omega
  simp [State.mapped, h₁, h₂, h₃]

theorem State.not_mapped {a size : UInt64} (ht : stackTop.toNat ≤ a.toNat) (hs : 0 < size.toNat)
    (hs' : size.toNat ≤ stackTop.toNat) : s.mapped a size = false := by
  have htop := toNat_stackTop
  have ha := a.toNat_lt
  by_cases hw : a.toNat + size.toNat < 2 ^ 64
  · have h₂ : stackTop < a + size := by
      rw [UInt64.lt_iff_toNat_lt, UInt64.toNat_add, Nat.mod_eq_of_lt hw]
      omega
    simp [State.mapped, h₂]
  · have h₃ : a + size < a := by
      rw [UInt64.lt_iff_toNat_lt, UInt64.toNat_add]
      omega
    simp [State.mapped, h₃]

theorem Setting.mask_cellAt (t : Setting) {p : Int} (h : t.InRange p) :
    (wordWidth t.arch).mask (t.cellAt p) = t.cellAt p := by
  refine UInt64.toNat_inj.mp (Int.natCast_inj.mp ?_)
  rw [toNat_mask, t.eq_address h (by rw [t.toNat_cellAt h, Int.sub_self, Int.zero_emod]),
    t.toNat_cellAt h]

theorem Holds.address (h : Holds t w depth s) :
    s.address t.arch (Assembly.pointer t.arch) = t.cellAt w.position := by
  rw [State.address, h.pointer, t.mask_cellAt h.range]

theorem Holds.check (h : Holds t w depth s) (hf : t.arch.firstCell ≤ w.position)
    (hd : w.position ≤ depth) (i : Instr Nat) (size : Int64) (hs : size.toUInt64.toNat ≤ 2) :
    s.check i (t.cellAt w.position) size = .ok () := by
  obtain ⟨-, htop, hsp⟩ := h.guarded.inRange hf hd
  have hc := t.toNat_cellAt h.range
  have hl : s.low ≤ t.cellAt w.position := by
    rw [h.guarded.low, UInt64.le_iff_toNat_le]
    omega
  rw [State.check, State.mapped_of_le hl (by omega)]
  rfl

/-- The fault of an instruction. -/
def Instr.faultAt (i : Instr Nat) (address : UInt64) (size : Int64) : Fault :=
  { line := i.line, instr := i.text, address, size }

/-- A cell before the first word may not be accessed, if the tape is at the top of the stack. -/
theorem Holds.check_fault (h : Holds t w depth s) (hf : w.position < t.arch.firstCell)
    (htop : t.origin + (wordWidth t.arch).bytes = stackTop.toNat) (i : Instr Nat) (size : Int64)
    (hs : size.toUInt64.toNat = 1 ∨ size.toUInt64.toNat = 2) :
    s.check i (t.cellAt w.position) size =
      .error (.fault (i.faultAt (t.cellAt w.position) size)) := by
  have hc := t.toNat_cellAt h.range
  have := bytes_of_wordWidth t.arch
  have htop' := toNat_stackTop
  unfold Setting.address at hc
  rw [State.check, State.not_mapped (by omega) (by omega) (by omega)]
  rfl

theorem Holds.read_cell (h : Holds t w depth s) (hf : t.arch.firstCell ≤ w.position)
    (hd : w.position ≤ depth) (i : Instr Nat) :
    s.read t.arch i .word (cellOperand t.arch) = .ok w.cell.toUInt64 := by
  have hc := h.check hf hd i (Int64.ofNat Width.word.bytes) (by decide)
  have hl : s.memory.load (t.cellAt w.position) Width.word.bytes = w.cell.toUInt64 := by
    rw [show Width.word.bytes = 2 from rfl, Memory.load_two, h.cells _ hf hd]
    rfl
  simp only [State.read, cellOperand, h.address, hc, hl]
  rfl

theorem Holds.checkWrite_cell (h : Holds t w depth s) (hf : t.arch.firstCell ≤ w.position)
    (hd : w.position ≤ depth) (i : Instr Nat) :
    s.checkWrite t.arch i .word (cellOperand t.arch) = .ok () := by
  have hc := h.check hf hd i (Int64.ofNat Width.word.bytes) (by decide)
  simp only [State.checkWrite, cellOperand, h.address, hc]

/-- **The current cell is written.** -/
theorem Holds.write_cell (h : Holds t w depth s) (hf : t.arch.firstCell ≤ w.position)
    (hd : w.position ≤ depth) (v : UInt64) :
    Holds t (w.put v.toUInt16) depth (s.write t.arch .word (cellOperand t.arch) v) := by
  have hw : s.write t.arch .word (cellOperand t.arch) v =
      { s with memory := s.memory.store (s.address t.arch (Assembly.pointer t.arch)) 2 v } := rfl
  rw [hw, h.address]
  refine ⟨h.guarded.memory _, h.pointer, h.range, fun q hq hqd => ?_, fun q hq => ?_⟩
  · change (s.memory.store (t.cellAt w.position) 2 v).cell (t.cellAt q) =
      Function.update w.cells w.position v.toUInt16 q
    obtain ⟨hne, h₁, h₂⟩ := h.guarded.apart hf hd hq hqd
    rw [Memory.cell_store _ _ h₁ h₂, Function.update_apply, h.cells q hq hqd]
    by_cases hqp : q = w.position
    · rw [if_pos hqp, if_pos (by rw [hqp])]
    · rw [if_neg hqp, if_neg (hne hqp)]
  · change Function.update w.cells w.position v.toUInt16 q = 0
    rw [Function.update_apply, if_neg (by omega), h.blank q hq]

theorem Holds.push (h : Holds t w depth s) (hr : 0 ≤ t.address (depth + 1)) :
    Holds t w (depth + 1)
      { s with
        registers := { s.registers with sp := t.cellAt (depth + 1) }
        low := t.cellAt (depth + 1)
        pushes := s.pushes + 1
        memory := s.memory.store (t.cellAt (depth + 1)) 2 0 } := by
  have hfirst := t.arch.firstCell_neg
  have hg : Guarded t (depth + 1) w.output w.input
      { s with
        registers := { s.registers with sp := t.cellAt (depth + 1) }
        low := t.cellAt (depth + 1)
        pushes := s.pushes + 1 } := by
    refine ⟨t.toNat_cellAt ⟨hr, ?_⟩, rfl, ?_, h.guarded.output, h.guarded.input⟩
    · obtain ⟨⟨-, hlt⟩, -⟩ := h.guarded.inRange (q := depth) (by omega) le_rfl
      unfold Setting.address at hlt ⊢
      omega
    · rw [h.guarded.pushes]
      exact Nat.add_assoc _ _ _
  refine ⟨hg.memory _, ?_, h.range, fun q hq hqd => ?_, fun q hq => h.blank q (by omega)⟩
  · rw [← h.pointer]
    cases t.arch <;> rfl
  · change (s.memory.store (t.cellAt (depth + 1)) 2 0).cell (t.cellAt q) = w.cells q
    have hlast : t.arch.firstCell ≤ depth + 1 := by omega
    obtain ⟨hne, h₁, h₂⟩ := hg.apart hlast le_rfl hq hqd
    rw [Memory.cell_store _ _ h₁ h₂]
    by_cases hqp : q = depth + 1
    · rw [if_pos (by rw [hqp]), h.blank q (by omega)]
      rfl
    · rw [if_neg (hne hqp)]
      exact h.cells q hq (by omega)

theorem Holds.write_output (h : Holds t w depth s) :
    Holds t w.write depth { s with output := (offer s.output [w.cell.toUInt8] 1).2 } := by
  have hg := h.guarded
  refine ⟨⟨hg.sp, hg.low, hg.pushes, ?_, hg.input⟩, h.pointer, h.range, h.cells, h.blank⟩
  change (offer s.output _ 1).2 = deliver t.stdout (w.output ++ [w.cell.toUInt8])
  rw [deliver_concat, ← hg.output]

theorem Holds.read_byte (h : Holds t w depth s) (hf : t.arch.firstCell ≤ w.position)
    (hd : w.position ≤ depth) (hz : w.cell = 0) (b : UInt8) {rest : Bytes} {input : Option Input}
    (hrest : ∀ m, State.remaining { s with memory := m, input } = rest) :
    Holds t { w.put b.toUInt16 with input := rest } depth
      { s with memory := s.memory.set (t.cellAt w.position) b, input } := by
  have hg := h.guarded
  refine ⟨⟨hg.sp, hg.low, hg.pushes, hg.output, hrest _⟩, h.pointer, h.range, fun q hq hqd => ?_,
    fun q hq => ?_⟩
  · change (s.memory.set (t.cellAt w.position) b).cell (t.cellAt q) =
      Function.update w.cells w.position b.toUInt16 q
    obtain ⟨hne, h₁, -⟩ := hg.apart hf hd hq hqd
    rw [Function.update_apply]
    by_cases hqp : q = w.position
    · subst hqp
      rw [if_pos rfl, Memory.cell_set _ _ ((h.cells _ hf hd).trans hz)]
    · rw [if_neg hqp, Memory.cell_set_of_ne _ _ (hne hqp) h₁, h.cells q hq hqd]
  · change Function.update w.cells w.position b.toUInt16 q = 0
    rw [Function.update_apply, if_neg (by omega), h.blank q hq]

end Machine

end TapeLang
