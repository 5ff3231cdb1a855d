import TapeLang.Proofs.Simulation.Lockstep
import TapeLang.Proofs.Source.Reparse

/-!
# Addresses that wrap

The address of a cell that is too far back for the width of a register comes out at the other end
of the address space, like that of a cell far ahead. The next forward move then puts all cells up to
that one into memory first.

* `excursion`: sources that move back and then one cell forward.
* **`next_wrap`**: a move back past the last address is a move forward.
* **`Compiled.run_wrap`**: an excursion past the last address uses up every budget.
* **`Verdict.excursion`**: any other excursion takes ten instructions.
-/

namespace TapeLang

open Assembly Machine Reference

/-- A source that moves back so many cells and then one forward. -/
def excursion (k : Nat) : Bytes := List.replicate k (Text.ascii '<') ++ [Text.ascii '>']

/-- The tree of an excursion, with its nodes at any locations. -/
def excursionTree (k : Nat) (back forth : Location) : List Node :=
  [{ kind := .moveBackward, count := Int64.ofNat k, loc := back },
    { kind := .moveForward, count := 1, loc := forth }]

namespace Reference

variable {k n : Nat}

theorem length_excursion (k : Nat) : (excursion k).length = k + 1 := by
  rw [excursion, List.length_append, List.length_replicate, List.length_singleton]

/-! ## The run of the source -/

theorem Config.iterate_replicate {b : UInt8} (ho : b ≠ Text.ascii '[') (hc : b ≠ Text.ascii ']')
    (n : Nat) (rest : Bytes) (loops : List Bytes) (w : World) :
    next^[n] ⟨List.replicate n b ++ rest, loops, w⟩ = ⟨rest, loops, (World.perform b)^[n] w⟩ := by
  induction n generalizing w with
  | zero => rfl
  | succ n ih =>
    rw [Function.iterate_succ_apply, List.replicate_succ, List.cons_append, next_perform ho hc, ih,
      Function.iterate_succ_apply]

theorem trace_excursion (input : Bytes) (hn : n ≤ k) :
    trace (excursion k) input n = ⟨excursion (k - n), [], { input, position := -n }⟩ := by
  have hsplit : excursion k = List.replicate n (Text.ascii '<') ++ excursion (k - n) := by
    rw [excursion, excursion, ← List.append_assoc, ← List.replicate_add, Nat.add_sub_cancel' hn]
  rw [trace, Config.start, hsplit, Config.iterate_replicate (by decide) (by decide),
    World.iterate_backward, World.move, Int.zero_add]

theorem trace_excursion_end (k : Nat) (input : Bytes) :
    trace (excursion k) input (k + 1) = ⟨[], [], { input, position := 1 - k }⟩ := by
  rw [trace, Function.iterate_succ_apply', ← trace, trace_excursion input le_rfl, Nat.sub_self]
  change Config.mk [] [] (World.move _ 1) = _
  rw [World.move, Int.add_comm, Int.sub_eq_add_neg]

theorem not_accesses_excursion (k : Nat) (w : World) : ¬ Config.accesses ⟨excursion k, [], w⟩ := by
  rintro ⟨b, hb, hmem⟩
  cases k with
  | zero =>
    obtain rfl : Text.ascii '>' = b := Option.some.inj hb
    exact absurd hmem (by decide)
  | succ k =>
    obtain rfl : Text.ascii '<' = b := Option.some.inj hb
    exact absurd hmem (by decide)

/-- An excursion accesses no cell, and is never further back than before its last move. -/
theorem forall_trace_excursion (hk : 0 < k) (input : Bytes) (n : Nat) :
    ¬ (trace (excursion k) input n).accesses ∧
      -(k : Int) ≤ (trace (excursion k) input n).world.position ∧
      (trace (excursion k) input n).world.position ≤ 0 := by
  have hend : (trace (excursion k) input (k + 1)).code = [] := by rw [trace_excursion_end]
  refine forall_trace_of_halted (P := fun c => ¬ c.accesses ∧ -(k : Int) ≤ c.world.position ∧
    c.world.position ≤ 0) hend (fun i hi => ?_) n
  rcases Nat.lt_or_eq_of_le hi with hlt | rfl
  · rw [trace_excursion input (Nat.le_of_lt_succ hlt)]
    refine ⟨not_accesses_excursion _ _, ?_⟩
    change -(k : Int) ≤ -i ∧ -(i : Int) ≤ 0
    omega
  · rw [trace_excursion_end]
    refine ⟨?_, ?_⟩
    · rintro ⟨b, hb, -⟩
      cases hb
    · change -(k : Int) ≤ 1 - k ∧ 1 - (k : Int) ≤ 0
      omega

/-! ## The run of the tree -/

theorem spells_excursion (hk : 0 < k) (short : k < 2 ^ 63) (back forth : Location) :
    Spells (excursion k) (excursionTree k back forth) [] := by
  obtain ⟨n, rfl⟩ := Nat.exists_eq_add_one.mpr hk
  have hforth : Spells (Kind.moveForward.byte :: (List.replicate 0 Kind.moveForward.byte ++ []))
      [{ kind := .moveForward, count := 1, loc := forth }] [] :=
    .run (by decide) rfl (by decide) (by decide) (.done [])
  have hback : Kind.ofByte? Kind.moveBackward.byte = some .moveBackward := by decide
  exact .run hback rfl (repeats_ofNat short) (by decide) hforth

theorem exists_parse_excursion (file : Bytes) (hk : 0 < k) (short : k + 1 < 2 ^ 63) :
    ∃ back forth, parse file (excursion k) = .ok (excursionTree k back forth) := by
  obtain ⟨tree, parsed, htree⟩ := exists_parse_of_spells file (length_excursion k ▸ short)
    (spells_excursion hk (by omega) {} {})
  rw [Node.unplacedAll, Node.relocateAll_eq_map] at htree
  obtain ⟨n, rest, rfl, hn, hrest⟩ := List.map_eq_cons_iff.mp htree
  obtain ⟨m, rest, rfl, hm, hrest⟩ := List.map_eq_cons_iff.mp hrest
  obtain rfl := List.map_eq_nil_iff.mp hrest
  obtain ⟨back, rfl⟩ := Node.exists_loc_of_relocate _ hn
  obtain ⟨forth, rfl⟩ := Node.exists_loc_of_relocate _ hm
  exact ⟨back, forth, parsed⟩

theorem position_act_forward (w : World) : (w.act .moveForward 1).position = w.position + 1 := by
  have hact : w.act .moveForward 1 = w.move (Node.repeats 1) := w.iterate_forward _
  rw [hact]
  rfl

/-- After its two nodes an excursion has taken seven instructions. -/
theorem work_excursion (hk : 0 < k) (short : k < 2 ^ 63) (back forth : Location) (input : Bytes) :
    let w := work (excursionTree k back forth) input 2
    w.todo = [] ∧ w.elapsed = 7 := by
  have hact : World.act { input } .moveBackward (Int64.ofNat k) =
      World.move { input } (-(Node.repeats (Int64.ofNat k))) := World.iterate_backward _ _
  refine ⟨rfl, ?_⟩
  change 2 + 1 + (4 + 3 * ((World.position (World.act { input } .moveBackward (Int64.ofNat k)) +
    (1 : Nat)).toNat - 0)) = 7
  rw [hact, repeats_ofNat short, World.move]
  dsimp only
  omega

end Reference

namespace Machine

variable {arch : Arch} {t : Setting} {p : Program} {w : World} {s : State} {count : Int64}
  {back forth : Location} {k depth position : Nat}

/-! ## The run on the machine -/

/-- **A move back past the last address** is a move forward by what is missing to all addresses. -/
theorem next_wrap (distance : Nat) (hn : 0 ≤ count.toInt)
    (hc : p.Has position (operationCode t.arch position count .moveBackward))
    (ha : p.arch = t.arch) (h : Holds t w depth s) (hr : t.InRange (w.position + distance))
    (hd : 2 * (distance + Node.repeats count) = 2 ^ t.arch.bits) :
    ∃ s', p.next? ⟨position, s⟩ = some ⟨position + 1, s'⟩ ∧ Holds t (w.move distance) depth s' := by
  refine next_pointer (f := .add) (by decide) hc ha h hr ?_
  have hcell := t.toNat_cellAt h.range
  have hdouble := toNat_double hn
  have hb := t.arch.bits_eq
  change ((((wordWidth t.arch).mask (_ + _)).toNat : Int) - _) % _ = 0
  rw [toNat_mask, UInt64.toNat_add, toNat_mask, toNat_mask, hdouble]
  unfold Setting.address at hcell ⊢
  rcases hb with hb | hb <;>
  · rw [hb] at hd ⊢
    omega

theorem addressable_of_succ {q : Int} (hq : 0 ≤ q) (h : arch.Addressable (q + 1)) :
    arch.Addressable q := by
  have hbits : 2 ^ 32 ≤ (2 : Int) ^ arch.bits := by cases arch <;> decide
  have htop := toNat_stackTop
  unfold Arch.Addressable Arch.cellAddress at *
  omega

/-- **An excursion past the last address** uses up every budget that is not enough for a move far
ahead. -/
theorem Compiled.run_wrap (hp : Compiled arch (excursionTree k back forth) p) (distance : Nat)
    (hk : 0 < k) (short : k < 2 ^ 63) (hd : 2 * (distance + k) = 2 ^ arch.bits)
    (hr : arch.Addressable (distance + 1)) {limit : Int64} (hlow : 3 ≤ stepBudget limit)
    (hhigh : stepBudget limit ≤ 7 + 3 * (distance + 1)) (input : Option Input)
    (output errors : Option Sink) :
    (run p Program.never limit { input, output, errors }).1 =
      ⟨.error .stepLimit, stepBudget limit⟩ := by
  have hrange : ∀ q, arch.Addressable q → (Setting.fresh arch output).InRange q := fun q =>
    (Setting.inRange_fresh arch output q).mpr
  obtain ⟨s, hpush, hmov, hs⟩ := represents_start (t := .fresh arch output)
    (spells_excursion hk short back forth).runnable hp.mode hp.code
    (ready_fresh arch input output errors)
  have hcode : Continues p arch 2 ((excursionTree k back forth).map .node) := hs.code
  rcases hcode with _ | ⟨hback, _ | ⟨hforth, -⟩⟩
  have hstart : Holds (.fresh arch output) { input := inputBytes input } 0 s := hs.holds
  -- The pointer is far ahead now, and the forward move begins to fill the memory up to there.
  obtain ⟨s', hwrap, hs'⟩ := next_wrap distance
    (by rw [Int64.toInt_ofNat_of_lt short]; omega) hback hp.mode hstart
    (by rw [Int.zero_add]; exact hrange _ (addressable_of_succ (by omega) hr))
    (by rwa [repeats_ofNat short])
  obtain ⟨s'', hseg, -⟩ := segment_forward (by decide) hforth hp.mode hs' (by
    rw [position_act_forward, World.move, Int.zero_add]
    exact hrange _ hr)
  have hafter : p.after 3 ⟨0, { input, output, errors }⟩ = some ⟨3, s'⟩ := by
    rw [Program.after, hpush]
    change p.after 2 _ = _
    rw [Program.after, hmov]
    change p.after 1 _ = _
    rw [Program.after, hwrap]
    rfl
  obtain ⟨time, htime⟩ := Nat.exists_eq_add_of_le hlow
  have hle : time ≤ operationCost (World.move { input := inputBytes input } distance) 0 1
      .moveForward := by
    change time ≤ 4 + 3 * ((0 + (distance : Int) + (1 : Nat)).toNat - 0)
    omega
  obtain ⟨c, hc⟩ := hseg.exists_after_le hle
  rw [run, hp.entry, htime, runFrom_after hafter hc]

/-- **Any other excursion takes ten instructions**, wherever the tape is. -/
theorem Verdict.excursion {input : Bytes} {budget : Nat} {r : Result × State}
    (hk : 0 < k) (short : k < 2 ^ 63)
    (h : Verdict t (excursionTree k back forth) input budget r) (hbudget : 10 ≤ budget) :
    r.1 = ⟨.ok 0, 10⟩ := by
  have hs := spells_excursion hk short back forth
  obtain ⟨hdone, helapsed⟩ := work_excursion hk short back forth input
  have hbounded : Bounded t.arch (excursionTree k back forth) input budget := fun i hi =>
    absurd (inBounds_work hs (fun n hn => absurd hn (forall_trace_excursion hk input n).1) i) hi
  have hlast : AtWork (excursionTree k back forth) input budget 2 := by
    refine ⟨fun i hi => ?_, by omega, fun h => absurd hdone h⟩
    obtain rfl | rfl : i = 0 ∨ i = 1 := by omega
    · exact List.cons_ne_nil _ _
    · exact List.cons_ne_nil _ _
  obtain ⟨j, hj, hr, -⟩ := h.exists_atWork hbounded (by omega)
  obtain rfl := hj.unique hs.runnable hlast
  rw [hr, resultAt, if_pos ⟨List.isEmpty_iff.mpr hdone, by omega⟩, helapsed]

end Machine

end TapeLang
