import Mathlib.Data.List.Infix
import TapeLang.Machine.Step

/-!
# Paths of a run

A run goes from point to point, one instruction at a time, as far as its budget lets it. A path
between two points has a length, and something may be known of every state on it.

* `Program.next?`, `Program.after`: one instruction and several.
* `Segment`: a path whose states have a property that depends on the time.
* `Program.Has`: operations that stand at a position.
* **`runFrom_of_after`**: a run follows the path.
* **`runFrom_cancelled`**: a run that is cancelled is cut off and nothing else.
-/

namespace TapeLang.Machine

/-- A point of a run: the position of the next instruction, and the state. -/
structure Point where
  position : Nat
  state : State

namespace Program

/-- The point after one instruction, unless the run ends with it. -/
def next? (p : Program) (a : Point) : Option Point :=
  match p.code[a.position]? with
  | none => none
  | some i =>
    match step p.arch a.state i a.position with
    | (s, .goto position) => some ⟨position, s⟩
    | (_, .exit _) | (_, .fail _) => none

/-- The point after so many instructions. -/
def after (p : Program) : Nat → Point → Option Point
  | 0, a => some a
  | n + 1, a => (p.next? a).bind (p.after n)

variable {p : Program} {a b c : Point} {m n : Nat}

theorem after_add (h : p.after m a = some b) : p.after (m + n) a = p.after n b := by
  induction m generalizing a with
  | zero =>
    cases h
    rw [Nat.zero_add]
  | succ m ih =>
    rw [after, Option.bind_eq_some_iff] at h
    obtain ⟨a', ha, hb⟩ := h
    rw [Nat.succ_add, after, ha]
    exact ih hb

theorem next?_of_step {i : Instr Nat} {s s' : State} {position target : Nat}
    (hi : p.code[position]? = some i) (hs : step p.arch s i position = (s', .goto target)) :
    p.next? ⟨position, s⟩ = some ⟨target, s'⟩ := by
  simp only [next?, hi, hs]

theorem step_of_next? (h : p.next? a = some b) :
    ∃ i, p.code[a.position]? = some i ∧
      step p.arch a.state i a.position = (b.state, .goto b.position) := by
  unfold next? at h
  split at h
  · cases h
  · next i hi =>
    split at h
    · next s position hs =>
      cases h
      exact ⟨i, hi, hs⟩
    · cases h
    · cases h

/-! ## Paths with a property -/

/-- A path of length `n` on which the state at each time has a property, the end apart. -/
inductive Segment (p : Program) : (Nat → State → Prop) → Point → Nat → Point → Prop
  | nil {Q : Nat → State → Prop} (a : Point) : Segment p Q a 0 a
  | cons {Q : Nat → State → Prop} {a b c : Point} {n : Nat} : Q 0 a.state → p.next? a = some b →
    Segment p (fun r => Q (r + 1)) b n c → Segment p Q a (n + 1) c

namespace Segment

variable {Q : Nat → State → Prop}

theorem trans (h : p.Segment Q a m b) (h' : p.Segment (fun r => Q (m + r)) b n c) :
    p.Segment Q a (m + n) c := by
  induction h with
  | nil a =>
    simp only [Nat.zero_add] at h' ⊢
    exact h'
  | @cons Q a a' b m hq hn _ ih =>
    rw [Nat.succ_add]
    refine .cons hq hn (ih ?_)
    simp only [Nat.succ_add] at h'
    exact h'

theorem after_eq (h : p.Segment Q a n b) : p.after n a = some b := by
  induction h with
  | nil => rfl
  | cons _ hn _ ih =>
    rw [after, hn]
    exact ih

theorem exists_after (h : p.Segment Q a n b) {r : Nat} (hr : r < n) :
    ∃ c, p.after r a = some c ∧ Q r c.state := by
  induction h generalizing r with
  | nil => exact absurd hr (Nat.not_lt_zero r)
  | cons hq hn _ ih =>
    rcases r with _ | r
    · exact ⟨_, rfl, hq⟩
    · obtain ⟨c, hc, hqc⟩ := ih (Nat.lt_of_succ_lt_succ hr)
      exact ⟨c, by rw [after, hn]; exact hc, hqc⟩

theorem exists_after_le (h : p.Segment Q a n b) {r : Nat} (hr : r ≤ n) :
    ∃ c, p.after r a = some c := by
  rcases Nat.lt_or_eq_of_le hr with hlt | rfl
  · obtain ⟨c, hc, -⟩ := h.exists_after hlt
    exact ⟨c, hc⟩
  · exact ⟨b, h.after_eq⟩

theorem mono {R : Nat → State → Prop} (h : p.Segment Q a n b)
    (hqr : ∀ r < n, ∀ s, Q r s → R r s) : p.Segment R a n b := by
  induction h generalizing R with
  | nil => exact .nil _
  | cons hq hn _ ih =>
    exact .cons (hqr 0 (Nat.succ_pos _) _ hq) hn
      (ih fun r hr s => hqr (r + 1) (Nat.succ_lt_succ hr) s)

end Segment

/-! ## Code at a position -/

/-- Operations stand at a position. -/
def Has (p : Program) (position : Nat) (ops : List (Op Nat)) : Prop :=
  ops <+: (p.code.toList.map Instr.op).drop position

variable {position : Nat} {o : Op Nat} {ops ops' : List (Op Nat)}

theorem has_append :
    p.Has position (ops ++ ops') ↔ p.Has position ops ∧ p.Has (position + ops.length) ops' := by
  unfold Has
  constructor
  · rintro ⟨rest, h⟩
    refine ⟨⟨ops' ++ rest, by rw [← h, List.append_assoc]⟩, rest, ?_⟩
    rw [← List.drop_drop, ← h, List.append_assoc, List.drop_left]
  · rintro ⟨⟨rest, h⟩, rest', h'⟩
    refine ⟨rest', ?_⟩
    rw [← List.drop_drop, ← h, List.drop_left] at h'
    rw [List.append_assoc, h', h]

theorem has_cons :
    p.Has position (o :: ops) ↔
      (∃ i, p.code[position]? = some i ∧ i.op = o) ∧ p.Has (position + 1) ops := by
  rw [← List.singleton_append, has_append]
  refine and_congr_left fun _ => ?_
  unfold Has
  rw [List.singleton_prefix_iff_head?_eq_some, List.head?_drop, List.getElem?_map,
    Array.getElem?_toList, Option.map_eq_some_iff]

/-! ## Runs -/

/-- A run that nobody cancels. -/
def never : Nat → Bool := fun _ => false

theorem runFrom_of_next? (h : p.next? a = some b) (budget steps : Nat) :
    runFrom p never (budget + 1) steps a.position a.state =
      runFrom p never budget (steps + 1) b.position b.state := by
  obtain ⟨i, hi, hs⟩ := step_of_next? h
  obtain ⟨hlt, rfl⟩ := Array.getElem?_eq_some_iff.mp hi
  rw [runFrom, dif_pos hlt, hs]
  simp [never]

/-- **A run follows the path.** -/
theorem runFrom_of_after (h : p.after n a = some b) (budget steps : Nat) :
    runFrom p never (n + budget) steps a.position a.state =
      runFrom p never budget (steps + n) b.position b.state := by
  induction n generalizing a steps with
  | zero =>
    cases h
    rw [Nat.zero_add, Nat.add_zero]
  | succ n ih =>
    rw [after, Option.bind_eq_some_iff] at h
    obtain ⟨a', ha, hb⟩ := h
    rw [Nat.succ_add, runFrom_of_next? ha, ih hb, Nat.succ_add]
    rfl

theorem runFrom_stop (h : p.after n a = some b) (steps : Nat) :
    runFrom p never n steps a.position a.state = (⟨.error .stepLimit, steps + n⟩, b.state) := by
  have hr := runFrom_of_after h 0 steps
  rw [Nat.add_zero] at hr
  rw [hr, runFrom]

theorem runFrom_exit (h : p.after n a = some b) {i : Instr Nat} {s : State} {code : Nat}
    (hi : p.code[b.position]? = some i) (hs : step p.arch b.state i b.position = (s, .exit code))
    {budget : Nat} (hb : n < budget) (steps : Nat) :
    runFrom p never budget steps a.position a.state = (⟨.ok code, steps + n + 1⟩, s) := by
  obtain ⟨hlt, rfl⟩ := Array.getElem?_eq_some_iff.mp hi
  obtain ⟨k, rfl⟩ := Nat.exists_eq_add_of_lt hb
  rw [Nat.add_assoc, runFrom_of_after h, runFrom, dif_pos hlt, hs]
  simp [never]

theorem runFrom_fail (h : p.after n a = some b) {i : Instr Nat} {s : State} {e : RunError}
    (hi : p.code[b.position]? = some i) (hs : step p.arch b.state i b.position = (s, .fail e))
    {budget : Nat} (hb : n < budget) (steps : Nat) :
    runFrom p never budget steps a.position a.state = (⟨.error e, steps + n⟩, s) := by
  obtain ⟨hlt, rfl⟩ := Array.getElem?_eq_some_iff.mp hi
  obtain ⟨k, rfl⟩ := Nat.exists_eq_add_of_lt hb
  rw [Nat.add_assoc, runFrom_of_after h, runFrom, dif_pos hlt, hs]
  simp [never]

/-- **A run that is cancelled** ends like one with a smaller budget; any other is as if nobody had
meant to cancel it. -/
theorem runFrom_cancelled (p : Program) (cancelled : Nat → Bool) (budget steps position : Nat)
    (s : State) :
    runFrom p cancelled budget steps position s = runFrom p never budget steps position s ∨
      ∃ n ≤ budget, ∃ s', cancelled (steps + n) = true ∧
        runFrom p cancelled budget steps position s = (⟨.error .cancelled, steps + n⟩, s') ∧
        runFrom p never n steps position s = (⟨.error .stepLimit, steps + n⟩, s') := by
  -- Where the run is not cut off, its instruction is the same as that of the other run.
  induction budget generalizing steps position s with
  | zero => exact .inl rfl
  | succ budget ih =>
    by_cases hc : (steps % pollInterval = 0 && cancelled steps) = true
    · refine .inr ⟨0, Nat.zero_le _, s, ?_, ?_, rfl⟩
      · exact (Bool.and_eq_true_iff.mp hc).2
      · rw [runFrom, if_pos hc]
        rfl
    · by_cases hlt : position < p.code.size
      · rcases hs : step p.arch s p.code[position] position with ⟨s', target | code | e⟩
        · have hnext : p.next? ⟨position, s⟩ = some ⟨target, s'⟩ :=
            next?_of_step (Array.getElem?_eq_getElem hlt) hs
          have hrun : runFrom p cancelled (budget + 1) steps position s =
              runFrom p cancelled budget (steps + 1) target s' := by
            rw [runFrom, if_neg hc, dif_pos hlt, hs]
          rw [hrun]
          rcases ih (steps + 1) target s' with he | ⟨n, hn, s'', hcn, hr, hr'⟩
          · exact .inl (he.trans (runFrom_of_next? hnext budget steps).symm)
          · refine .inr ⟨n + 1, Nat.succ_le_succ hn, s'', ?_, ?_, ?_⟩
            · rwa [Nat.add_right_comm] at hcn
            · rw [hr, Nat.add_right_comm]
              rfl
            · rw [runFrom_of_next? hnext, hr', Nat.add_right_comm]
              rfl
        · left
          rw [runFrom, runFrom, if_neg hc, dif_pos hlt, dif_pos hlt, hs]
          simp [never]
        · left
          rw [runFrom, runFrom, if_neg hc, dif_pos hlt, dif_pos hlt, hs]
          simp [never]
      · left
        rw [runFrom, runFrom, if_neg hc, dif_neg hlt, dif_neg hlt]
        simp [never]

end Program

end TapeLang.Machine
