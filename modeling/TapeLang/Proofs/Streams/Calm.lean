import TapeLang.Proofs.Simulation.Compiled
import TapeLang.Proofs.Streams.Discipline

/-!
# Compiled programs cannot tell their streams apart

Between two tasks a compiled program looks at nothing that a system call has left. The number of a
call is always moved to the accumulator first, the result of a read is compared with one and nothing
else, and no jump depends on flags that were not set just before it.

* `Calm`: the positions where two runs need agree on nothing more.
* **`Calm.checked`**: the code at each of them keeps to the rules.
* **`Compiled.alike_run`**: two runs of a compiled program.
-/

namespace TapeLang.Machine

open Assembly Reference

variable {p : Program} {arch : Arch} {stage : Stage} {position : Nat} {op : Op Nat}
  {ops : List (Op Nat)} {calm : Nat → Prop}

/-! ## Checks -/

theorem Checks.cons (next : Stage) (hop : stage.after arch op = some next) (ht : op.targets = [])
    (h : Checks arch calm next (position + 1) ops) : Checks arch calm stage position (op :: ops) :=
  ⟨fun _ hq => absurd (ht ▸ hq) List.not_mem_nil, next, hop, h⟩

theorem Checks.jump {condition : Condition} {target : Nat}
    (hop : stage.afterJump condition = some .idle) (ht : calm target)
    (h : Checks arch calm .idle (position + 1) ops) :
    Checks arch calm stage position (.jump condition (.label target) :: ops) := by
  refine ⟨fun q hq => ?_, .idle, hop, h⟩
  obtain rfl := List.mem_singleton.mp hq
  exact ht

theorem checks_transfer {number : UInt64} (hn : (wordWidth arch).mask number = number)
    (next : Stage) (hop : (Stage.ready number).afterTrap arch = some next) (file : Int64)
    (h : Checks arch calm next (position + 5) ops) :
    Checks arch calm .idle position (callOps arch number (transfer arch file) ++ ops) := by
  have hcalling : Stage.after arch .idle
      (.mov none (.immediate number.toInt64) (wordReg arch .ax)) = some (.calling number) := by
    conv_rhs => rw [← hn]
    cases arch <;> rfl
  have htrap : Stage.after arch (.ready number) (trap arch) = some next := by
    cases arch <;> exact hop
  refine .cons (.calling number) hcalling rfl ?_
  cases arch <;> exact .cons (.calling number) rfl rfl (.cons (.calling number) rfl rfl
    (.cons (.ready number) rfl rfl (.cons next htrap rfl h)))

/-! ## Calm positions -/

/-- The loop that pushes cells until the pointer is in memory. -/
def growOps (arch : Arch) (start : Nat) : List (Op Nat) :=
  [.push (some .word) (.immediate 0),
    .arith .cmp none (wordReg arch (pointer arch)) (wordReg arch .sp), .jump .above (.label start)]

/-- The positions before a task, and those in the loop that pushes cells. -/
inductive Calm (p : Program) (arch : Arch) : Nat → Prop
  | task {position : Nat} {todo : List Task} : Continues p arch position todo →
    Task.Runnables todo → Calm p arch position
  | push {start : Nat} {todo : List Task} : p.Has start (growOps arch start) →
    Continues p arch (start + 3) todo → Task.Runnables todo → Calm p arch start
  | compare {start : Nat} {todo : List Task} : p.Has start (growOps arch start) →
    Continues p arch (start + 3) todo → Task.Runnables todo → Calm p arch (start + 1)

/-- The code of an operation keeps to the rules, if what follows it is calm. -/
theorem checks_operation {kind : Kind} (hk : Kind.ofByte? kind.byte = some kind) {count : Int64}
    {todo : List Task} (hhas : p.Has position (operationCode arch position count kind))
    (hc : Continues p arch (position + opCount kind) todo) (ht : Task.Runnables todo) :
    Checks arch (Calm p arch) .idle position (operationCode arch position count kind) := by
  have hend : Calm p arch (position + opCount kind) := .task hc ht
  cases kind with
  | loop | unknown => cases hk
  | increment | decrement | moveBackward => cases arch <;> exact .cons .flagged rfl rfl (.inr hend)
  | moveForward =>
    have hgrow : p.Has (position + 2) (growOps arch (position + 2)) := hhas.tail.tail
    have hpush : Calm p arch (position + 2) := .push hgrow hc ht
    have hcompare : Calm p arch (position + 3) := .compare hgrow hc ht
    cases arch <;> exact .cons .flagged rfl rfl (.jump rfl hcompare (.cons .idle rfl rfl
      (.cons .flagged rfl rfl (.jump rfl hpush (.inr hend)))))
  | write =>
    rw [operationCode_write, ← List.append_nil (callOps _ _ _)]
    exact checks_transfer (by cases arch <;> rfl) .idle (by cases arch <;> rfl) 1 (.inr hend)
  | read =>
    rw [operationCode_read]
    refine .cons .idle (by cases arch <;> rfl) rfl ?_
    refine checks_transfer (by cases arch <;> rfl) .answered (by cases arch <;> rfl) 0 ?_
    refine .cons .zeroed (by cases arch <;> rfl) rfl (.jump rfl hend ?_)
    exact .cons .idle (by cases arch <;> rfl) rfl (.inr hend)

theorem checks_epilogue (arch : Arch) (position : Nat) :
    Checks arch calm .idle position (epilogueOps arch) := by
  have hexit : Stage.after arch .idle (.mov none (.immediate (callTable arch).exit.toInt64)
      (wordReg arch .ax)) = some (.calling (callTable arch).exit) := by
    cases arch <;> rfl
  refine .cons (.calling (callTable arch).exit) hexit rfl ?_
  cases arch <;> exact .cons (.calling _) rfl rfl (.cons .halted rfl rfl (.inl rfl))

theorem checks_test {start : Nat} (hs : calm start) (he : calm (position + 2)) :
    Checks arch calm .idle position [testOp arch, .jump .notEqual (.label start)] := by
  refine .cons .flagged ?_ rfl (.jump rfl hs (.inr he))
  cases arch <;> rfl

theorem Checked.of_checks (hhas : p.Has position ops) (hne : ops ≠ [])
    (h : Checks p.arch calm stage position ops) : Checked p calm stage position := by
  obtain ⟨op, ops, rfl⟩ := List.exists_cons_of_ne_nil hne
  exact ⟨op, ops, hhas, h⟩

/-- **The code at a calm position keeps to the rules.** -/
theorem Calm.checked (h : Calm p p.arch position) : Checked p (Calm p p.arch) .idle position := by
  cases h with
  | push hgrow hc ht =>
    have hchecks : Checks p.arch (Calm p p.arch) .idle position (growOps p.arch position) := by
      refine .cons .idle rfl rfl (.cons .flagged ?_ rfl
        (.jump rfl (.push hgrow hc ht) (.inr (.task hc ht))))
      cases p.arch <;> rfl
    exact .of_checks hgrow (List.cons_ne_nil _ _) hchecks
  | @compare start _ hgrow hc ht =>
    refine .of_checks hgrow.tail (List.cons_ne_nil _ _) (.cons .flagged ?_ rfl
      (.jump rfl (.push hgrow hc ht) (.inr (.task hc ht))))
    cases p.arch <;> rfl
  | task hc ht =>
    -- What is to be done and the code for it are split together: each task has its own code.
    cases ht with
    | nil =>
      cases hc with
      | done hhas => exact .of_checks hhas (List.cons_ne_nil _ _) (checks_epilogue p.arch position)
    | @again body rest hbody hrest =>
      cases hc with
      | again hblock hp htest hcont =>
        refine .of_checks htest (List.cons_ne_nil _ _) (checks_test ?_ (.task hcont hrest))
        exact .task (.block hblock (hp ▸ .again hblock hp htest hcont))
          (hbody.tasks (.again hbody hrest))
    | @loop count children loc rest hbody hrest =>
      cases hc with
      | node hhas hcont =>
        obtain ⟨hjump, hblock, htest, hcont⟩ := loop_code hhas hcont
        refine .of_checks hjump (List.cons_ne_nil _ _) (.jump rfl ?_ (.inr ?_))
        · exact .task (.again hblock rfl htest hcont) (.again hbody hrest)
        · exact .task (.block hblock (.again hblock rfl htest hcont))
            (hbody.tasks (.again hbody hrest))
    | @operation kind count children loc rest hk hn hrest =>
      have hne := ne_loop_of_byte hk
      cases hc with
      | node hhas hcont =>
        rw [nodeCode_operation _ _ hne] at hhas hcont
        rw [length_operationCode _ _ _ hne] at hcont
        refine .of_checks hhas ?_ (checks_operation hk hhas hcont hrest)
        intro hnil
        have hlength := length_operationCode p.arch position count hne
        rw [hnil] at hlength
        cases kind with
        | loop | unknown => cases hk
        | _ => cases hlength

/-! ## Two runs of a compiled program -/

variable {x y : Option Sink} {nodes : List Node} {s t : State}

theorem Compiled.checked (hp : Compiled p.arch nodes p) (hnodes : Runnable nodes) :
    Checked p (Calm p p.arch) .idle p.entry := by
  have hhas : p.Has 0 (p.arch.code nodes) := by
    rw [Program.Has, hp.code]
    exact List.prefix_rfl
  rw [Arch.code, List.append_assoc, Program.has_append, Program.has_append] at hhas
  obtain ⟨hpro, hblock, hepi⟩ := hhas
  have hlen : 0 + (prologueCode p.arch).length = 2 := by cases p.arch <;> rfl
  rw [hlen] at hblock hepi
  have hstart : Calm p p.arch 2 := .task (.block hblock (.done hepi)) (hnodes.tasks .nil)
  rw [hp.entry]
  refine .of_checks hpro (List.cons_ne_nil _ _) ?_
  exact .cons .idle rfl rfl (.cons .idle (by cases p.arch <;> rfl) rfl (.inr hstart))

/-- **Two runs of a compiled program** end alike, if they begin alike. -/
theorem Compiled.alike_run (hp : Compiled arch nodes p) (hnodes : Runnable nodes)
    (h : Alike x y s t) (cancelled : Nat → Bool) (limit : Int64) :
    (run p cancelled limit s).1 = (run p cancelled limit t).1 ∧
      Alike x y (run p cancelled limit s).2 (run p cancelled limit t).2 := by
  obtain rfl := hp.mode
  exact (hp.checked hnodes).runFrom (fun q hq => hq.checked) cancelled h trivial

end TapeLang.Machine
