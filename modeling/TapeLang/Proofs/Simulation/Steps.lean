import TapeLang.Proofs.Machine.Control

/-!
# Tasks on the machine

The machine runs a program task by task. Between two tasks its state holds the tape of the
reference run, and the code that comes next does what is left to do.

* `Continues`: the code at a position does some tasks and then ends the program.
* `Represents`: a point of a run stands for a run of the tree.
* `Inside`: what is known of the states between two tasks.
* **`Represents.exists_next`**: the machine does a task in the time that it is charged with.
* **`Represents.exists_fault`**: an access before the first word is a fault.
* **`Represents.exists_exit`**: after the last task the program ends.
-/

namespace TapeLang.Machine

open Assembly Reference

/-! ## Code for tasks -/

/-- The code at a position does some tasks and then ends the program. -/
inductive Continues (p : Program) (arch : Arch) : Nat → List Task → Prop
  | done {position : Nat} : p.Has position (epilogueOps arch) → Continues p arch position []
  | node {position : Nat} {n : Node} {todo : List Task} :
    p.Has position (nodeCode arch position n) →
      Continues p arch (position + (nodeCode arch position n).length) todo →
      Continues p arch position (.node n :: todo)
  | again {start position : Nat} {body : List Node} {todo : List Task} :
    p.Has start (blockCode arch start body) →
      position = start + (blockCode arch start body).length →
      p.Has position [testOp arch, .jump .notEqual (.label start)] →
      Continues p arch (position + 2) todo → Continues p arch position (.again body :: todo)

variable {p : Program} {arch : Arch} {t : Setting} {position : Nat}

theorem Continues.block {nodes : List Node} {todo : List Task}
    (hc : p.Has position (blockCode arch position nodes))
    (h : Continues p arch (position + (blockCode arch position nodes).length) todo) :
    Continues p arch position (nodes.map .node ++ todo) := by
  induction nodes generalizing position with
  | nil => exact h
  | cons n nodes ih =>
    rw [blockCode, Program.has_append] at hc
    rw [blockCode, List.length_append, ← Nat.add_assoc] at h
    exact .node hc.1 (ih hc.2 h)

/-- After a test the body of a loop comes next, or what follows the loop. -/
theorem Continues.enter {start : Nat} {body : List Node} {todo : List Task} {zero : Prop}
    [Decidable zero] (hc : p.Has start (blockCode arch start body))
    (hp : position = start + (blockCode arch start body).length)
    (ht : p.Has position [testOp arch, .jump .notEqual (.label start)])
    (h : Continues p arch (position + 2) todo) :
    Continues p arch (if zero then position + 2 else start)
      (if zero then todo else body.map .node ++ .again body :: todo) := by
  by_cases hz : zero
  · rwa [if_pos hz, if_pos hz]
  · rw [if_neg hz, if_neg hz]
    exact .block hc (hp ▸ .again hc hp ht h)

/-! ## Points that stand for runs -/

/-- The cells in memory some time after a task has begun. -/
def depthAt (w : Work) (time : Nat) : Nat :=
  match w.todo with
  | .node ⟨.moveForward, _, _, _⟩ :: _ => w.backed + (time - 2) / 3
  | _ => w.backed

/-- The input some time after a task has begun. -/
def inputAt (w : Work) (time : Nat) : Bytes :=
  match w.todo with
  | .node ⟨.read, _, _, _⟩ :: _ => if time < 6 then w.world.input else w.world.read.input
  | _ => w.world.input

/-- A state some time after a task has begun: nothing is output before the task is done. -/
def Inside (t : Setting) (w : Work) (time : Nat) (s : State) : Prop :=
  Guarded t (depthAt w time) w.world.output (inputAt w time) s

/-- A point of a run stands for a run of the tree. -/
structure Represents (t : Setting) (p : Program) (w : Work) (a : Point) : Prop where
  holds : Holds t w.world w.backed a.state
  bound : w.world.position ≤ w.backed
  code : Continues p t.arch a.position w.todo
  tasks : Task.Runnables w.todo

variable {w : Work} {a : Point}

theorem depthAt_zero (w : Work) : depthAt w 0 = w.backed := by
  unfold depthAt
  split <;> rfl

theorem inputAt_zero (w : Work) : inputAt w 0 = w.world.input := by
  unfold inputAt
  split <;> rfl

theorem Represents.inside (h : Represents t p w a) : Inside t w 0 a.state := by
  rw [Inside, depthAt_zero, inputAt_zero]
  exact h.holds.guarded

/-- A test on the machine is the test of the reference run. -/
theorem Represents.exists_enter (cost : Nat) (ha : p.arch = t.arch) {start : Nat}
    {body : List Node} {rest : List Task} {s : State} (h : Holds t w.world w.backed s)
    (hb : w.world.position ≤ w.backed) (hf : t.arch.firstCell ≤ w.world.position)
    (hc : p.Has start (blockCode t.arch start body))
    (hp : position = start + (blockCode t.arch start body).length)
    (ht : p.Has position [testOp t.arch, .jump .notEqual (.label start)])
    (hrest : Continues p t.arch (position + 2) rest) (hbody : Runnable body)
    (htasks : Task.Runnables rest) :
    ∃ b, p.Segment (fun _ => Guarded t w.backed w.world.output w.world.input) ⟨position, s⟩ 2 b ∧
      Represents t p (w.enter body rest cost) b := by
  obtain ⟨s', hseg, hs'⟩ := segment_test ht ha h hf hb
  exact ⟨_, hseg, hs', hb, .enter hc hp ht hrest, Work.runnables_enter hbody htasks cost⟩

theorem exists_operation (ha : p.arch = t.arch) {kind : Kind} {count : Int64}
    {children : List Node} {loc : Location} {rest : List Task} {world : World}
    {backed elapsed : Nat} {s : State}
    (hc : p.Has position (operationCode t.arch position count kind))
    (hk : Kind.ofByte? kind.byte = some kind) (hn : 0 ≤ count.toInt)
    (h : Holds t world backed s) (hb : world.position ≤ backed)
    (hf : Work.touches kind → t.arch.firstCell ≤ world.position)
    (hr : t.InRange (world.act kind count).position) :
    ∃ s', p.Segment
        (Inside t ⟨.node ⟨kind, count, children, loc⟩ :: rest, world, backed, elapsed⟩)
        ⟨position, s⟩ (operationCost world backed count kind) ⟨position + opCount kind, s'⟩ ∧
      Holds t (world.act kind count)
        (if kind = .moveForward then max backed (world.act kind count).position.toNat else backed)
        s' := by
  cases kind with
  | loop | unknown => cases hk
  | increment => exact segment_increment hn hc ha h (hf trivial) hb
  | decrement => exact segment_decrement hn hc ha h (hf trivial) hb
  | moveForward => exact segment_forward hn hc ha h hr
  | moveBackward => exact segment_backward hn hc ha h hr
  | write => exact segment_write hc ha h (hf trivial) hb
  | read => exact segment_read hc ha h (hf trivial) hb

theorem position_act_le {kind : Kind} (hk : Kind.ofByte? kind.byte = some kind) {world : World}
    {backed : Nat} (hb : world.position ≤ backed) (count : Int64) :
    (world.act kind count).position ≤ ((if kind = .moveForward then
      max backed (world.act kind count).position.toNat else backed : Nat) : Int) := by
  cases kind with
  | loop | unknown => cases hk
  | increment =>
    rw [show world.act .increment count = _ from world.iterate_increment _]
    exact hb
  | decrement =>
    rw [show world.act .decrement count = _ from world.iterate_decrement _]
    exact hb
  | moveForward =>
    rw [if_pos rfl]
    omega
  | moveBackward =>
    rw [show world.act .moveBackward count = _ from world.iterate_backward _]
    change world.position + -_ ≤ (backed : Int)
    omega
  | write => exact hb
  | read =>
    change world.read.position ≤ _
    rw [World.position_read]
    exact hb

theorem loop_code {count : Int64} {children : List Node} {loc : Location} {rest : List Task}
    (hc : p.Has position (nodeCode arch position ⟨.loop, count, children, loc⟩))
    (h : Continues p arch
      (position + (nodeCode arch position ⟨.loop, count, children, loc⟩).length) rest) :
    let test := position + 1 + (blockCode arch (position + 1) children).length
    p.Has position [.jump .always (.label test)] ∧
      p.Has (position + 1) (blockCode arch (position + 1) children) ∧
      p.Has test [testOp arch, .jump .notEqual (.label (position + 1))] ∧
      Continues p arch (test + 2) rest := by
  intro test
  rw [nodeCode] at hc h
  have hparts := Program.has_append.mp hc.tail
  refine ⟨?_, hparts.1, hparts.2, ?_⟩
  · rw [← List.singleton_append, Program.has_append] at hc
    exact hc.1
  · have hlen : (position + 1 + (blockCode arch (position + 1) children).length) + 2 =
        position + (Op.jump .always (.label test) :: (blockCode arch (position + 1) children ++
          [testOp arch, .jump .notEqual (.label (position + 1))])).length := by
      simp only [List.length_cons, List.length_append, List.length_nil]
      omega
    rw [hlen]
    exact h

/-- **The machine does a task** in the time that it is charged with. -/
theorem Represents.exists_next (ha : p.arch = t.arch) (h : Represents t p w a) (ht : w.todo ≠ [])
    (hf : w.accesses → t.arch.firstCell ≤ w.world.position)
    (hr : t.InRange w.next.world.position) :
    ∃ n b, w.next.elapsed = w.elapsed + n ∧ p.Segment (Inside t w) a n b ∧
      Represents t p w.next b := by
  rcases w with ⟨todo, world, backed, elapsed⟩
  rcases a with ⟨position, s⟩
  obtain ⟨hholds, hbound, hcode, htasks⟩ := h
  -- What is to be done and the code for it are split together: each task has its own code.
  cases htasks with
  | nil => exact absurd rfl ht
  | again hbody hrest =>
    cases hcode with
    | again hc hp htest hcont =>
      obtain ⟨b, hseg, hb⟩ := exists_enter 2 ha hholds hbound (hf trivial) hc hp htest hcont hbody
        hrest
      exact ⟨2, b, rfl, hseg, hb⟩
  | @loop count children loc rest hbody hrest =>
    cases hcode with
    | node hc hcont =>
      obtain ⟨hjump, hblock, htest, hcont⟩ := loop_code hc hcont
      obtain ⟨b, hseg, hb⟩ := exists_enter 3 ha hholds hbound (hf trivial) hblock rfl htest hcont
        hbody hrest
      exact ⟨3, b, rfl, .cons hholds.guarded (hjump.next_jump s) hseg, hb⟩
  | @operation kind count children loc rest hk hn hrest =>
    have hne := ne_loop_of_byte hk
    cases hcode with
    | node hc hcont =>
      rw [nodeCode_operation _ _ hne] at hc hcont
      rw [length_operationCode _ _ _ hne] at hcont
      rw [Work.next_operation hne rfl] at hr ⊢
      obtain ⟨s', hseg, hs'⟩ := exists_operation ha hc hk hn hholds hbound hf hr
      exact ⟨_, _, rfl, hseg, hs', position_act_le hk hbound count, hcont, hrest⟩

/-- **An access before the first word is a fault**, if the tape is at the top of the stack. In any
case the machine gets to it. -/
theorem Represents.exists_fault (ha : p.arch = t.arch) (h : Represents t p w a)
    (hacc : w.accesses) (hf : w.world.position < t.arch.firstCell) :
    ∃ b, p.Segment (Inside t w) a w.lead b ∧ Inside t w w.lead b.state ∧
      (t.origin + (wordWidth t.arch).bytes = stackTop.toNat →
        Faults p b (t.cellAt w.world.position)) := by
  rcases w with ⟨todo, world, backed, elapsed⟩
  rcases a with ⟨position, s⟩
  obtain ⟨hholds, hbound, hcode, htasks⟩ := h
  cases htasks with
  | nil => exact absurd hacc id
  | again =>
    cases hcode with
    | again _ _ htest _ =>
      exact ⟨_, .nil _, hholds.guarded, fun htop => faults_arith htop htest ha hholds hf⟩
  | loop =>
    cases hcode with
    | node hc hcont =>
      obtain ⟨hjump, -, htest, -⟩ := loop_code hc hcont
      exact ⟨_, segment_one hholds.guarded (hjump.next_jump s), hholds.guarded,
        fun htop => faults_arith htop htest ha hholds hf⟩
  | @operation kind count children loc rest hk =>
    cases hcode with
    | node hc _ =>
      rw [nodeCode_operation _ _ (ne_loop_of_byte hk)] at hc
      cases kind with
      | loop | unknown => cases hk
      | moveForward | moveBackward => exact absurd hacc id
      | increment | decrement =>
        exact ⟨_, .nil _, hholds.guarded, fun htop => faults_arith htop hc ha hholds hf⟩
      | read =>
        rw [operationCode_read] at hc
        exact ⟨_, .nil _, hholds.guarded, fun htop => faults_store htop hc ha hholds hf⟩
      | write =>
        rw [operationCode_write] at hc
        obtain ⟨s₁, hseg, h₁, hcalling⟩ := segment_transfer hc ha
          (by cases t.arch <;> rfl) (by cases t.arch <;> rfl) hholds
        exact ⟨_, hseg, h₁.guarded,
          fun htop => faults_write htop hc.tail.tail.tail.tail ha h₁ hf hcalling⟩

/-- **After the last task the program ends.** -/
theorem Represents.exists_exit (ha : p.arch = t.arch) (h : Represents t p w a) (hd : w.todo = []) :
    ∃ b, p.Segment (Inside t w) a 2 b ∧ Inside t w 2 b.state ∧
      ∃ i, p.code[b.position]? = some i ∧
        step p.arch b.state i b.position = (b.state, .exit 0) := by
  rcases w with ⟨todo, world, backed, elapsed⟩
  obtain rfl : todo = [] := hd
  obtain ⟨hholds, -, hcode, -⟩ := h
  cases hcode with
  | done hc =>
    obtain ⟨s', hseg, hs', i, hi, hstep⟩ := exits_epilogue hc ha hholds.guarded
    exact ⟨_, hseg, hs', i, hi, hstep⟩

/-! ## The start of a run -/

theorem represents_start {nodes : List Node} {input : Bytes} {s : State} (hnodes : Runnable nodes)
    (ha : p.arch = t.arch) (hc : p.code.toList.map Instr.op = t.arch.code nodes)
    (h : Ready t input s) :
    ∃ s', p.next? ⟨0, s⟩ = some ⟨1, s.pushWord t⟩ ∧
      p.next? ⟨1, s.pushWord t⟩ = some ⟨2, s'⟩ ∧
      Represents t p (.start nodes input) ⟨2, s'⟩ := by
  have hhas : p.Has 0 (t.arch.code nodes) := by
    rw [Program.Has, hc]
    exact List.prefix_rfl
  rw [Arch.code, List.append_assoc, Program.has_append, Program.has_append] at hhas
  obtain ⟨hpro, hblock, hepi⟩ := hhas
  have hlen : 0 + (prologueCode t.arch).length = 2 := by cases t.arch <;> rfl
  rw [hlen] at hblock hepi
  obtain ⟨s', hpush, hmov, hholds⟩ := segment_prologue hpro ha h
  have htasks := hnodes.tasks .nil
  have hcont := Continues.block hblock (.done hepi)
  rw [List.append_nil] at htasks hcont
  exact ⟨s', hpush, hmov, hholds, le_rfl, hcont, htasks⟩

end TapeLang.Machine
