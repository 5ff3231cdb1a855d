import TapeLang.Proofs.Listing.Shape
import TapeLang.Proofs.Output.Truncation

/-!
# Writing a listing to a writer that fails

The lines of a listing can be written while the tree is walked. The first failure is then kept, and
no line reaches the writer after it. The walk itself looks for a failure only between two nodes, so
the rest of a node's lines and the epilogue are still put forward, in vain. What comes of it is what
comes of writing the lines of the finished listing one by one.

* `Delivery.put`, `Delivery.putLines`: writing unless a write has failed.
* `emitWalk`, `Arch.emit`: writing while the tree is walked.
* **`emit_eq_send`**: that is the same as writing the listing.
* **`listing_truncates`**: what a writer that fails takes in of a listing.
-/

namespace TapeLang

open Assembly

variable {δ σ : Type} (w : Writer δ σ)

/-! ## Writing while walking -/

/-- Writes a chunk, unless a write has failed before. -/
def Delivery.put (d : Delivery δ σ) (chunk : Bytes) : Delivery δ σ :=
  match d.failure with
  | some _ => d
  | none =>
    match w.write d.state chunk with
    | .complete s => ⟨d.count + chunk.length, none, s⟩
    | .failed taken error s => ⟨d.count + taken, some error, s⟩

/-- Writes lines, as far as no write fails. -/
def Delivery.putLines (d : Delivery δ σ) (ls : List Line) : Delivery δ σ :=
  ls.foldl (fun d l => d.put w l.render) d

variable {w} in
theorem Delivery.putLines_of_failure {d : Delivery δ σ} {error : δ}
    (h : d.failure = some error) (ls : List Line) : d.putLines w ls = d := by
  induction ls with
  | nil => rfl
  | cons l ls ih =>
    have hput : d.put w l.render = d := by
      simp only [put, h]
    rw [putLines, List.foldl_cons, hput]
    exact ih

theorem Delivery.putLines_append (d : Delivery δ σ) (a b : List Line) :
    d.putLines w (a ++ b) = (d.putLines w a).putLines w b :=
  List.foldl_append

theorem Delivery.putLines_eq_sendAll (ls : List Line) (count : Nat) (s : σ) :
    Delivery.putLines w ⟨count, none, s⟩ ls = w.sendAll (ls.map Line.render) count s := by
  induction ls generalizing count s with
  | nil => rfl
  | cons l ls ih =>
    rw [putLines, List.foldl_cons, List.map_cons, Writer.sendAll, put]
    dsimp only
    rcases w.write s l.render with t | ⟨taken, error, t⟩
    · exact ih _ _
    · exact putLines_of_failure rfl ls

variable (d : Arch.Dialect)

/-- Walks nodes that stand inside open loops, innermost first, and writes their lines. Whether a
write has failed is looked at before each step. -/
def emitWalk (nodes : List Node) (loops : List OpenLoop) (e : Delivery δ σ) :
    Delivery δ σ × Option Unknown :=
  if e.failure.isSome then (e, none)
  else
    match nodes, loops with
    | [], [] => (e, none)
    | [], ⟨loc, after⟩ :: loops => emitWalk after loops (e.putLines w (loopFoot d loc))
    | ⟨.loop, _, children, loc⟩ :: rest, loops =>
      emitWalk children (⟨loc, rest⟩ :: loops) (e.putLines w (loopHead loc))
    | ⟨kind, count, _, loc⟩ :: rest, loops =>
      match operation? d kind count loc with
      | some lines => emitWalk rest loops (e.putLines w lines)
      | none => (e, some ⟨loc, kind⟩)
termination_by sizeOf nodes + sizeOf loops
decreasing_by
  all_goals simp_wf
  all_goals omega

/-- Writes the listing of a program while the tree is walked. -/
def Arch.emit (arch : Arch) (nodes : List Node) (s : σ) : Emitted Unknown δ σ :=
  match emitWalk w arch.dialect nodes [] (.putLines w ⟨0, none, s⟩ (prologue arch.dialect)) with
  | (e, some u) => ⟨e.count, some (.broken u), e.state⟩
  | (e, none) =>
    let e := e.putLines w (epilogue arch.dialect)
    ⟨e.count, e.failure.map .write, e.state⟩

/-! ## The walk step by step -/

section

variable {w d}

theorem emitWalk_of_failure {e : Delivery δ σ} {error : δ} (h : e.failure = some error)
    (nodes : List Node) (loops : List OpenLoop) : emitWalk w d nodes loops e = (e, none) := by
  rw [emitWalk.eq_def, h]
  rfl

end

theorem emitWalk_nil (e : Delivery δ σ) : emitWalk w d [] [] e = (e, none) := by
  rw [emitWalk.eq_def]
  split <;> rfl

/-- Whether or not a write has failed, the walk goes on below a loop. -/
theorem emitWalk_foot (loc : Location) (after : List Node) (loops : List OpenLoop)
    (e : Delivery δ σ) :
    emitWalk w d [] (⟨loc, after⟩ :: loops) e =
      emitWalk w d after loops (e.putLines w (loopFoot d loc)) := by
  rcases he : e.failure with _ | error
  · rw [emitWalk.eq_def, he]
    rfl
  · rw [Delivery.putLines_of_failure he, emitWalk_of_failure he, emitWalk_of_failure he]

theorem emitWalk_loop (count : Int64) (children : List Node) (loc : Location) (rest : List Node)
    (loops : List OpenLoop) (e : Delivery δ σ) :
    emitWalk w d (⟨.loop, count, children, loc⟩ :: rest) loops e =
      emitWalk w d children (⟨loc, rest⟩ :: loops) (e.putLines w (loopHead loc)) := by
  rcases he : e.failure with _ | error
  · rw [emitWalk.eq_def, he]
    rfl
  · rw [Delivery.putLines_of_failure he, emitWalk_of_failure he, emitWalk_of_failure he]

theorem emitWalk_operation {kind : Kind} (hk : kind ≠ .loop) (count : Int64)
    (children : List Node) (loc : Location) (rest : List Node) (loops : List OpenLoop)
    (e : Delivery δ σ) :
    emitWalk w d (⟨kind, count, children, loc⟩ :: rest) loops e =
      match operation? d kind count loc with
      | some ls => emitWalk w d rest loops (e.putLines w ls)
      | none => (e, if e.failure.isSome then none else some ⟨loc, kind⟩) := by
  rcases he : e.failure with _ | error
  · rw [emitWalk.eq_def, he]
    cases kind with
    | loop => exact absurd rfl hk
    | _ => rfl
  · rw [emitWalk_of_failure he]
    rcases operation? d kind count loc with _ | ls
    · rfl
    · dsimp only
      rw [Delivery.putLines_of_failure he, emitWalk_of_failure he]

/-! ## The walk as a whole -/

/-- What comes of writing lines that a walk has collected. A node without code is not reached if a
write has failed before. -/
def emitted (e : Delivery δ σ) (r : List Line × Option Unknown) : Delivery δ σ × Option Unknown :=
  (e.putLines w r.1, if (e.putLines w r.1).failure.isSome then none else r.2)

theorem emitWalk_putLines (nodes : List Node) (loops : List OpenLoop) (acc : List Line)
    (e : Delivery δ σ) :
    emitWalk w d nodes loops (e.putLines w acc.reverse) = emitted w e (walk d nodes loops acc) := by
  -- The walk that collects lines makes the same steps and has collected what was written so far.
  induction nodes, loops, acc using walk.induct d with
  | case1 acc =>
    rw [walk, emitWalk_nil]
    simp [emitted]
  | case2 acc loc after loops ih =>
    rw [walk, emitWalk_foot, ← Delivery.putLines_append, ← ih]
    simp
  | case3 loops acc count children loc rest ih =>
    rw [walk, emitWalk_loop, ← Delivery.putLines_append, ← ih]
    simp
  | case4 loops acc kind count children loc rest hk ls ho ih =>
    rw [walk_operation d hk, emitWalk_operation w d hk, ho]
    dsimp only
    rw [← Delivery.putLines_append, ← ih]
    simp
  | case5 loops acc kind count children loc rest hk ho =>
    rw [walk_operation d hk, emitWalk_operation w d hk, ho]
    rfl

/-- **Writing while walking is writing the listing.** -/
theorem emit_eq_send (arch : Arch) (nodes : List Node) (s : σ) :
    arch.emit w nodes s = (arch.listing nodes).send w s := by
  have hwalk := emitWalk_putLines w arch.dialect nodes [] (prologue arch.dialect).reverse
    ⟨0, none, s⟩
  rw [List.reverse_reverse] at hwalk
  rw [Arch.emit, hwalk, Arch.listing, lines]
  rcases walk arch.dialect nodes [] (prologue arch.dialect).reverse with ⟨body, _ | u⟩
  · have hbody : emitted w ⟨0, none, s⟩ (body, none) = (.putLines w ⟨0, none, s⟩ body, none) := by
      simp [emitted]
    rw [hbody]
    dsimp only
    rw [← Delivery.putLines_append, Delivery.putLines_eq_sendAll]
    simp [Emission.send]
  · rcases hf : (Delivery.putLines w ⟨0, none, s⟩ body).failure with _ | error
    · have hbody : emitted w ⟨0, none, s⟩ (body, some u) =
          (.putLines w ⟨0, none, s⟩ body, some u) := by
        simp [emitted, hf]
      rw [hbody]
      rw [Delivery.putLines_eq_sendAll] at hf ⊢
      simp [Emission.send, hf]
    · have hbody : emitted w ⟨0, none, s⟩ (body, some u) =
          (.putLines w ⟨0, none, s⟩ body, none) := by
        simp [emitted, hf]
      rw [hbody]
      dsimp only
      rw [Delivery.putLines_of_failure hf]
      rw [Delivery.putLines_eq_sendAll] at hf ⊢
      simp [Emission.send, hf]

/-! ## Writers that fail -/

theorem listing_eq_cut (arch : Arch) (nodes : List Node) {ls : List Line} {u : Option Unknown}
    (h : cut (translation arch.dialect nodes) = (ls, u)) :
    arch.listing nodes = ⟨ls.map Line.render, u⟩ ∧ ∀ l ∈ ls, l.Plain := by
  rw [← lines_eq_cut] at h
  refine ⟨?_, ?_⟩
  · rw [Arch.listing, h]
  · have hplain := plain_of_mem_lines arch nodes
    rwa [h] at hplain

theorem exists_lines_of_known (arch : Arch) {nodes : List Node}
    (known : ∀ n ∈ Node.throughLoops nodes, n.kind ∈ Kind.known) :
    ∃ ls : List Line, translation arch.dialect nodes = ls.map .line ∧
      arch.listing nodes = ⟨ls.map Line.render, none⟩ ∧ ∀ l ∈ ls, l.Plain := by
  have hfind : (Node.throughLoops nodes).find? Node.isUnknown = none := by
    rw [List.find?_eq_none]
    intro n hn
    simp [Node.isUnknown, known n hn]
  have hgap := cut_translation arch.dialect nodes
  rw [hfind] at hgap
  rcases hcut : cut (translation arch.dialect nodes) with ⟨ls, u⟩
  rw [hcut] at hgap
  obtain rfl : u = none := hgap
  exact ⟨ls, eq_lines_of_cut hcut, listing_eq_cut arch nodes hcut⟩

theorem nil_notMem_render (ls : List Line) : [] ∉ ls.map Line.render := by
  rw [List.mem_map]
  rintro ⟨l, -, hl⟩
  rw [l.render_eq] at hl
  simp at hl

/-- **What a writer that fails takes in of a listing** is a beginning of it, whose length is
returned with the first error. -/
theorem listing_truncates (arch : Arch) {nodes : List Node}
    (known : ∀ n ∈ Node.throughLoops nodes, n.kind ∈ Kind.known) :
    ∃ ls : List Line, translation arch.dialect nodes = ls.map .line ∧
      (∀ (δ σ : Type) (w : Writer δ σ) (s : σ),
        arch.emit w nodes s = (arch.listing nodes).send w s) ∧
      (∀ (δ σ : Type) (w : Writer δ σ) (received : σ → Bytes), w.Honest received → ∀ s,
        let r := (arch.listing nodes).send w s
        r.count ≤ (textOf ls).length ∧ received r.state = received s ++ (textOf ls).take r.count ∧
          (r.fault = none ↔ r.count = (textOf ls).length) ∧
          ∃ failure log, r.fault = failure.map .write ∧
            (arch.listing nodes).send w.recorded (s, []) = ⟨r.count, r.fault, (r.state, log)⟩ ∧
            Attempted (ls.map Line.render) failure log) ∧
      ∀ (s : Sink) (k : Nat),
        let r := (arch.listing nodes).send Sink.writer s
        (s.room = .writes k → r.state.contents = s.contents ++ Text.firstLines k (textOf ls) ∧
          r.fault = if ls.length ≤ k then none else some (.write .diskFull)) ∧
        (s.room = .bytes k → r.state.contents = s.contents ++ (textOf ls).take k ∧
          r.fault = if (textOf ls).length ≤ k then none else some (.write .shortDevice)) := by
  obtain ⟨ls, htranslation, hlisting, hplain⟩ := exists_lines_of_known arch known
  refine ⟨ls, htranslation, fun δ σ w s => emit_eq_send w arch nodes s, ?_, ?_⟩
  · intro δ σ w received honest s r
    have hr : r = ⟨(w.sendAll (ls.map Line.render) 0 s).count,
        (w.sendAll (ls.map Line.render) 0 s).failure.map .write,
        (w.sendAll (ls.map Line.render) 0 s).state⟩ := by
      simp [r, hlisting, Emission.send]
    obtain ⟨n, hn, hcount, hreceived, hall⟩ := honest.sendAll (nil_notMem_render ls) 0 s
    obtain ⟨log, hattempted, hrecorded⟩ := w.sendAll_recorded (ls.map Line.render) 0 s []
    rw [Nat.zero_add] at hcount
    rw [hr]
    refine ⟨hcount ▸ hn, hcount ▸ hreceived, ?_, _, log, rfl, ?_, hattempted⟩
    · rw [Option.map_eq_none_iff, hcount]
      exact hall
    · simp [hlisting, Emission.send, hrecorded]
  · intro s k r
    refine ⟨fun hs => ?_, fun hs => ?_⟩
    · simp only [r, hlisting, Emission.send, Sink.sendAll_writes hs, firstLines_textOf hplain]
      rw [Sink.contents_take, ← List.map_take, List.length_map]
      exact ⟨rfl, by split_ifs <;> rfl⟩
    · have htext : (ls.map Line.render).flatten = textOf ls := rfl
      simp only [r, hlisting, Emission.send, Sink.sendAll_bytes hs, htext]
      rw [Sink.contents_take]
      exact ⟨rfl, by split_ifs <;> rfl⟩

/-- A program with a loop, written to a sink that takes three writes. -/
theorem listing_truncates_three :
    let nodes : List Node := [{ kind := .increment, count := 1 },
      { kind := .loop, children := [{ kind := .moveForward, count := 1 }] }]
    let r := Arch.amd64.emit Sink.writer nodes { room := .writes 3 }
    let start := utf8 "  .text\n  .globl _start\n_start:\n"
    r.state.contents = start ∧ r.count = start.length ∧ r.fault = some (.write .diskFull) := by
  intro nodes r start
  have known : ∀ n ∈ Node.throughLoops nodes, n.kind ∈ Kind.known := by decide
  obtain ⟨ls, hls, hemit, hhonest, hsink⟩ := listing_truncates .amd64 known
  obtain rfl : (cut (translation Arch.amd64.dialect nodes)).1 = ls := by
    rw [hls, cut_lines]
  have hr : r = (Arch.amd64.listing nodes).send Sink.writer { room := .writes 3 } :=
    hemit WriteError Sink Sink.writer _
  obtain ⟨hcontents, hfault⟩ := (hsink { room := .writes 3 } 3).1 rfl
  obtain ⟨hle, hreceived, -⟩ :=
    hhonest WriteError Sink Sink.writer _ Sink.honest { room := .writes 3 }
  rw [← hr] at hcontents hfault hle hreceived
  have hstart : r.state.contents = start := hcontents
  refine ⟨hstart, ?_, hfault⟩
  rw [← hstart, hreceived]
  exact (List.length_take_of_le hle).symm

end TapeLang
