import TapeLang.Proofs.Reference.Tasks
import TapeLang.Proofs.Source.Position

/-!
# How a source spells its tree

A source that parses spells its tree, with other bytes between the nodes. While a run is in the
middle of the source, the bytes ahead and the open loops spell what is left to do.

* `Spells`: the bytes of nodes, up to the bytes after them.
* `Pending`: the bytes and loops of a run spell its tasks.
* **`spells_of_parse`**: a source spells the tree that the parser returns.
* **`afterLoop_spells`**: the bytes after a loop are found from its body.
-/

namespace TapeLang.Reference

/-- Bytes spell nodes, and other bytes are left. -/
inductive Spells : Bytes → List Node → Bytes → Prop
  | done (code : Bytes) : Spells code [] code
  | skip {b : UInt8} {code rest : Bytes} {nodes : List Node} :
    b ≠ Text.ascii '[' → b ≠ Text.ascii ']' → Kind.ofByte? b = none → Spells code nodes rest →
      Spells (b :: code) nodes rest
  | run {kind : Kind} {count : Int64} {loc : Location} {n : Nat} {code rest : Bytes}
    {nodes : List Node} :
    Kind.ofByte? kind.byte = some kind → kind.coalesces → Node.repeats count = n + 1 →
      code.head? ≠ some kind.byte → Spells code nodes rest →
      Spells (kind.byte :: (List.replicate n kind.byte ++ code))
        ({ kind, count, loc } :: nodes) rest
  | single {kind : Kind} {loc : Location} {code rest : Bytes} {nodes : List Node} :
    Kind.ofByte? kind.byte = some kind → kind.coalesces = false → Spells code nodes rest →
      Spells (kind.byte :: code) ({ kind, loc } :: nodes) rest
  | loop {loc : Location} {body code rest : Bytes} {children nodes : List Node} :
    Spells body children (Text.ascii ']' :: code) → Spells code nodes rest →
      Spells (Text.ascii '[' :: body) ({ kind := .loop, children, loc } :: nodes) rest

theorem byte_of_ofByte? {b : UInt8} {kind : Kind} (h : Kind.ofByte? b = some kind) :
    kind.byte = b := by
  have := List.find?_some h
  exact of_decide_eq_true this

theorem passRun_after (b : UInt8) (c : Cursor) (n : Nat) :
    ∃ k, c.after = List.replicate k b ++ (c.passRun b n).2.after ∧ (c.passRun b n).1 = n + k ∧
      (c.passRun b n).2.after.head? ≠ some b := by
  fun_induction Cursor.passRun b c n with
  | case1 c n ha =>
    refine ⟨0, rfl, rfl, ?_⟩
    rw [Cursor.after_eq_nil_of_advance? ha]
    simp
  | case2 c n d ha hp ih =>
    obtain ⟨k, hk, hn, hh⟩ := ih
    refine ⟨k + 1, ?_, by omega, hh⟩
    rw [(Cursor.advance?_cases hp ha).1, List.replicate_succ, List.cons_append, ← hk]
  | case3 c n d ha hp => exact ⟨0, rfl, rfl, hp⟩

theorem repeats_ofNat {n : Nat} (h : n < 2 ^ 63) : Node.repeats (Int64.ofNat n) = n := by
  rw [Node.repeats, Int64.toInt_ofNat_of_lt h, Int.toNat_natCast]

theorem spells_of_reads {c e : Cursor} {nodes : List Node} (h : c.Reads nodes e)
    (hb : c.Bounded) : Spells c.after nodes e.after := by
  induction h with
  | done c => exact .done _
  | skip hp ho hc hk ha _ ih =>
    rw [(Cursor.advance?_cases hp ha).1]
    exact .skip ho hc hk (ih (hb.advance? ha).1)
  | @run c d e b kind nodes hp hk hco ha _ ih =>
    have hd := (hb.advance? ha).1
    obtain ⟨k, hrun, hcount, hhead⟩ := passRun_after b d 1
    have hspell := ih (hd.passRun 1).1
    have hlen := congrArg List.length hrun
    rw [List.length_append, List.length_replicate] at hlen
    obtain rfl := byte_of_ofByte? hk
    rw [(Cursor.advance?_cases hp ha).1, hrun]
    refine .run hk hco ?_ hhead hspell
    have hc := congrArg List.length (Cursor.advance?_cases hp ha).1
    rw [List.length_cons] at hc
    have := hb.column
    have := hb.top
    rw [repeats_ofNat (by omega)]
    omega
  | single hp hk hco ha _ ih =>
    obtain rfl := byte_of_ofByte? hk
    rw [(Cursor.advance?_cases hp ha).1]
    exact .single hk hco (ih (hb.advance? ha).1)
  | loop hp ha hc hp' ha' _ ihc ihr =>
    have hd := (hb.advance? ha).1
    have he := (Cursor.between_of_reads hc hd).bounded
    have hbody := ihc hd
    rw [(Cursor.advance?_cases hp' ha').1] at hbody
    rw [(Cursor.advance?_cases hp ha).1]
    exact .loop hbody (ihr (he.advance? ha').1)

/-- **A source spells the tree that the parser returns.** -/
theorem spells_of_parse {file source : Bytes} {nodes : List Node}
    (short : source.length < 2 ^ 63) (parsed : parse file source = .ok nodes) :
    Spells source nodes [] := by
  obtain ⟨e, hr, he⟩ := reads_of_parse parsed
  have h := spells_of_reads hr (Cursor.bounded_start file short)
  rwa [he] at h

theorem Spells.runnable {code rest : Bytes} {nodes : List Node} (h : Spells code nodes rest) :
    Runnable nodes := by
  induction h with
  | done => exact .nil
  | skip _ _ _ _ ih => exact ih
  | run hk _ hn _ _ ih =>
    refine .operation hk ?_ ih
    rw [Node.repeats] at hn
    omega
  | single hk _ _ ih => exact .operation hk (by decide) ih
  | loop _ _ ihc ihr => exact .loop ihc ihr

/-! ## Bytes that stand for something else -/

/-- A byte that is no kind of node is none of these. -/
theorem ne_of_ofByte?_eq_none {b : UInt8} (h : Kind.ofByte? b = none) :
    b ≠ Text.ascii '+' ∧ b ≠ Text.ascii '-' ∧ b ≠ Text.ascii '>' ∧ b ≠ Text.ascii '<' ∧
      b ≠ Text.ascii '.' ∧ b ≠ Text.ascii ',' := by
  have hk : ∀ k : Kind, k ∈ [Kind.increment, .decrement, .moveForward, .moveBackward, .write,
      .read] → k.byte ≠ b := by
    intro k hk hb
    exact absurd (List.find?_eq_none.mp h k hk) (by simpa using hb)
  exact ⟨(hk .increment (by decide)).symm, (hk .decrement (by decide)).symm,
    (hk .moveForward (by decide)).symm, (hk .moveBackward (by decide)).symm,
    (hk .write (by decide)).symm, (hk .read (by decide)).symm⟩

theorem perform_skip {b : UInt8} (h : Kind.ofByte? b = none) (w : World) : w.perform b = w := by
  obtain ⟨h₁, h₂, h₃, h₄, h₅, h₆⟩ := ne_of_ofByte?_eq_none h
  simp only [World.perform, h₁, h₂, h₃, h₄, h₅, h₆, if_false]

theorem byte_ne_brackets {kind : Kind} (h : Kind.ofByte? kind.byte = some kind) :
    kind.byte ≠ Text.ascii '[' ∧ kind.byte ≠ Text.ascii ']' := by
  cases kind with
  | loop | unknown => cases h
  | _ => exact ⟨by decide, by decide⟩

/-! ## What is left of a source -/

/-- The bytes ahead and the open loops of a run spell what is left to do. -/
inductive Pending : Bytes → List Bytes → List Task → Prop
  | last {code : Bytes} {nodes : List Node} :
    Spells code nodes [] → Pending code [] (nodes.map .node)
  | inside {code body rest : Bytes} {loops : List Bytes} {nodes children : List Node}
    {todo : List Task} :
    Spells code nodes (Text.ascii ']' :: rest) → Spells body children (Text.ascii ']' :: rest) →
      Pending rest loops todo →
      Pending code (body :: loops) (nodes.map .node ++ .again children :: todo)

theorem afterLoop_cons {b : UInt8} (ho : b ≠ Text.ascii '[') (hc : b ≠ Text.ascii ']')
    (depth : Nat) (code : Bytes) : afterLoop depth (b :: code) = afterLoop depth code := by
  cases depth <;> simp only [afterLoop, if_neg ho, if_neg hc]

theorem afterLoop_spells {code rest : Bytes} {nodes : List Node} (h : Spells code nodes rest)
    (depth : Nat) : afterLoop depth code = afterLoop depth rest := by
  induction h generalizing depth with
  | done => rfl
  | skip ho hc _ _ ih => rw [afterLoop_cons ho hc, ih]
  | @run kind _ _ n code rest _ hk _ _ _ _ ih =>
    obtain ⟨ho, hc⟩ := byte_ne_brackets hk
    have hrun : ∀ n, afterLoop depth (List.replicate n kind.byte ++ code) =
        afterLoop depth code := by
      intro n
      induction n with
      | zero => rfl
      | succ n ihn =>
        rw [List.replicate_succ, List.cons_append, afterLoop_cons ho hc, ihn]
    rw [afterLoop_cons ho hc, hrun, ih]
  | single hk _ _ ih =>
    obtain ⟨ho, hc⟩ := byte_ne_brackets hk
    rw [afterLoop_cons ho hc, ih]
  | loop _ _ ihc ihr =>
    rw [← ihr]
    exact ihc (depth + 1)

end TapeLang.Reference
