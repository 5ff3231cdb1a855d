import TapeLang.Proofs.Reference.Spelling
import TapeLang.Proofs.Source.Diagnosis

/-!
# What is kept of a source

A source has a tree if and only if its brackets are balanced, and the tree keeps every instruction
in its place: printed again, it is the source without its comments.

* `isInstruction`: the bytes that mean something.
* **`Spells.renderAllOnto`**: a tree prints the instructions that spell it.
* `Spells.exists_balanced`: what spells a tree is balanced.
* **`parse_renders_balanced`**: which sources have a tree, and what it prints.
-/

namespace TapeLang

/-- Whether a byte is one of the eight instructions. -/
def isInstruction (b : UInt8) : Bool := (utf8 "+-<>.,[]").contains b

theorem isInstruction_byte {kind : Kind} (h : Kind.ofByte? kind.byte = some kind) :
    isInstruction kind.byte := by
  cases kind with
  | loop | unknown => cases h
  | _ => decide

theorem not_isInstruction {b : UInt8} (hopen : b ≠ Text.ascii '[') (hclose : b ≠ Text.ascii ']')
    (h : Kind.ofByte? b = none) : isInstruction b = false := by
  have hmem : ∀ x ∈ utf8 "+-<>.,[]",
      x = Text.ascii '[' ∨ x = Text.ascii ']' ∨ (Kind.ofByte? x).isSome := by decide +kernel
  rw [isInstruction, Bool.eq_false_iff, ne_eq, List.contains_iff_mem]
  intro hb
  rcases hmem b hb with hb | hb | hb
  · exact hopen hb
  · exact hclose hb
  · simp [h] at hb

namespace Node

theorem renderOnto_operation {kind : Kind} (hk : kind ≠ .loop) (count : Int64)
    (children : List Node) (loc : Location) (acc : Bytes) :
    renderOnto ⟨kind, count, children, loc⟩ acc =
      if kind.coalesces then List.replicate (repeats count) kind.byte ++ acc
      else kind.byte :: acc := by
  cases kind with
  | loop => exact absurd rfl hk
  | _ => rw [renderOnto]; exact fun h => Kind.noConfusion h

end Node

open Reference

/-- **A tree prints the instructions that spell it.** Both are read backwards, since the printer
puts new bytes in front. -/
theorem Reference.Spells.renderAllOnto {code rest : Bytes} {nodes : List Node}
    (h : Spells code nodes rest) (acc : Bytes) :
    (rest.filter isInstruction).reverse ++ Node.renderAllOnto nodes acc =
      (code.filter isInstruction).reverse ++ acc := by
  induction h generalizing acc with
  | done => rw [Node.renderAllOnto]
  | skip hopen hclose hk _ ih =>
    rw [ih, List.filter_cons_of_neg (by simp [not_isInstruction hopen hclose hk])]
  | @run kind count loc n code rest nodes hk hco hn _ _ ih =>
    have hbyte := isInstruction_byte hk
    rw [Node.renderAllOnto, ih, Node.renderOnto_operation (ne_loop_of_byte hk), if_pos hco, hn]
    simp [hbyte, List.replicate_succ']
  | @single kind loc code rest nodes hk hco _ ih =>
    have hbyte := isInstruction_byte hk
    rw [Node.renderAllOnto, ih, Node.renderOnto_operation (ne_loop_of_byte hk),
      if_neg (by simp [hco])]
    simp [hbyte]
  | @loop loc body code rest children nodes _ _ ihc ihr =>
    have hopen : isInstruction (Text.ascii '[') := by decide
    have hclose : isInstruction (Text.ascii ']') := by decide
    have hbody := ihc (Text.ascii '[' :: acc)
    rw [List.filter_cons_of_pos hclose, List.reverse_cons, List.append_assoc] at hbody
    rw [Node.renderAllOnto, ihr, Node.renderOnto, List.filter_cons_of_pos hopen, List.reverse_cons,
      List.append_assoc]
    exact hbody

theorem Reference.Spells.exists_balanced {code rest : Bytes} {nodes : List Node}
    (h : Spells code nodes rest) : ∃ text, code = text ++ rest ∧ Balanced text := by
  induction h with
  | done => exact ⟨[], rfl, balanced_nil⟩
  | @skip b _ _ _ hopen hclose _ _ ih =>
    obtain ⟨text, rfl, hb⟩ := ih
    refine ⟨[b] ++ text, rfl, .append (balanced_of_notMem ?_ ?_) hb⟩
    · simpa using hopen.symm
    · simpa using hclose.symm
  | @run kind _ _ n _ _ _ hk _ _ _ _ ih =>
    obtain ⟨text, rfl, hb⟩ := ih
    obtain ⟨hopen, hclose⟩ := byte_ne_brackets hk
    refine ⟨List.replicate (n + 1) kind.byte ++ text, by simp [List.replicate_succ],
      .append (balanced_of_notMem ?_ ?_) hb⟩
    · simpa using hopen.symm
    · simpa using hclose.symm
  | @single kind _ _ _ _ hk _ _ ih =>
    obtain ⟨text, rfl, hb⟩ := ih
    obtain ⟨hopen, hclose⟩ := byte_ne_brackets hk
    refine ⟨[kind.byte] ++ text, rfl, .append (balanced_of_notMem ?_ ?_) hb⟩
    · simpa using hopen.symm
    · simpa using hclose.symm
  | loop _ _ ihc ihr =>
    obtain ⟨body, hbody, hbalanced⟩ := ihc
    obtain ⟨text, rfl, hb⟩ := ihr
    exact ⟨_ ++ text, by simp [hbody], hbalanced.enclose.append hb⟩

/-- **Which sources have a tree, and what it prints**: the balanced ones, and their instructions. -/
theorem parse_renders_balanced (file source : Bytes) :
    ((∃ nodes, parse file source = .ok nodes) ↔ Balanced source) ∧
      (source.length < 2 ^ 63 → ∀ nodes, parse file source = .ok nodes →
        Node.renderAll nodes = source.filter isInstruction) := by
  refine ⟨⟨?_, fun h => exists_parse (bracketErrors_eq_nil.mpr h)⟩, fun short nodes parsed => ?_⟩
  · rintro ⟨nodes, parsed⟩
    by_contra h
    rw [parse_of_bracketErrors (mt bracketErrors_eq_nil.mp h)] at parsed
    cases parsed
  · have h := (spells_of_parse short parsed).renderAllOnto []
    rw [List.append_nil] at h
    rw [Node.renderAll, ← List.reverse_reverse (source.filter isInstruction), ← h]
    rfl

/-- A source with comments and nested loops. -/
theorem parse_renders_balanced_comments :
    ∃ nodes, parse "comments" (utf8 "read,\n[copy >+++< [-] to x]") = .ok nodes ∧
      Node.renderAll nodes = utf8 ",[>+++<[-]]" := by
  obtain ⟨hiff, hrender⟩ := parse_renders_balanced "comments"
    (utf8 "read,\n[copy >+++< [-] to x]")
  obtain ⟨nodes, parsed⟩ := hiff.mpr (by decide +kernel)
  exact ⟨nodes, parsed, (hrender (by decide) nodes parsed).trans (by decide +kernel)⟩

end TapeLang
