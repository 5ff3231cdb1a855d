import TapeLang.Proofs.Listing.Tree
import TapeLang.Proofs.Output.Delivery
import TapeLang.Proofs.Tree.Preorder

/-!
# Listings as translations

A listing is a translation of its tree by recursion, cut off at the first node that has no code.

* `translate`: the translation of a node, with a gap for every node without code.
* `cut`: the lines before the first gap.
* **`lines_eq_cut`**: the lines of a listing are those of the translation before its first gap.
* **`cut_translateAll`**: the first gap is the first node of an unknown kind in reading order.
* **`listing_translates`**: what a writer that never fails takes in.
-/

namespace TapeLang

namespace Assembly

/-- A part of a translation: a line, or the place of a node that has no code. -/
inductive Piece where
  | line (l : Line)
  | gap (u : Unknown)
  deriving DecidableEq, Repr

variable (d : Arch.Dialect)

mutual

/-- The translation of a node. A loop is a jump to its end, the label of its start, its children,
the label of its end, a comparison of the cell with zero, and a jump back to the start. -/
def translate : Node → List Piece
  | ⟨.loop, _, children, loc⟩ =>
    [.line (jump "jmp" (siteLabel loc .loopEnd)), .line (.label (siteLabel loc .loopStart))] ++
      translateAll children ++
      [.line (.label (siteLabel loc .loopEnd)), .line (instr2 "cmpw" (utf8 "$0") (cell d)),
        .line (jump "jne" (siteLabel loc .loopStart))]
  | ⟨kind, count, _, loc⟩ =>
    match operation? d kind count loc with
    | some lines => lines.map .line
    | none => [.gap ⟨loc, kind⟩]

/-- The translations of nodes, one after the other. -/
def translateAll : List Node → List Piece
  | [] => []
  | n :: ns => translate n ++ translateAll ns

end

theorem translateAll_eq_flatMap (nodes : List Node) :
    translateAll d nodes = nodes.flatMap (translate d) := by
  induction nodes with
  | nil => rfl
  | cons n ns ih => rw [translateAll, ih, List.flatMap_cons]

theorem translate_loop (count : Int64) (children : List Node) (loc : Location) :
    translate d ⟨.loop, count, children, loc⟩ =
      (loopHead loc).map .line ++ translateAll d children ++ (loopFoot d loc).map .line :=
  rfl

theorem translate_operation {kind : Kind} (hk : kind ≠ .loop) (count : Int64)
    (children : List Node) (loc : Location) :
    translate d ⟨kind, count, children, loc⟩ =
      match operation? d kind count loc with
      | some lines => lines.map .line
      | none => [.gap ⟨loc, kind⟩] := by
  cases kind with
  | loop => exact absurd rfl hk
  | _ => rfl

/-! ## Cutting at the first gap -/

/-- The lines before the first gap, and the node that the gap was left for. -/
def cut : List Piece → List Line × Option Unknown
  | [] => ([], none)
  | .line l :: ps => (l :: (cut ps).1, (cut ps).2)
  | .gap u :: _ => ([], some u)

theorem cut_lines (ls : List Line) : cut (ls.map .line) = (ls, none) := by
  induction ls with
  | nil => rfl
  | cons l ls ih => simp [cut, ih]

theorem cut_append (a b : List Piece) :
    cut (a ++ b) =
      match cut a with
      | (ls, none) => (ls ++ (cut b).1, (cut b).2)
      | (ls, some u) => (ls, some u) := by
  induction a with
  | nil => rfl
  | cons p a ih =>
    cases p with
    | gap u => rfl
    | line l =>
      simp only [List.cons_append, cut, ih]
      rcases cut a with ⟨ls, _ | u⟩ <;> rfl

theorem cut_lines_append (ls : List Line) (ps : List Piece) :
    cut (ls.map .line ++ ps) = (ls ++ (cut ps).1, (cut ps).2) := by
  rw [cut_append, cut_lines]

theorem eq_lines_of_cut {ps : List Piece} {ls : List Line} (h : cut ps = (ls, none)) :
    ps = ls.map .line := by
  induction ps generalizing ls with
  | nil =>
    cases h
    rfl
  | cons p ps ih =>
    cases p with
    | gap u => cases h
    | line l =>
      simp only [cut, Prod.mk.injEq] at h
      rw [← h.1, List.map_cons, ← ih (Prod.ext rfl h.2)]

theorem exists_of_cut {ps : List Piece} {ls : List Line} {u : Unknown}
    (h : cut ps = (ls, some u)) : ∃ after, ps = ls.map .line ++ .gap u :: after := by
  induction ps generalizing ls with
  | nil => cases h
  | cons p ps ih =>
    cases p with
    | gap v =>
      cases h
      exact ⟨ps, rfl⟩
    | line l =>
      simp only [cut, Prod.mk.injEq] at h
      obtain ⟨after, ha⟩ := ih (Prod.ext rfl h.2)
      refine ⟨after, ?_⟩
      rw [← h.1, List.map_cons, List.cons_append, ← ha]

/-! ## The walk and the translation -/

theorem blockLines_eq_cut (nodes : List Node) :
    blockLines d nodes = cut (translateAll d nodes) := by
  induction nodes using Node.block_induction with
  | nil => rfl
  | loop count children loc rest ihc ihr =>
    rw [blockLines, nodeLines, ihc, ihr, translateAll, translate_loop, cut_append,
      List.append_assoc, cut_lines_append, cut_append]
    rcases cut (translateAll d children) with ⟨body, _ | u⟩ <;> simp [cut_lines]
  | operation kind count children loc rest hk ihr =>
    rw [blockLines, nodeLines_operation d hk, ihr, translateAll, translate_operation d hk]
    rcases operation? d kind count loc with _ | lines
    · rfl
    · simp [cut_lines_append]

/-- The translation of a program, between the prologue and the epilogue. -/
def translation (nodes : List Node) : List Piece :=
  (prologue d).map .line ++ nodes.flatMap (translate d) ++ (epilogue d).map .line

/-- **The lines of a listing** are those of the translation before its first gap. -/
theorem lines_eq_cut (nodes : List Node) : lines d nodes = cut (translation d nodes) := by
  rw [translation, ← translateAll_eq_flatMap, cut_append, cut_lines_append, ← blockLines_eq_cut]
  rw [lines, walk_eq]
  rcases blockLines d nodes with ⟨body, _ | u⟩
  · simp [walk, cut_lines]
  · simp

/-! ## Nodes of unknown kinds -/

theorem operation?_eq_none {kind : Kind} (hk : kind ≠ .loop) (count : Int64) (loc : Location) :
    operation? d kind count loc = none ↔ kind ∉ Kind.known := by
  cases kind with
  | loop => exact absurd rfl hk
  | unknown code => simp [operation?, Kind.known]
  | _ => simp [operation?, Kind.known]

/-- **The first gap** is the first node of an unknown kind in reading order. -/
theorem cut_translateAll (nodes : List Node) :
    (cut (translateAll d nodes)).2 =
      ((Node.throughLoops nodes).find? Node.isUnknown).map fun n => ⟨n.loc, n.kind⟩ := by
  -- Only the children of a loop are translated, and only they are searched.
  induction nodes using Node.block_induction with
  | nil => rfl
  | loop count children loc rest ihc ihr =>
    have hn : Node.isUnknown ⟨.loop, count, children, loc⟩ = false := by
      simp [Node.isUnknown, Kind.known]
    rw [translateAll, translate_loop, cut_append, List.append_assoc, cut_lines_append, cut_append,
      Node.throughLoops_loop, List.find?_cons_of_neg (by simp [hn]), List.find?_append]
    rcases hc : cut (translateAll d children) with ⟨body, _ | u⟩
    · rw [hc, eq_comm, Option.map_eq_none_iff] at ihc
      simp [cut_lines, ihc, ihr]
    · rw [hc, eq_comm, Option.map_eq_some_iff] at ihc
      obtain ⟨n, hfind, hu⟩ := ihc
      simp [hfind, hu]
  | operation kind count children loc rest hk ihr =>
    rw [translateAll, translate_operation d hk, Node.throughLoops_operation hk]
    rcases ho : operation? d kind count loc with _ | lines
    · have hn : Node.isUnknown ⟨kind, count, children, loc⟩ :=
        decide_eq_true ((operation?_eq_none d hk count loc).mp ho)
      rw [List.find?_cons_of_pos hn]
      rfl
    · have hn : Node.isUnknown ⟨kind, count, children, loc⟩ = false := by
        refine decide_eq_false fun hu => ?_
        rw [(operation?_eq_none d hk count loc).mpr hu] at ho
        cases ho
      rw [List.find?_cons_of_neg (by simp [hn]), cut_lines_append, ihr]

theorem cut_translation (nodes : List Node) :
    (cut (translation d nodes)).2 =
      ((Node.throughLoops nodes).find? Node.isUnknown).map fun n => ⟨n.loc, n.kind⟩ := by
  rw [← cut_translateAll d, translation, ← translateAll_eq_flatMap, cut_append, cut_lines_append]
  rcases cut (translateAll d nodes) with ⟨body, _ | u⟩ <;> simp [cut_lines]

/-- The text of lines. -/
def textOf (ls : List Line) : Bytes := (ls.map Line.render).flatten

end Assembly

open Assembly

/-- **What a writer that never fails takes in** of the listing of any tree: its translation before
the first gap. -/
theorem listing_translates (arch : Arch) (nodes : List Node) {δ σ : Type} {w : Writer δ σ}
    {received : σ → Bytes} {live : σ → Prop} (unfailing : w.Unfailing received live) {s : σ}
    (hs : live s) :
    match (Node.throughLoops nodes).find? Node.isUnknown with
    | none => ∃ whole s', translation arch.dialect nodes = whole.map .line ∧
        (arch.listing nodes).send w s = ⟨(textOf whole).length, none, s'⟩ ∧
        received s' = received s ++ textOf whole
    | some n => ∃ before after s',
        translation arch.dialect nodes = before.map .line ++ .gap ⟨n.loc, n.kind⟩ :: after ∧
        (arch.listing nodes).send w s =
          ⟨(textOf before).length, some (.broken ⟨n.loc, n.kind⟩), s'⟩ ∧
        received s' = received s ++ textOf before ∧
        Unknown.message ⟨n.loc, n.kind⟩ =
          n.loc.text ++ utf8 ": cannot generate code for " ++ utf8 n.kind.name := by
  obtain ⟨s', hsend, hreceived⟩ := unfailing.send (arch.listing nodes) hs
  have hgap := cut_translation arch.dialect nodes
  rcases hcut : cut (translation arch.dialect nodes) with ⟨ls, failure⟩
  have hlisting : arch.listing nodes = ⟨ls.map Line.render, failure⟩ := by
    rw [Arch.listing, lines_eq_cut, hcut]
  rw [hlisting] at hsend hreceived ⊢
  rw [hcut] at hgap
  rcases hfind : (Node.throughLoops nodes).find? Node.isUnknown with _ | n
  · rw [hfind] at hgap
    obtain rfl : failure = none := hgap
    exact ⟨ls, s', eq_lines_of_cut hcut, hsend, hreceived⟩
  · rw [hfind] at hgap
    obtain rfl : failure = some ⟨n.loc, n.kind⟩ := hgap
    obtain ⟨after, hafter⟩ := exists_of_cut hcut
    exact ⟨ls, after, s', hafter, hsend, hreceived, rfl⟩

/-- A loop is cut off in the middle by a node of an unknown kind. -/
theorem listing_translates_gap :
    let odd : Location := ⟨"odd", 1, 3⟩
    let nodes : List Node := [{ kind := .loop, children := [{ kind := .increment, count := 2 },
      { kind := .unknown 9, loc := odd }] }]
    ∃ before after s',
      translation Arch.x86.dialect nodes = before.map .line ++ .gap ⟨odd, .unknown 9⟩ :: after ∧
      (Arch.x86.listing nodes).send Sink.writer {} =
        ⟨(textOf before).length, some (.broken ⟨odd, .unknown 9⟩), s'⟩ ∧
      Sink.contents s' = textOf before := by
  intro odd nodes
  obtain ⟨before, after, s', hgap, hsend, hreceived, -⟩ :=
    listing_translates .x86 nodes Sink.unfailing (s := {}) rfl
  exact ⟨before, after, s', hgap, hsend, hreceived⟩

end TapeLang
