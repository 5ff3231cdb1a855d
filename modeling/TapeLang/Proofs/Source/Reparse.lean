import TapeLang.Proofs.Tree.Coalesce

/-!
# Reading back what a tree prints

A source spells one tree only, up to locations. What a tree prints spells the tree with its runs
joined, since a run goes on into the next sibling of the same kind, so that is what comes back.

* **`Spells.unique`**: a source spells one tree only.
* **`spells_renderAll`**: a separated tree is spelt by what it prints.
* **`parse_renderAll_coalesces`**: what the parser makes of the text of a tree.
-/

namespace TapeLang

open Node

namespace Reference

/-- The source is at its end, or at a bracket that closes a loop around it. -/
def Stops (rest : Bytes) : Prop := ∀ b ∈ rest.head?, b = Text.ascii ']'

theorem stops_nil : Stops [] := by simp [Stops]

theorem stops_closer (rest : Bytes) : Stops (Text.ascii ']' :: rest) := by simp [Stops]

theorem Stops.ne_closer {b : UInt8} {rest : Bytes} (h : Stops (b :: rest))
    (hb : b ≠ Text.ascii ']') : False :=
  hb (h b rfl)

/-! ## What the first byte tells -/

section Inversion

variable {kind : Kind} {tail rest : Bytes} {nodes : List Node}

theorem Spells.run_cases (h : Spells (kind.byte :: tail) nodes rest) (hr : Stops rest)
    (hk : Kind.ofByte? kind.byte = some kind) (hco : kind.coalesces) :
    ∃ count loc n code ns, nodes = { kind, count, loc } :: ns ∧ repeats count = n + 1 ∧
      tail = List.replicate n kind.byte ++ code ∧ code.head? ≠ some kind.byte ∧
      Spells code ns rest := by
  generalize hcode : kind.byte :: tail = code at h
  cases h with
  | done =>
    subst hcode
    exact (hr.ne_closer (byte_ne_brackets hk).2).elim
  | skip _ _ hnone _ =>
    obtain ⟨rfl, -⟩ := List.cons.inj hcode
    rw [hk] at hnone
    cases hnone
  | @run kind' count loc n code _ ns hk' _ hn hhead hs =>
    obtain ⟨hbyte, rfl⟩ := List.cons.inj hcode
    obtain rfl : kind = kind' := by
      rw [hbyte, hk'] at hk
      exact (Option.some.inj hk).symm
    exact ⟨count, loc, n, code, ns, rfl, hn, rfl, hhead, hs⟩
  | single hk' hco' _ =>
    obtain ⟨hbyte, -⟩ := List.cons.inj hcode
    rw [hbyte, hk'] at hk
    cases hk
    rw [hco'] at hco
    cases hco
  | loop _ _ => exact absurd (List.cons.inj hcode).1 (byte_ne_brackets hk).1

theorem Spells.single_cases (h : Spells (kind.byte :: tail) nodes rest) (hr : Stops rest)
    (hk : Kind.ofByte? kind.byte = some kind) (hco : kind.coalesces = false) :
    ∃ loc ns, nodes = { kind, loc } :: ns ∧ Spells tail ns rest := by
  generalize hcode : kind.byte :: tail = code at h
  cases h with
  | done =>
    subst hcode
    exact (hr.ne_closer (byte_ne_brackets hk).2).elim
  | skip _ _ hnone _ =>
    obtain ⟨rfl, -⟩ := List.cons.inj hcode
    rw [hk] at hnone
    cases hnone
  | run hk' hco' _ _ _ =>
    obtain ⟨hbyte, -⟩ := List.cons.inj hcode
    rw [hbyte, hk'] at hk
    cases hk
    rw [hco] at hco'
    cases hco'
  | @single kind' loc _ _ ns hk' _ hs =>
    obtain ⟨hbyte, rfl⟩ := List.cons.inj hcode
    obtain rfl : kind = kind' := by
      rw [hbyte, hk'] at hk
      exact (Option.some.inj hk).symm
    exact ⟨loc, ns, rfl, hs⟩
  | loop _ _ => exact absurd (List.cons.inj hcode).1 (byte_ne_brackets hk).1

theorem Spells.loop_cases (h : Spells (Text.ascii '[' :: tail) nodes rest) (hr : Stops rest) :
    ∃ loc children code ns, nodes = { kind := .loop, children, loc } :: ns ∧
      Spells tail children (Text.ascii ']' :: code) ∧ Spells code ns rest := by
  generalize hcode : Text.ascii '[' :: tail = code at h
  cases h with
  | done =>
    subst hcode
    exact (hr.ne_closer opener_ne_closer).elim
  | skip hopen _ _ _ => exact absurd (List.cons.inj hcode).1.symm hopen
  | run hk' _ _ _ _ => exact absurd (List.cons.inj hcode).1.symm (byte_ne_brackets hk').1
  | single hk' _ _ => exact absurd (List.cons.inj hcode).1.symm (byte_ne_brackets hk').1
  | @loop loc _ code _ children ns hc hs =>
    obtain ⟨-, rfl⟩ := List.cons.inj hcode
    exact ⟨loc, children, code, ns, rfl, hc, hs⟩

theorem Spells.skip_cases {b : UInt8} (h : Spells (b :: tail) nodes rest) (hr : Stops rest)
    (hopen : b ≠ Text.ascii '[') (hclose : b ≠ Text.ascii ']') (hk : Kind.ofByte? b = none) :
    Spells tail nodes rest := by
  generalize hcode : b :: tail = code at h
  cases h with
  | done =>
    subst hcode
    exact (hr.ne_closer hclose).elim
  | skip _ _ _ hs =>
    obtain ⟨-, rfl⟩ := List.cons.inj hcode
    exact hs
  | run hk' _ _ _ _ | single hk' _ _ =>
    rw [← (List.cons.inj hcode).1, hk] at hk'
    cases hk'
  | loop _ _ => exact absurd (List.cons.inj hcode).1 hopen

end Inversion

/-! ## One tree only -/

theorem replicate_append_inj {b : UInt8} {m n : Nat} {a a' : Bytes} (ha : a.head? ≠ some b)
    (ha' : a'.head? ≠ some b) (h : List.replicate m b ++ a = List.replicate n b ++ a') :
    m = n ∧ a = a' := by
  induction m generalizing n with
  | zero =>
    cases n with
    | zero => exact ⟨rfl, h⟩
    | succ n =>
      rw [show a = List.replicate (n + 1) b ++ a' from h] at ha
      simp [List.replicate_succ] at ha
  | succ m ih =>
    cases n with
    | zero =>
      rw [← show _ = a' from h] at ha'
      simp [List.replicate_succ] at ha'
    | succ n =>
      simp only [List.replicate_succ, List.cons_append, List.cons.injEq, true_and] at h
      obtain ⟨rfl, ha⟩ := ih h
      exact ⟨rfl, ha⟩

theorem repeats_inj {a b : Int64} {n : Nat} (ha : repeats a = n + 1) (hb : repeats b = n + 1) :
    a = b := by
  rw [repeats] at ha hb
  rw [← Int64.toInt_inj]
  omega

/-- **A source spells one tree only**, up to locations, and ends in one place. -/
theorem Spells.unique {code rest rest' : Bytes} {nodes nodes' : List Node}
    (h : Spells code nodes rest) (hr : Stops rest) (h' : Spells code nodes' rest')
    (hr' : Stops rest') : rest = rest' ∧ unplacedAll nodes = unplacedAll nodes' := by
  -- The first byte decides how the other reading goes on; a body stops at its own bracket.
  induction h generalizing nodes' rest' with
  | done code =>
    cases h' with
    | done => exact ⟨rfl, rfl⟩
    | skip _ hclose _ _ => exact (hr.ne_closer hclose).elim
    | run hk _ _ _ _ | single hk _ _ => exact (hr.ne_closer (byte_ne_brackets hk).2).elim
    | loop _ _ => exact (hr.ne_closer opener_ne_closer).elim
  | skip hopen hclose hk _ ih => exact ih hr (h'.skip_cases hr' hopen hclose hk) hr'
  | run hk hco hn hhead _ ih =>
    obtain ⟨count, loc, n, code, ns, rfl, hn', htail, hhead', hs⟩ := h'.run_cases hr' hk hco
    obtain ⟨rfl, rfl⟩ := replicate_append_inj hhead hhead' htail
    obtain ⟨hrest, htree⟩ := ih hr hs hr'
    obtain rfl := repeats_inj hn hn'
    unfold unplacedAll at htree ⊢
    exact ⟨hrest, by simp only [relocateAll, relocate, htree]⟩
  | single hk hco _ ih =>
    obtain ⟨loc, ns, rfl, hs⟩ := h'.single_cases hr' hk hco
    obtain ⟨hrest, htree⟩ := ih hr hs hr'
    unfold unplacedAll at htree ⊢
    exact ⟨hrest, by simp only [relocateAll, relocate, htree]⟩
  | loop _ _ ihc ihr =>
    obtain ⟨loc, children, code, ns, rfl, hc, hs⟩ := h'.loop_cases hr'
    obtain ⟨hcode, hchildren⟩ := ihc (stops_closer _) hc (stops_closer _)
    obtain rfl := (List.cons.inj hcode).2
    obtain ⟨hrest, htree⟩ := ihr hr hs hr'
    unfold unplacedAll at hchildren htree ⊢
    exact ⟨hrest, by simp only [relocateAll, relocate, hchildren, htree]⟩

/-! ## What a tree prints -/

theorem ofByte?_byte {kind : Kind} (h : kind ∈ Kind.known) (hk : kind ≠ .loop) :
    Kind.ofByte? kind.byte = some kind := by
  cases kind with
  | loop => exact absurd rfl hk
  | unknown code => simp [Kind.known] at h
  | _ => decide

theorem byte_inj {a b : Kind} (ha : a ∈ Kind.known) (hb : b ∈ Kind.known) (h : a.byte = b.byte) :
    a = b := by
  simp only [Kind.known, List.mem_cons, List.not_mem_nil, or_false] at ha hb
  rcases ha with rfl | rfl | rfl | rfl | rfl | rfl | rfl <;>
    rcases hb with rfl | rfl | rfl | rfl | rfl | rfl | rfl <;>
      first | rfl | exact absurd h (by decide)

theorem head?_render {n : Node} (h : n.WellFormed) : (render n).head? = some n.kind.byte := by
  rcases n with ⟨kind, count, children, loc⟩
  by_cases hk : kind = .loop
  · subst hk
    rw [render_loop]
    rfl
  rw [render_operation hk]
  by_cases hco : kind.coalesces
  · obtain ⟨m, hm : repeats count = m + 1⟩ := Nat.exists_eq_add_one.mpr (h.repeats_pos hco)
    simp [hco, hm, List.replicate_succ]
  · simp [hco]

/-- What follows a run in a separated tree does not continue it. -/
theorem head?_renderAll_ne {n : Node} {ns : List Node} {rest : Bytes} (hapart : Apart (n :: ns))
    (hn : n.WellFormed) (hns : ∀ m ∈ ns, m.WellFormed) (hco : n.kind.coalesces)
    (hr : Stops rest) : (renderAll ns ++ rest).head? ≠ some n.kind.byte := by
  have hbyte := byte_ne_brackets (ofByte?_of_coalesces hco)
  rcases ns with _ | ⟨m, ms⟩
  · intro h
    exact hbyte.2 (hr n.kind.byte h)
  · have hm := hns m (by simp)
    have hne : sameRun n m = false := (List.isChain_cons_cons.mp hapart).1
    rw [renderAll_cons, List.append_assoc, List.head?_append, head?_render hm]
    intro h
    have hkind := byte_inj hm.known hn.known (by simpa using h)
    simp [sameRun, hkind, hco] at hne

/-- **A separated tree is spelt by what it prints**, up to the end of a loop. -/
theorem spells_renderAll {nodes : List Node} (formed : ∀ n ∈ everywhere nodes, n.WellFormed)
    (separated : Separated nodes) {rest : Bytes} (hr : Stops rest) :
    Spells (renderAll nodes ++ rest) nodes rest := by
  -- For any rest, since the body of a loop is followed by its bracket and by the later siblings.
  induction nodes using forest_induction generalizing rest with
  | nil => exact .done rest
  | cons kind count children loc ns ihc ihr =>
    obtain ⟨hapart, hinside⟩ := separated
    simp only [everywhere_cons, List.forall_mem_cons, List.forall_mem_append] at formed hinside
    obtain ⟨hn, hfc, hfr⟩ := formed
    obtain ⟨hac, hsc, hsr⟩ := hinside
    have hrest := ihr hfr ⟨hapart.tail, hsr⟩ hr
    rw [renderAll_cons, List.append_assoc]
    by_cases hk : kind = .loop
    · subst hk
      obtain rfl : count = 0 := hn.uncounted rfl
      have hbody := ihc hfc ⟨hac, hsc⟩ (stops_closer (renderAll ns ++ rest))
      rw [render_loop]
      simpa using Spells.loop hbody hrest
    obtain rfl : children = [] := hn.childless hk
    have hbyte := ofByte?_byte hn.known hk
    rw [render_operation hk]
    by_cases hco : kind.coalesces
    · obtain ⟨m, hm : repeats count = m + 1⟩ := Nat.exists_eq_add_one.mpr (hn.repeats_pos hco)
      have hhead := head?_renderAll_ne hapart hn
        (fun m hm => hfr m (mem_everywhere_of_mem hm)) hco hr
      rw [if_pos hco, hm, List.replicate_succ, List.cons_append]
      exact .run hbyte hco hm hhead hrest
    · obtain rfl : count = 0 := hn.uncounted (by simpa using hco)
      rw [if_neg hco]
      exact .single hbyte (by simpa using hco) hrest

end Reference

open Reference

/-- **A source that spells a tree** is accepted as that tree, up to locations. -/
theorem exists_parse_of_spells (file : Bytes) {source : Bytes} {nodes : List Node}
    (short : source.length < 2 ^ 63) (h : Spells source nodes []) :
    ∃ tree, parse file source = .ok tree ∧ unplacedAll tree = unplacedAll nodes := by
  obtain ⟨text, htext, hbalanced⟩ := h.exists_balanced
  rw [List.append_nil] at htext
  obtain ⟨tree, parsed⟩ : ∃ tree, parse file source = .ok tree :=
    exists_parse (bracketErrors_eq_nil.mpr (htext ▸ hbalanced))
  exact ⟨tree, parsed, ((spells_of_parse short parsed).unique stops_nil h stops_nil).2⟩

/-- **What the parser makes of the text of a tree**: the tree with its runs joined, up to locations.
-/
theorem parse_renderAll_coalesces (file : Bytes) {nodes : List Node}
    (formed : ∀ n ∈ everywhere nodes, n.WellFormed) (short : (renderAll nodes).length < 2 ^ 63) :
    ∃ tree, parse file (renderAll nodes) = .ok tree ∧
      unplacedAll tree = unplacedAll (coalesce nodes) ∧
      (unplacedAll tree = unplacedAll nodes ↔ Separated nodes) ∧
      renderAll tree = renderAll nodes := by
  obtain ⟨hseparated, hformed⟩ := separated_coalesce formed short
  have hrender := renderAll_coalesce formed short
  have hspells := spells_renderAll hformed hseparated stops_nil
  rw [List.append_nil, hrender] at hspells
  obtain ⟨tree, parsed, htree⟩ := exists_parse_of_spells file short hspells
  refine ⟨tree, parsed, htree, ⟨fun h => ?_, fun h => ?_⟩, ?_⟩
  · have hjoined : Separated (unplacedAll (coalesce nodes)) :=
      (separated_relocateAll _ _).mpr hseparated
    rw [← htree, h] at hjoined
    exact (separated_relocateAll _ _).mp hjoined
  · rw [htree, coalesce_of_separated h]
  · have htext := congrArg renderAll htree
    rw [unplacedAll, unplacedAll, renderAll_relocateAll, renderAll_relocateAll] at htext
    exact htext.trans hrender

/-- Neighbours of one kind, in a loop and outside it, come back as one run each. -/
theorem parse_renderAll_coalesces_neighbours :
    ∃ tree, parse "neighbours" (utf8 "+++[-->.]") = .ok tree ∧
      unplacedAll tree = [{ kind := .increment, count := 3 },
        { kind := .loop, children := [{ kind := .decrement, count := 2 },
          { kind := .moveForward, count := 1 }, { kind := .write }] }] ∧
      renderAll tree = utf8 "+++[-->.]" := by
  obtain ⟨tree, parsed, htree, -, hrender⟩ := @parse_renderAll_coalesces "neighbours"
    [{ kind := .increment, count := 2 }, { kind := .increment, count := 1 },
      { kind := .loop, children := [{ kind := .decrement, count := 1 },
        { kind := .decrement, count := 1 }, { kind := .moveForward, count := 1 },
        { kind := .write }] }] (by decide) (by decide)
  exact ⟨tree, parsed, htree.trans rfl, hrender⟩

end TapeLang
