import Mathlib.Data.List.SplitBy
import TapeLang.Proofs.Source.Rendering
import TapeLang.Proofs.Tree.Preorder

/-!
# Joining runs

Siblings of one kind that coalesces are a single run when they stand next to each other. Joining
every such run, at every level, changes nothing in what a tree prints.

* `Node.WellFormed`: a node such as a source can have.
* `Node.coalesce`: a tree with all runs joined.
* `Node.Separated`: a tree in which no run can be joined.
* `Node.unplacedAll`: a tree without its locations.
* **`renderAll_coalesce`**, **`separated_coalesce`**: what joining does.
* **`coalesce_of_separated`**: a separated tree stays as it is.
-/

namespace TapeLang.Node

/-- A node such as a source can have: its kind is known, it counts a run if and only if its kind
coalesces, and only a loop has children. -/
structure WellFormed (n : Node) : Prop where
  known : n.kind ∈ Kind.known
  counted : n.kind.coalesces → 1 ≤ n.count
  uncounted : n.kind.coalesces = false → n.count = 0
  childless : n.kind ≠ .loop → n.children = []

instance (n : Node) : Decidable n.WellFormed :=
  decidable_of_iff (n.kind ∈ Kind.known ∧ (n.kind.coalesces → 1 ≤ n.count) ∧
    (n.kind.coalesces = false → n.count = 0) ∧ (n.kind ≠ .loop → n.children = []))
    ⟨fun ⟨hk, hc, hu, hl⟩ => ⟨hk, hc, hu, hl⟩, fun ⟨hk, hc, hu, hl⟩ => ⟨hk, hc, hu, hl⟩⟩

/-- Two siblings that are one run when they stand next to each other. -/
def sameRun (a b : Node) : Bool := a.kind = b.kind && a.kind.coalesces

/-- The sum of the counts of nodes. -/
def total (nodes : List Node) : Int64 := nodes.foldr (fun n sum => n.count + sum) 0

/-- How often nodes repeat something, one after the other. -/
def extent (nodes : List Node) : Nat := nodes.foldr (fun n sum => repeats n.count + sum) 0

/-- The node that a run of siblings becomes: the first of them, with the counts of all. -/
def joinRun : List Node → Node
  | [] => {}
  | n :: ns => { n with count := total (n :: ns) }

/-- Siblings with each longest run joined. -/
def joinRuns (siblings : List Node) : List Node :=
  (siblings.splitBy sameRun).map joinRun

mutual

/-- A node with the runs inside it joined. -/
def joinInside : Node → Node
  | ⟨kind, count, children, loc⟩ => ⟨kind, count, joinRuns (joinEach children), loc⟩

/-- Nodes with the runs inside each of them joined. -/
def joinEach : List Node → List Node
  | [] => []
  | n :: ns => joinInside n :: joinEach ns

end

/-- A tree with the runs of every level joined. -/
def coalesce (nodes : List Node) : List Node := joinRuns (joinEach nodes)

/-- No two neighbours are one run. -/
def Apart (siblings : List Node) : Prop := siblings.IsChain fun a b => sameRun a b = false

/-- No two neighbours are one run, at any level. -/
def Separated (nodes : List Node) : Prop :=
  Apart nodes ∧ ∀ n ∈ everywhere nodes, Apart n.children

/-- Nodes without their locations. -/
def unplacedAll (nodes : List Node) : List Node := relocateAll (fun _ => {}) nodes

/-! ## Printing -/

theorem renderAllOnto_eq_append (nodes : List Node) (acc : Bytes) :
    renderAllOnto nodes acc = (renderAll nodes).reverse ++ acc := by
  have h : ∀ acc, renderAllOnto nodes acc = renderAllOnto nodes [] ++ acc := by
    induction nodes using forest_induction with
    | nil => simp [renderAllOnto]
    | cons kind count children loc rest ihc ihr =>
      intro acc
      by_cases hk : kind = .loop
      · subst hk
        simp only [renderAllOnto, renderOnto]
        rw [ihr, ihr (_ :: _), ihc, ihc [_]]
        simp
      · simp only [renderAllOnto, renderOnto_operation hk]
        rw [ihr, ihr (ite _ _ _)]
        split_ifs <;> simp
  simpa [renderAll] using h acc

theorem render_loop (count : Int64) (children : List Node) (loc : Location) :
    render ⟨.loop, count, children, loc⟩ =
      Text.ascii '[' :: (renderAll children ++ [Text.ascii ']']) := by
  simp [render, renderOnto, renderAllOnto_eq_append]

theorem render_operation {kind : Kind} (hk : kind ≠ .loop) (count : Int64) (children : List Node)
    (loc : Location) :
    render ⟨kind, count, children, loc⟩ =
      if kind.coalesces then List.replicate (repeats count) kind.byte else [kind.byte] := by
  rw [render, renderOnto_operation hk]
  split_ifs <;> simp

theorem renderAll_eq_flatMap (nodes : List Node) : renderAll nodes = nodes.flatMap render := by
  induction nodes with
  | nil => rfl
  | cons n ns ih =>
    have h := renderAllOnto_eq_append ns (renderOnto n [])
    rw [List.flatMap_cons, ← ih, renderAll, renderAllOnto, h]
    simp [render]

@[simp] theorem renderAll_nil : renderAll [] = [] := rfl

@[simp] theorem renderAll_cons (n : Node) (ns : List Node) :
    renderAll (n :: ns) = render n ++ renderAll ns := by
  simp [renderAll_eq_flatMap]

theorem length_renderAll_le {a b : List Node} (h : a.Sublist b) :
    (renderAll a).length ≤ (renderAll b).length := by
  rw [renderAll_eq_flatMap, renderAll_eq_flatMap]
  exact (h.flatMap render).length_le

/-! ## One run -/

theorem kind_eq_of_run {n : Node} {ns : List Node} (h : (n :: ns).IsChain (sameRun · ·)) :
    ∀ m ∈ n :: ns, m.kind = n.kind := by
  refine h.induction (fun m => m.kind = n.kind) _ ?_ (fun _ => rfl)
  intro x y hxy hx
  simp only [sameRun, Bool.and_eq_true, decide_eq_true_eq] at hxy
  rw [← hxy.1, hx]

theorem coalesces_of_run {n m : Node} {ns : List Node} (h : (n :: m :: ns).IsChain (sameRun · ·)) :
    n.kind.coalesces := by
  have hr := List.IsChain.rel h
  simp only [sameRun, Bool.and_eq_true] at hr
  exact hr.2

theorem joinRun_singleton (n : Node) : joinRun [n] = n := by
  rcases n with ⟨kind, count, children, loc⟩
  simp [joinRun, total]

theorem ne_loop_of_coalesces {kind : Kind} (h : kind.coalesces) : kind ≠ .loop := by
  rintro rfl
  cases h

theorem ofByte?_of_coalesces {kind : Kind} (h : kind.coalesces) :
    Kind.ofByte? kind.byte = some kind := by
  cases kind with
  | write | read | loop | unknown => cases h
  | _ => decide

theorem WellFormed.repeats_pos {n : Node} (h : n.WellFormed) (hco : n.kind.coalesces) :
    0 < repeats n.count := by
  have hcount := Int64.le_iff_toInt_le.mp (h.counted hco)
  have hone : (1 : Int64).toInt = 1 := rfl
  unfold repeats
  omega

theorem toInt_total {run : List Node} (hpos : ∀ n ∈ run, 1 ≤ n.count)
    (short : extent run < 2 ^ 63) : (total run).toInt = extent run := by
  induction run with
  | nil => rfl
  | cons n ns ih =>
    rw [extent, List.foldr_cons, ← extent] at short ⊢
    rw [List.forall_mem_cons] at hpos
    have hn : 1 ≤ n.count.toInt := Int64.le_iff_toInt_le.mp hpos.1
    have hrest := ih hpos.2 (by omega)
    have hrepeats : (repeats n.count : ℤ) = n.count.toInt := by
      rw [repeats]
      omega
    rw [total, List.foldr_cons, ← total, Int64.toInt_add, hrest, ← hrepeats,
      Int.bmod_eq_of_le (by omega) (by omega)]
    omega

theorem renderAll_run {kind : Kind} (hk : kind.coalesces) {run : List Node}
    (h : ∀ n ∈ run, n.kind = kind) :
    renderAll run = List.replicate (extent run) kind.byte := by
  induction run with
  | nil => rfl
  | cons n ns ih =>
    obtain ⟨hn, hns⟩ := List.forall_mem_cons.mp h
    rcases n with ⟨k, count, children, loc⟩
    obtain rfl : k = kind := hn
    rw [renderAll_cons, ih hns, render_operation (ne_loop_of_coalesces hk), if_pos hk,
      List.replicate_append_replicate]
    rfl

/-- A joined run prints what the run prints, and is well-formed if the run is. -/
theorem joinRun_spec {run : List Node} (hne : run ≠ []) (h : run.IsChain (sameRun · ·))
    (formed : ∀ n ∈ run, n.WellFormed) (short : (renderAll run).length < 2 ^ 63) :
    render (joinRun run) = renderAll run ∧ (joinRun run).WellFormed := by
  rcases run with _ | ⟨n, _ | ⟨m, ns⟩⟩
  · exact absurd rfl hne
  · rw [joinRun_singleton]
    exact ⟨by simp, formed n (by simp)⟩
  have hk := coalesces_of_run h
  have hkind := kind_eq_of_run h
  have hloop := ne_loop_of_coalesces hk
  have hpos : ∀ x ∈ n :: m :: ns, 1 ≤ x.count := by
    intro x hx
    exact (formed x hx).counted (hkind x hx ▸ hk)
  have hrender := renderAll_run hk hkind
  rw [hrender, List.length_replicate] at short
  have htotal := toInt_total hpos short
  have hone := Int64.le_iff_toInt_le.mp (hpos n (by simp))
  have hjoin : joinRun (n :: m :: ns) =
      ⟨n.kind, total (n :: m :: ns), n.children, n.loc⟩ := rfl
  rw [hjoin, hrender, render_operation hloop, if_pos hk]
  constructor
  · rw [repeats, htotal, Int.toNat_natCast]
  · have hformed := formed n (by simp)
    refine ⟨hformed.known, ?_, ?_, hformed.childless⟩
    · intro _
      have hle : repeats n.count ≤ extent (n :: m :: ns) := Nat.le_add_right _ _
      have hn : (1 : Int64).toInt = 1 := rfl
      refine Int64.le_iff_toInt_le.mpr ?_
      rw [repeats] at hle
      rw [htotal]
      omega
    · intro hnot
      exact absurd hk (by simp [hnot])

theorem kind_joinRun {run : List Node} (hne : run ≠ []) (h : run.IsChain (sameRun · ·)) :
    (joinRun run).kind = (run.head hne).kind ∧ (joinRun run).kind = (run.getLast hne).kind := by
  rcases run with _ | ⟨n, ns⟩
  · exact absurd rfl hne
  · exact ⟨rfl, (kind_eq_of_run h _ (List.getLast_mem hne)).symm⟩

/-! ## Siblings -/

section Siblings

variable {siblings : List Node}

theorem sublist_of_mem_splitBy {run : List Node} (h : run ∈ siblings.splitBy sameRun) :
    run.Sublist siblings := by
  have hsub := List.sublist_flatten_of_mem h
  rwa [List.flatten_splitBy] at hsub

theorem joinRun_of_mem_splitBy {run : List Node} (h : run ∈ siblings.splitBy sameRun)
    (formed : ∀ n ∈ siblings, n.WellFormed) (short : (renderAll siblings).length < 2 ^ 63) :
    render (joinRun run) = renderAll run ∧ (joinRun run).WellFormed :=
  joinRun_spec (List.ne_nil_of_mem_splitBy h) (List.isChain_of_mem_splitBy h)
    (fun n hn => formed n ((sublist_of_mem_splitBy h).subset hn))
    ((length_renderAll_le (sublist_of_mem_splitBy h)).trans_lt short)

theorem renderAll_joinRuns (formed : ∀ n ∈ siblings, n.WellFormed)
    (short : (renderAll siblings).length < 2 ^ 63) :
    renderAll (joinRuns siblings) = renderAll siblings := by
  calc renderAll (joinRuns siblings)
      = (siblings.splitBy sameRun).flatMap fun run => render (joinRun run) := by
        rw [renderAll_eq_flatMap, joinRuns, List.flatMap_map]
    _ = (siblings.splitBy sameRun).flatMap fun run => run.flatMap render := by
        refine List.flatMap_congr fun run hrun => ?_
        rw [(joinRun_of_mem_splitBy hrun formed short).1, renderAll_eq_flatMap]
    _ = renderAll siblings := by
        rw [← List.flatMap_assoc (f := fun run => run), List.flatMap_id', List.flatten_splitBy,
          renderAll_eq_flatMap]

theorem apart_joinRuns (siblings : List Node) : Apart (joinRuns siblings) := by
  rw [Apart, joinRuns, List.isChain_map]
  refine List.IsChain.imp_of_mem_imp ?_ (List.isChain_getLast_head_splitBy sameRun siblings)
  rintro a b ha hb ⟨hna, hnb, hab⟩
  have hlast := (kind_joinRun hna (List.isChain_of_mem_splitBy ha)).2
  have hhead := (kind_joinRun hnb (List.isChain_of_mem_splitBy hb)).1
  simp only [sameRun, hlast, hhead] at hab ⊢
  exact hab

/-- What holds of all nodes in siblings holds when their runs are joined. -/
theorem forall_everywhere_joinRuns (short : (renderAll siblings).length < 2 ^ 63)
    (h : ∀ n ∈ everywhere siblings, n.WellFormed ∧ Apart n.children) :
    ∀ n ∈ everywhere (joinRuns siblings), n.WellFormed ∧ Apart n.children := by
  intro n hn
  obtain ⟨joined, hjoined, hin⟩ := mem_everywhere.mp hn
  obtain ⟨run, hrun, rfl⟩ := List.mem_map.mp hjoined
  obtain ⟨first, rest, rfl⟩ := List.exists_cons_of_ne_nil (List.ne_nil_of_mem_splitBy hrun)
  have hfirst : first ∈ siblings := (sublist_of_mem_splitBy hrun).subset (by simp)
  rcases hin with rfl | hin
  · refine ⟨?_, (h first (mem_everywhere_of_mem hfirst)).2⟩
    exact (joinRun_of_mem_splitBy hrun (fun n hn => (h n (mem_everywhere_of_mem hn)).1) short).2
  · exact h n (mem_everywhere.mpr ⟨first, hfirst, .inr hin⟩)

theorem joinRuns_of_apart (h : Apart siblings) : joinRuns siblings = siblings := by
  have hsplit : siblings.splitBy sameRun = siblings.map fun n => [n] := by
    rw [List.splitBy_eq_iff]
    refine ⟨?_, by simp, by simp, ?_⟩
    · rw [← List.flatMap_def, List.flatMap_singleton']
    · rw [List.isChain_map]
      refine h.imp ?_
      intro a b hab
      exact ⟨by simp, by simp, hab⟩
  rw [joinRuns, hsplit, List.map_map]
  exact List.map_id'' joinRun_singleton siblings

end Siblings

/-! ## All levels -/

theorem joinEach_spec {nodes : List Node} (formed : ∀ n ∈ everywhere nodes, n.WellFormed)
    (short : (renderAll nodes).length < 2 ^ 63) :
    renderAll (joinEach nodes) = renderAll nodes ∧
      ∀ n ∈ everywhere (joinEach nodes), n.WellFormed ∧ Apart n.children := by
  -- Both at once: the text that stays the same is what keeps the sums of a body from overflowing.
  induction nodes using forest_induction with
  | nil => simp [joinEach]
  | cons kind count children loc rest ihc ihr =>
    simp only [everywhere_cons, List.forall_mem_cons, List.forall_mem_append] at formed
    obtain ⟨hn, hchildren, hrest⟩ := formed
    rw [renderAll_cons, List.length_append] at short
    obtain ⟨hrender, hall⟩ := ihr hrest (by omega)
    simp only [joinEach, joinInside, renderAll_cons, everywhere_cons, List.forall_mem_cons,
      List.forall_mem_append, hrender]
    by_cases hk : kind = .loop
    · subst hk
      rw [render_loop] at short
      simp only [List.length_cons, List.length_append] at short
      obtain ⟨hinside, hallc⟩ := ihc hchildren (by omega)
      have hformed : ∀ n ∈ joinEach children, n.WellFormed := fun n hn =>
        (hallc n (mem_everywhere_of_mem hn)).1
      have hshort : (renderAll (joinEach children)).length < 2 ^ 63 := by
        rw [hinside]
        omega
      refine ⟨?_, ⟨⟨hn.known, hn.counted, hn.uncounted, fun h => absurd rfl h⟩,
        apart_joinRuns _⟩, forall_everywhere_joinRuns hshort hallc, hall⟩
      rw [render_loop, render_loop, renderAll_joinRuns hformed hshort, hinside]
    · obtain rfl : children = [] := hn.childless hk
      refine ⟨?_, ⟨⟨hn.known, hn.counted, hn.uncounted, fun _ => rfl⟩, .nil⟩, ?_, hall⟩
      · rw [render_operation hk, render_operation hk]
      · simp [joinEach, joinRuns]

section Coalesce

variable {nodes : List Node}

/-- **Joining runs keeps what a tree prints.** -/
theorem renderAll_coalesce (formed : ∀ n ∈ everywhere nodes, n.WellFormed)
    (short : (renderAll nodes).length < 2 ^ 63) :
    renderAll (coalesce nodes) = renderAll nodes := by
  obtain ⟨hrender, hall⟩ := joinEach_spec formed short
  rw [coalesce, renderAll_joinRuns _ (hrender ▸ short), hrender]
  exact fun n hn => (hall n (mem_everywhere_of_mem hn)).1

/-- **Joining runs leaves none to be joined**, and the nodes stay well-formed. -/
theorem separated_coalesce (formed : ∀ n ∈ everywhere nodes, n.WellFormed)
    (short : (renderAll nodes).length < 2 ^ 63) :
    Separated (coalesce nodes) ∧ ∀ n ∈ everywhere (coalesce nodes), n.WellFormed := by
  obtain ⟨hrender, hall⟩ := joinEach_spec formed short
  have h := forall_everywhere_joinRuns (hrender ▸ short) hall
  exact ⟨⟨apart_joinRuns _, fun n hn => (h n hn).2⟩, fun n hn => (h n hn).1⟩

/-- **A separated tree stays as it is.** -/
theorem coalesce_of_separated (h : Separated nodes) : coalesce nodes = nodes := by
  have heach : joinEach nodes = nodes := by
    have hinside := h.2
    clear h
    induction nodes using forest_induction with
    | nil => rfl
    | cons kind count children loc rest ihc ihr =>
      simp only [everywhere_cons, List.forall_mem_cons, List.forall_mem_append] at hinside
      obtain ⟨hn, hchildren, hrest⟩ := hinside
      rw [joinEach, joinInside, ihc hchildren, ihr hrest, joinRuns_of_apart hn]
  rw [coalesce, heach, joinRuns_of_apart h.1]

end Coalesce

/-! ## Moved trees -/

section

variable (f : Location → Location)

theorem kind_relocate (n : Node) : (relocate f n).kind = n.kind := by
  rcases n with ⟨kind, count, children, loc⟩
  rfl

theorem exists_loc_of_relocate {n : Node} {kind : Kind} {count : Int64} {loc : Location}
    (h : relocate f n = { kind, count, loc }) : ∃ loc, n = { kind, count, loc } := by
  rcases n with ⟨kind', count', _ | ⟨child, rest⟩, loc'⟩
  · cases h
    exact ⟨loc', rfl⟩
  · cases h

theorem apart_relocateAll (nodes : List Node) : Apart (relocateAll f nodes) ↔ Apart nodes := by
  simp only [Apart, relocateAll_eq_map, List.isChain_map, sameRun, kind_relocate]

theorem separated_relocateAll (nodes : List Node) :
    Separated (relocateAll f nodes) ↔ Separated nodes := by
  refine and_congr (apart_relocateAll f nodes) ?_
  induction nodes using forest_induction with
  | nil => rfl
  | cons kind count children loc rest ihc ihr =>
    simp only [relocateAll, relocate, everywhere_cons, List.forall_mem_cons,
      List.forall_mem_append, ihc, ihr, apart_relocateAll]

theorem renderAll_relocateAll (nodes : List Node) :
    renderAll (relocateAll f nodes) = renderAll nodes := by
  induction nodes using forest_induction with
  | nil => rfl
  | cons kind count children loc rest ihc ihr =>
    rw [relocateAll, relocate, renderAll_cons, renderAll_cons, ihr]
    by_cases hk : kind = .loop
    · subst hk
      rw [render_loop, render_loop, ihc]
    · rw [render_operation hk, render_operation hk]

end

end TapeLang.Node
