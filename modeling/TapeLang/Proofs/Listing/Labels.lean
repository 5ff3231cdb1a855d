import Mathlib.Data.List.Permutation
import TapeLang.Proofs.Listing.Instruction
import TapeLang.Proofs.Source.Position

/-!
# Labels and loading

The labels of a listing are made from the locations of the nodes, which all differ. So they differ
too, the loader accepts every listing, and every jump leads to its own node. Lines and columns are
64-bit numbers, so sources are shorter than `2 ^ 63` bytes, as every byte string in memory is.

* `blockSites`: the sites of a tree, in the order of their labels.
* `siteLabel_inj`: a label tells its line, its column and its site.
* **`nodup_siteLabels`**: the labels of a tree differ.
* **`listing_loads`**: the listing of a parsed program is loaded as the code of its tree.
-/

namespace TapeLang.Assembly

open Machine

/-! ## Sites -/

/-- The sites of an operation of the tape language. -/
def operationSites : Kind → List Site
  | .moveForward => [.growStart, .growEnd]
  | .read => [.readEnd]
  | _ => []

mutual

/-- The sites of a node: two for a loop and for a forward move, one for a read. -/
def nodeSites : Node → List (Location × Site)
  | ⟨.loop, _, children, loc⟩ => (loc, .loopStart) :: (blockSites children ++ [(loc, .loopEnd)])
  | ⟨kind, _, _, loc⟩ => (operationSites kind).map (loc, ·)

/-- The sites of nodes. -/
def blockSites : List Node → List (Location × Site)
  | [] => []
  | n :: ns => nodeSites n ++ blockSites ns

end

theorem nodeSites_operation {kind : Kind} (hk : kind ≠ .loop) (count : Int64)
    (children : List Node) (loc : Location) :
    nodeSites ⟨kind, count, children, loc⟩ = (operationSites kind).map (loc, ·) := by
  cases kind with
  | loop => exact absurd rfl hk
  | _ => rfl

theorem marks_operationEntries {τ : Type} (arch : Arch) (site : Site → τ) (count : Int64)
    (kind : Kind) :
    marks (operationEntries arch site count kind) = (operationSites kind).map site := by
  cases kind with
  | write => exact marks_map_op _
  | read =>
    rw [operationEntries, List.cons_append, marks, marks_append, marks_map_op]
    rfl
  | _ => rfl

theorem marks_blockEntries {τ : Type} (arch : Arch) (site : Location → Site → τ)
    (nodes : List Node) :
    marks (blockEntries arch site nodes) = (blockSites nodes).map fun x => site x.1 x.2 := by
  induction nodes using Node.block_induction with
  | nil => rfl
  | loop count children loc rest ihc ihr =>
    rw [blockEntries, nodeEntries, blockSites, nodeSites]
    simp only [marks_append, ihc, ihr, headEntries, footEntries, marks, List.map_append,
      List.map_cons, List.map_nil, List.cons_append, List.nil_append]
  | operation kind count children loc rest hk ihr =>
    rw [blockEntries, nodeEntries_operation arch site hk, blockSites, nodeSites_operation hk,
      marks_append, marks_operationEntries, ihr, List.map_append, List.map_map]
    rfl

theorem mem_locationsAll_of_mem_blockSites {nodes : List Node} {x : Location × Site}
    (h : x ∈ blockSites nodes) : x.1 ∈ Node.locationsAll nodes := by
  induction nodes using Node.block_induction with
  | nil => exact absurd h (by simp [blockSites])
  | loop count children loc rest ihc ihr =>
    rw [blockSites, nodeSites] at h
    rw [Node.locationsAll, Node.locations]
    simp only [List.mem_append, List.mem_cons, List.not_mem_nil, or_false] at h ⊢
    rcases h with (rfl | h | rfl) | h
    · exact .inl (.inl rfl)
    · exact .inl (.inr (ihc h))
    · exact .inl (.inl rfl)
    · exact .inr (ihr h)
  | operation kind count children loc rest hk ihr =>
    rw [blockSites, nodeSites_operation hk, List.mem_append, List.mem_map] at h
    rw [Node.locationsAll, Node.locations_operation hk, List.mem_append, List.mem_singleton]
    rcases h with ⟨site, _, rfl⟩ | h
    · exact .inl rfl
    · exact .inr (ihr h)

/-- Two sites differ in their places or in themselves. -/
def Apart (x y : Location × Site) : Prop := x.1.place ≠ y.1.place ∨ x.2 ≠ y.2

theorem pairwise_operationSites (kind : Kind) (loc : Location) :
    ((operationSites kind).map (loc, ·)).Pairwise Apart := by
  rw [List.pairwise_map]
  cases kind with
  | moveForward =>
    refine .cons (fun s hs => .inr ?_) (List.pairwise_singleton _ _)
    rintro rfl
    simp at hs
  | _ => simp [operationSites]

theorem pairwise_blockSites {nodes : List Node}
    (h : (Node.locationsAll nodes).Pairwise fun a b => a.place < b.place) :
    (blockSites nodes).Pairwise Apart := by
  induction nodes using Node.block_induction with
  | nil => exact .nil
  | loop count children loc rest ihc ihr =>
    rw [Node.locationsAll, Node.locations, List.cons_append, List.pairwise_cons,
      List.pairwise_append] at h
    obtain ⟨hloc, hc, hr, hcr⟩ := h
    have hinner : ∀ x ∈ blockSites children, loc.place ≠ x.1.place := fun x hx =>
      (hloc _ (List.mem_append_left _ (mem_locationsAll_of_mem_blockSites hx))).ne
    have hrest : ∀ x ∈ blockSites rest, loc.place ≠ x.1.place := fun x hx =>
      (hloc _ (List.mem_append_right _ (mem_locationsAll_of_mem_blockSites hx))).ne
    rw [blockSites, nodeSites, List.cons_append, List.append_assoc, List.pairwise_cons]
    constructor
    · intro x hx
      simp only [List.mem_append, List.mem_cons, List.not_mem_nil, or_false] at hx
      rcases hx with hx | rfl | hx
      · exact .inl (hinner x hx)
      · exact .inr (by simp)
      · exact .inl (hrest x hx)
    · rw [List.singleton_append, List.pairwise_append, List.pairwise_cons]
      refine ⟨ihc hc, ⟨fun x hx => .inl (hrest x hx), ihr hr⟩, ?_⟩
      intro x hx y hy
      rcases List.mem_cons.mp hy with rfl | hy
      · exact .inl (hinner x hx).symm
      · exact .inl (hcr _ (mem_locationsAll_of_mem_blockSites hx) _
          (mem_locationsAll_of_mem_blockSites hy)).ne
  | operation kind count children loc rest hk ihr =>
    rw [Node.locationsAll, Node.locations_operation hk, List.singleton_append,
      List.pairwise_cons] at h
    rw [blockSites, nodeSites_operation hk, List.pairwise_append]
    refine ⟨pairwise_operationSites kind loc, ihr h.2, ?_⟩
    intro x hx y hy
    obtain ⟨site, _, rfl⟩ := List.mem_map.mp hx
    exact .inl (h.1 _ (mem_locationsAll_of_mem_blockSites hy)).ne

/-! ## Labels -/

theorem siteLabel_eq {loc : Location} (h : Proper loc) (site : Site) :
    siteLabel loc site = utf8 "_at_" ++ (Text.digits 10 loc.line.toInt.toNat ++ Text.ascii '_' ::
      (Text.digits 10 loc.column.toInt.toNat ++ Text.ascii '_' :: utf8 site.suffix)) := by
  rw [siteLabel, label, decimal_of_nonneg h.line, decimal_of_nonneg h.column]
  simp only [List.append_assoc]
  rfl

theorem suffix_inj {s t : Site} (h : utf8 s.suffix = utf8 t.suffix) : s = t := by
  revert h
  cases s <;> cases t <;> decide

theorem digits_toInt_inj {m n : Int64} (hm : 0 ≤ m.toInt) (hn : 0 ≤ n.toInt)
    (h : Text.digits 10 m.toInt.toNat = Text.digits 10 n.toInt.toNat) : m.toInt = n.toInt := by
  have := m.toInt_lt
  have := n.toInt_lt
  have := Text.digits_injective h (by omega) (by omega)
  omega

/-- **A label tells its line, its column and its site.** -/
theorem siteLabel_inj {x y : Location × Site} (hx : Proper x.1) (hy : Proper y.1)
    (h : siteLabel x.1 x.2 = siteLabel y.1 y.2) : ¬ Apart x y := by
  rw [siteLabel_eq hx, siteLabel_eq hy] at h
  obtain ⟨hl, h⟩ := Text.append_cons_inj (Text.underscore_notMem_digits _)
    (Text.underscore_notMem_digits _) (List.append_cancel_left h)
  obtain ⟨hc, hs⟩ := Text.append_cons_inj (Text.underscore_notMem_digits _)
    (Text.underscore_notMem_digits _) h
  rw [Apart, not_or, not_not, not_not]
  refine ⟨?_, suffix_inj hs⟩
  rw [Location.place, Location.place, digits_toInt_inj hx.line hy.line hl,
    digits_toInt_inj hx.column hy.column hc]

theorem proper_of_mem_locationsAll {nodes : List Node} (h : Sound nodes) :
    ∀ loc ∈ Node.locationsAll nodes, Proper loc := by
  induction h with
  | nil => simp [Node.locationsAll]
  | loop hp _ _ ihc ihr =>
    rw [Node.locationsAll, Node.locations, List.cons_append, List.forall_mem_cons,
      List.forall_mem_append]
    exact ⟨hp, ihc, ihr⟩
  | operation hk hp _ ihr =>
    rw [Node.locationsAll, Node.locations_operation hk.1, List.singleton_append,
      List.forall_mem_cons]
    exact ⟨hp, ihr⟩

/-- **The labels of a tree differ.** -/
theorem nodup_siteLabels {nodes : List Node} (hs : Sound nodes)
    (h : (Node.locationsAll nodes).Pairwise fun a b => a.place < b.place) :
    ((blockSites nodes).map fun x => siteLabel x.1 x.2).Nodup := by
  have hp : ∀ x ∈ blockSites nodes, Proper x.1 := fun x hx =>
    proper_of_mem_locationsAll hs _ (mem_locationsAll_of_mem_blockSites hx)
  rw [List.Nodup, List.pairwise_map]
  refine (List.Pairwise.and_mem.mp (pairwise_blockSites h)).imp ?_
  rintro x y ⟨hx, hy, hxy⟩ he
  exact siteLabel_inj (hp x hx) (hp y hy) he hxy

theorem start_ne_siteLabel (loc : Location) (site : Site) : utf8 "_start" ≠ siteLabel loc site := by
  intro h
  have h2 : (utf8 "_start").take 2 = (utf8 "_at_").take 2 := by
    rw [h]
    rfl
  exact absurd h2 (by decide)

/-! ## Listings of parsed programs -/

theorem isOperation_of_ofByte? {b : UInt8} {kind : Kind} (h : Kind.ofByte? b = some kind) :
    IsOperation kind := by
  refine ⟨Cursor.ne_loop_of_ofByte? h, ?_⟩
  rintro code rfl
  have := List.mem_of_find?_eq_some h
  simp at this

theorem proper_location {c : Cursor} {b : UInt8} (hb : c.Bounded) (hp : c.peek? = some b) :
    Proper c.location := by
  have h := congrArg ofLex (hb.location_place hp)
  have h1 : c.location.line.toInt = c.line := congrArg Prod.fst h
  have h2 : c.location.column.toInt = c.columns.top := congrArg Prod.snd h
  exact ⟨by omega, by omega⟩

theorem sound_of_reads {c e : Cursor} {nodes : List Node} (h : c.Reads nodes e)
    (hb : c.Bounded) : Sound nodes := by
  induction h with
  | done c => exact .nil
  | skip _ _ _ _ ha _ ih => exact ih (hb.advance? ha).1
  | run hp hk _ ha _ ih =>
    exact .operation (isOperation_of_ofByte? hk) (proper_location hb hp)
      (ih ((hb.advance? ha).1.passRun 1).1)
  | single hp hk _ ha _ ih =>
    exact .operation (isOperation_of_ofByte? hk) (proper_location hb hp) (ih (hb.advance? ha).1)
  | loop hp ha hc hp' ha' _ ihc ihr =>
    have hd := (hb.advance? ha).1
    have he := (Cursor.between_of_reads hc hd).bounded
    exact .loop (proper_location hb hp) (ihc hd) (ihr (he.advance? ha').1)

variable (arch : Arch)

theorem isDirective_text : IsDirective (utf8 ".text") := by
  have hw : Text.IsWord (utf8 ".text") := by decide
  refine ⟨.of_word hw, by decide, by decide, ?_⟩
  rw [directive, Text.fields_word hw]
  rfl

theorem isDirective_globl : IsDirective (utf8 ".globl _start") := by
  have ha : Text.IsWord (utf8 ".globl") := by decide
  have hb : Text.IsWord (utf8 "_start") := by decide
  have hs : Sentence (utf8 ".globl" ++ utf8 " " ++ utf8 "_start") :=
    .of_two ha hb (by decide) (by decide)
  refine ⟨hs, by decide, by decide, ?_⟩
  change directive (utf8 ".globl" ++ 0x20 :: utf8 "_start") = _
  rw [directive, Text.fields_two ha hb]
  rfl

theorem written_prologue :
    Written arch (prologue arch.dialect) (prologueEntries arch (utf8 "_start")) := by
  refine .directive isDirective_text (.directive isDirective_globl ?_)
  refine .mark ⟨by decide, by decide⟩ ?_
  have hw : ¬ (some (wordWidth arch) = some .quad ∧ arch = .x86) := by
    cases arch <;> simp [wordWidth]
  have hpush := instruction_push (mnemonic_push arch) hw isOperand_zero
  rw [List.append_assoc] at hpush
  refine .op hpush ?_
  exact .op (instruction_mov mnemonic_mov (by simp) isOperand_stack isOperand_pointer) .nil

theorem written_epilogue :
    Written arch (epilogue arch.dialect) ((epilogueOps arch).map Entry.op) := by
  refine written_call ?_ (.cons isOperand_zero .nil)
  cases arch <;> exact ⟨by decide, rfl⟩

/-- The entries of a whole program. -/
def programEntries (nodes : List Node) : List (Entry Bytes) :=
  prologueEntries arch (utf8 "_start") ++ blockEntries arch siteLabel nodes ++
    (epilogueOps arch).map Entry.op

theorem marks_programEntries (nodes : List Node) :
    marks (programEntries arch nodes) =
      utf8 "_start" :: (blockSites nodes).map fun x => siteLabel x.1 x.2 := by
  rw [programEntries, marks_append, marks_append, marks_blockEntries, marks_map_op,
    List.append_nil]
  rfl

theorem resolve_programEntries {nodes : List Node} {place : Bytes → Option Nat}
    (h : Placed place 0 (programEntries arch nodes)) :
    place (utf8 "_start") = some 0 ∧
      (ops (programEntries arch nodes)).mapM (Op.resolve place) = .ok (arch.code nodes) := by
  rw [programEntries, List.append_assoc, placed_append, placed_append] at h
  obtain ⟨⟨hs, -⟩, hb, -⟩ := h
  refine ⟨hs, ?_⟩
  rw [programEntries, ops_append, ops_append, ops_map_op]
  refine mapM_append_ok (mapM_append_ok ?_ (resolve_blockEntries arch siteLabel nodes hb)) ?_
  · cases arch <;> rfl
  · cases arch <;> rfl

/-- **A tree with its locations in order is written whole**, with labels that differ. -/
theorem written_program {nodes : List Node} (hs : Sound nodes)
    (h : (Node.locationsAll nodes).Pairwise fun a b => a.place < b.place) :
    ∃ lines, Assembly.lines arch.dialect nodes = (lines, none) ∧
      Written arch lines (programEntries arch nodes) ∧
      (marks (programEntries arch nodes)).Nodup := by
  obtain ⟨body, hb, hw⟩ := written_block arch hs
  refine ⟨_, lines_eq arch.dialect hb, ?_, ?_⟩
  · exact ((written_prologue arch).append hw).append (written_epilogue arch)
  · rw [marks_programEntries, List.nodup_cons]
    refine ⟨?_, nodup_siteLabels hs h⟩
    intro hm
    obtain ⟨x, -, hx⟩ := List.mem_map.mp hm
    exact start_ne_siteLabel x.1 x.2 hx.symm

theorem written_of_parse {file source : Bytes} {nodes : List Node}
    (short : source.length < 2 ^ 63) (parsed : parse file source = .ok nodes) :
    ∃ lines, Assembly.lines arch.dialect nodes = (lines, none) ∧
      Written arch lines (programEntries arch nodes) ∧
      (marks (programEntries arch nodes)).Nodup := by
  obtain ⟨e, hr, -⟩ := reads_of_parse parsed
  have hb := Cursor.bounded_start file short
  exact written_program arch (sound_of_reads hr hb) (Cursor.between_of_reads hr hb).sorted

theorem text_listing {nodes : List Node} {lines : List Line}
    (h : Assembly.lines arch.dialect nodes = (lines, none)) :
    (arch.listing nodes).text = (lines.map Line.render).flatten := by
  rw [Emission.text, Arch.listing, h]

theorem load_of_written {nodes : List Node} {lines : List Line}
    (hl : Assembly.lines arch.dialect nodes = (lines, none))
    (hw : Written arch lines (programEntries arch nodes))
    (hm : (marks (programEntries arch nodes)).Nodup) :
    ∃ p, load (arch.listing nodes).text (Int64.ofNat arch.bits) = .ok p ∧ p.arch = arch ∧
      p.entry = 0 ∧ p.code.toList.map Instr.op = arch.code nodes := by
  have ha : archOfBits? (Int64.ofNat arch.bits) = some arch := by cases arch <;> rfl
  rw [load, ha, text_listing arch hl]
  exact loadFor_of_written hw hm fun place hp => resolve_programEntries arch hp

theorem length_code (nodes : List Node) : (arch.code nodes).length = 5 + blockSize nodes := by
  have hp : (prologueCode arch).length = 2 := by cases arch <;> rfl
  have he : (epilogueOps arch : List (Op Nat)).length = 3 := by cases arch <;> rfl
  rw [Arch.code, List.length_append, List.length_append, length_blockCode, hp, he]
  omega

end TapeLang.Assembly

namespace TapeLang

open Assembly Machine

/-- **The listing of a parsed program is loaded as the code of its tree**, with a label for the
entry and one for each site. -/
theorem listing_loads {file source : Bytes} {nodes : List Node}
    (short : source.length < 2 ^ 63) (parsed : parse file source = .ok nodes) (arch : Arch) :
    ∃ lines p, Assembly.lines arch.dialect nodes = (lines, none) ∧
      (arch.listing nodes).text = (lines.map Line.render).flatten ∧
      labelNames lines = utf8 "_start" :: (blockSites nodes).map (fun x => siteLabel x.1 x.2) ∧
      (labelNames lines).Nodup ∧
      load (arch.listing nodes).text (Int64.ofNat arch.bits) = .ok p ∧
      p.arch = arch ∧ p.entry = 0 ∧ p.code.toList.map Instr.op = arch.code nodes ∧
      p.code.size = 5 + blockSize nodes := by
  obtain ⟨lines, hl, hw, hm⟩ := written_of_parse arch short parsed
  obtain ⟨p, hload, harch, hentry, hcode⟩ := load_of_written arch hl hw hm
  have hnames := hw.labelNames
  rw [marks_programEntries] at hnames hm
  refine ⟨lines, p, hl, text_listing arch hl, hnames, hnames ▸ hm, hload, harch, hentry, hcode, ?_⟩
  rw [← length_code arch nodes, ← hcode, List.length_map, Array.length_toList]

/-- A loop that copies its input is loaded as thirty operations. -/
theorem listing_loads_echo :
    ∃ nodes p, parse "echo" (utf8 "+[>,.<-]") = .ok nodes ∧
      load (Arch.x86.listing nodes).text 32 = .ok p ∧ p.code.size = 30 := by
  have parsed : parse "echo" (utf8 "+[>,.<-]") = .ok
      [{ kind := .increment, count := 1, loc := ⟨"echo", 1, 1⟩ },
        { kind := .loop, loc := ⟨"echo", 1, 2⟩, children :=
          [{ kind := .moveForward, count := 1, loc := ⟨"echo", 1, 3⟩ },
            { kind := .read, loc := ⟨"echo", 1, 4⟩ }, { kind := .write, loc := ⟨"echo", 1, 5⟩ },
            { kind := .moveBackward, count := 1, loc := ⟨"echo", 1, 6⟩ },
            { kind := .decrement, count := 1, loc := ⟨"echo", 1, 7⟩ }] }] := by
    cbv
  obtain ⟨-, p, -, -, -, -, hload, -, -, -, hsize⟩ := listing_loads (by decide) parsed .x86
  exact ⟨_, p, parsed, hload, hsize⟩

end TapeLang
