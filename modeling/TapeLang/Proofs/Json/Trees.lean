import TapeLang.Json.Tree
import TapeLang.Proofs.Json.Values
import TapeLang.Proofs.Text.Utf8
import TapeLang.Proofs.Tree.Preorder

/-!
# Trees from their JSON

A tree comes back from its JSON as it was, unless it is nested too deep or holds a node of an
unknown kind, and then nothing comes back. Only names of files that are no text are mended.

* `Node.programJson`: a program that may be missing as JSON.
* `Location.mended`: a location with U+FFFD for each stray byte of its file name.
* `int64?_toString`: integers come back from their literals.
* **`nodes_itemsJson`**: nodes come back, or the first unknown kind among them is reported.
* **`decodeList_programJson`**: what becomes of the text of a program.
-/

namespace TapeLang

/-- A location with U+FFFD for each stray byte of its file name. -/
def Location.mended (loc : Location) : Location :=
  { loc with file := utf8 (Text.lossyString loc.file) }

theorem Location.mended_of_utf8 {loc : Location} {name : String} (h : loc.file = utf8 name) :
    loc.mended = loc := by
  rw [mended, h, Text.lossyString_utf8, ← h]

/-! ## Fields -/

namespace Json

theorem foldl_toDigits (n : Nat) :
    (Nat.toDigits 10 n).foldl (fun n c => 10 * n + (c.toNat - 0x30)) 0 = n :=
  Nat.ofDigitChars_toDigits (by omega) (by omega)

theorem all_isDigit_toDigits (n : Nat) :
    ((Nat.toDigits 10 n).all Char.isDigit && !(Nat.toDigits 10 n).isEmpty) = true := by
  simp only [Bool.and_eq_true, List.all_eq_true, Bool.not_eq_true', List.isEmpty_eq_false_iff]
  exact ⟨fun c hc => Nat.isDigit_of_mem_toDigits (by omega) (by omega) hc, Nat.toDigits_ne_nil⟩

theorem int64?_toString (n : Int64) : int64? (toString n.toInt).toList = some n := by
  have hlow := Int64.le_toInt n
  have hhigh := Int64.toInt_lt n
  have hback : Int64.ofInt n.toInt = n := Int64.ofInt_toInt n
  rcases hn : n.toInt with m | m
  · rw [hn] at hlow hhigh hback
    have hdigits := all_isDigit_toDigits m
    rw [toList_toString_ofNat]
    unfold int64?
    split
    rename_i negative digits hsign
    split at hsign
    · rename_i hminus
      rw [hminus] at hdigits
      simp [Char.isDigit] at hdigits
    · cases hsign
      simp only [hdigits, foldl_toDigits, if_true, Bool.false_eq_true, if_false]
      rw [if_pos ⟨by simp, by simpa using hhigh⟩, ← hback]
      rfl
  · rw [hn] at hlow hhigh hback
    have hvalue : -((m + 1 : Nat) : Int) = Int.negSucc m := rfl
    rw [toList_toString_negSucc]
    simp only [int64?, all_isDigit_toDigits, foldl_toDigits, if_true]
    rw [hvalue, if_pos ⟨by simpa using hlow, by simpa using hhigh⟩, hback]

end Json

theorem Kind.ofName?_name {kind : Kind} (h : kind ∈ Kind.known) :
    Kind.ofName? kind.name = some kind := by
  simp only [Kind.known, List.mem_cons, List.not_mem_nil, or_false] at h
  rcases h with rfl | rfl | rfl | rfl | rfl | rfl | rfl <;> decide

/-- A kind that is none of the seven has a name that none of them has. -/
theorem Kind.ofName?_of_notMem {kind : Kind} (h : kind ∉ Kind.known) :
    Kind.ofName? kind.name = none := by
  cases kind with
  | unknown code =>
    rw [Kind.ofName?, List.find?_eq_none]
    intro kind hk
    rw [decide_eq_true_eq]
    intro hname
    have hhead := congrArg (fun s => s.toList.head?) hname
    simp only [Kind.known, List.mem_cons, List.not_mem_nil, or_false] at hk
    rcases hk with rfl | rfl | rfl | rfl | rfl | rfl | rfl <;> simp [Kind.name] at hhead
  | _ => exact absurd (by decide) h

namespace Decode

theorem int64_int (kept n : Int64) : int64 kept (.int n.toInt) = pure n := by
  rw [Json.int, int64, Json.int64?_toString]

theorem fields_location (kept loc : Location) :
    fields locationField kept loc.toJson = pure loc.mended := by
  have hline : Json.sameField "file" "line" = false := by decide
  have hcolumn : Json.sameField "file" "column" = false := by decide
  have hcolumn' : Json.sameField "line" "column" = false := by decide
  have hsame : ∀ key, Json.sameField key key := fun key => by simp [Json.sameField]
  rw [Location.toJson, fields]
  simp [List.foldlM, locationField, hsame, hline, hcolumn, hcolumn', bytes, int64_int,
    Location.mended]

/-! ## Nodes -/

section Fields

variable (p : Partial)

theorem nodeField_kind (kind : Kind) :
    nodeField p ("kind", .string kind.name) =
      if kind ∈ Kind.known then pure { p with node := { p.node with kind } }
      else throw (.unknownKind kind.name) := by
  have hsame : Json.sameField "kind" "kind" := by decide
  rw [nodeField, if_pos hsame, Decode.kind]
  by_cases h : kind ∈ Kind.known
  · rw [if_pos h, Kind.ofName?_name h]
    rfl
  · rw [if_neg h, Kind.ofName?_of_notMem h]
    rfl

theorem nodeField_count (count : Int64) :
    nodeField p ("count", .int count.toInt) =
      pure { p with node := { p.node with count } } := by
  have hkind : Json.sameField "kind" "count" = false := by decide
  have hsame : Json.sameField "count" "count" := by decide
  rw [nodeField, if_neg (by simp [hkind]), if_pos hsame, int64_int]
  rfl

theorem nodeField_loc (loc : Location) :
    nodeField p ("loc", loc.toJson) =
      pure { p with node := { p.node with loc := loc.mended } } := by
  have hkind : Json.sameField "kind" "loc" = false := by decide
  have hcount : Json.sameField "count" "loc" = false := by decide
  have hsame : Json.sameField "loc" "loc" := by decide
  rw [nodeField, if_neg (by simp [hkind]), if_neg (by simp [hcount]), if_pos hsame,
    fields_location]
  rfl

theorem nodeField_children (items : List Json) :
    nodeField p ("children", .array items) =
      (nodes p.leftover items >>= fun children => pure (p.setChildren children)) := by
  have hkind : Json.sameField "kind" "children" = false := by decide
  have hcount : Json.sameField "count" "children" = false := by decide
  have hloc : Json.sameField "loc" "children" = false := by decide
  have hsame : Json.sameField "children" "children" := by decide
  rw [nodeField, if_neg (by simp [hkind]), if_neg (by simp [hcount]), if_neg (by simp [hloc]),
    if_pos hsame, nodeChildren]

end Fields

/-- A node comes back if its own kind is known and its children do. -/
theorem node_toJson (kind : Kind) (count : Int64) (children : List Node) (loc : Location) :
    node {} (Node.toJson ⟨kind, count, children, loc⟩) =
      if kind ∈ Kind.known then
        nodes [] (Node.itemsJson children) >>= fun cs => pure ⟨kind, count, cs, loc.mended⟩
      else throw (.unknownKind kind.name) := by
  rw [Node.toJson, node]
  simp only [List.append_assoc, List.cons_append, List.nil_append, nodeFields, nodeField_kind]
  by_cases hk : kind ∈ Kind.known
  · rw [if_pos hk, if_pos hk]
    by_cases hcount : count = 0
    · cases children with
      | nil => simp [hcount, nodeFields, nodeField_loc, nodes, Node.itemsJson]
      | cons c cs =>
        simp [hcount, nodeFields, nodeField_loc, nodeField_children, Partial.setChildren]
    · cases children with
      | nil =>
        simp [hcount, nodeFields, nodeField_loc, nodeField_count, nodes, Node.itemsJson]
      | cons c cs =>
        simp [hcount, nodeFields, nodeField_loc, nodeField_count, nodeField_children,
          Partial.setChildren]
  · rw [if_neg hk, if_neg hk]
    rfl

/-- **Nodes come back from their JSON**, or the first unknown kind among them is reported. -/
theorem nodes_itemsJson (ns : List Node) :
    nodes [] (Node.itemsJson ns) =
      match (Node.everywhere ns).find? Node.isUnknown with
      | none => pure (Node.relocateAll Location.mended ns)
      | some n => throw (.unknownKind n.kind.name) := by
  -- The kind is the first field of a node, so it is reported before the children are looked at.
  induction ns using Node.forest_induction with
  | nil => rfl
  | cons kind count children loc rest ihc ihr =>
    rw [Node.itemsJson, nodes, List.headD_nil, node_toJson, ihc, List.tail_nil, ihr,
      Node.everywhere_cons]
    by_cases hk : kind ∈ Kind.known
    · have hn : ¬ Node.isUnknown ⟨kind, count, children, loc⟩ := by simp [Node.isUnknown, hk]
      rw [if_pos hk, List.find?_cons_of_neg hn, List.find?_append]
      rcases (Node.everywhere children).find? Node.isUnknown with _ | n
      · rcases (Node.everywhere rest).find? Node.isUnknown with _ | n
        · simp [Node.relocateAll, Node.relocate]
        · rfl
      · rfl
    · have hn : Node.isUnknown ⟨kind, count, children, loc⟩ := by simp [Node.isUnknown, hk]
      rw [if_neg hk, List.find?_cons_of_pos hn]
      rfl

end Decode

/-! ## Programs -/

namespace Node

/-- A program as JSON; one that is missing is `null`. -/
def programJson : Option (List Node) → Json
  | none => .null
  | some nodes => listJson nodes

theorem integral_location (loc : Location) : loc.toJson.Integral := by
  refine .object ?_
  simp only [List.forall_mem_cons, List.not_mem_nil, false_imp_iff, implies_true, and_true]
  exact ⟨.string _, .int _, .int _⟩

theorem integral_itemsJson (nodes : List Node) : ∀ v ∈ itemsJson nodes, v.Integral := by
  induction nodes using forest_induction with
  | nil => simp [itemsJson]
  | cons kind count children loc rest ihc ihr =>
    rw [itemsJson, List.forall_mem_cons]
    refine ⟨?_, ihr⟩
    rw [toJson]
    refine .object ?_
    simp only [List.forall_mem_append, List.forall_mem_singleton]
    refine ⟨⟨⟨.string _, ?_⟩, ?_⟩, integral_location loc⟩
    · split_ifs
      · simp
      · simpa using Json.Integral.int count.toInt
    · split_ifs
      · simp
      · simpa using Json.Integral.array ihc

theorem integral_programJson (program : Option (List Node)) : (programJson program).Integral := by
  cases program with
  | none => exact .null
  | some nodes => exact .array (integral_itemsJson nodes)

end Node

open Node

/-- **What becomes of the text of a program.** It comes back if all kinds are known and it is not
nested too deep; only the names of files are mended, and text is not changed by that. -/
theorem decodeList_programJson (program : Option (List Node)) :
    (decodeList (encode (programJson program).compact) =
      if (programJson program).depth ≤ Json.maxDepth then
        match (everywhere (program.getD [])).find? isUnknown with
        | none => .ok (program.map (relocateAll Location.mended))
        | some n => .error (.unknownKind n.kind.name)
      else .error .malformed) ∧
      ((∀ n ∈ everywhere (program.getD []), ∃ name : String, n.loc.file = utf8 name) →
        program.map (relocateAll Location.mended) = program) := by
  refine ⟨?_, fun hnames => ?_⟩
  · rw [decodeList, Text.decodeLossy_encode, Json.read?_compact (integral_programJson program)]
    by_cases hdepth : (programJson program).depth ≤ Json.maxDepth
    · rw [if_pos hdepth, if_pos hdepth]
      cases program with
      | none => rfl
      | some nodes =>
        simp only [programJson, listJson, Decode.nodes_itemsJson, Option.getD_some]
        rcases (everywhere nodes).find? isUnknown with _ | n
        · rfl
        · rfl
    · rw [if_neg hdepth, if_neg hdepth]
  · cases program with
    | none => rfl
    | some nodes =>
      have hsame : relocateAll Location.mended nodes = nodes :=
        relocateAll_eq_self _ fun n hn => (hnames n hn).elim fun _ => Location.mended_of_utf8
      rw [Option.map_some, hsame]

/-- A tree comes back although the names of its files need escapes. -/
theorem decodeList_programJson_escapes :
    let program : Option (List Node) := some [{
      kind := .loop
      children := [{ kind := .increment, count := -1, loc := ⟨"\"<\u2028", 1, 2⟩ }]
      loc := ⟨"é\n", 1, 1⟩ }]
    decodeList (encode (programJson program).compact) = .ok program := by
  intro program
  obtain ⟨hdecode, hsame⟩ := decodeList_programJson program
  have hnames : ∀ n ∈ everywhere (program.getD []), ∃ name : String, n.loc.file = utf8 name := by
    simp only [program, Option.getD_some, everywhere_cons, everywhere_nil, List.append_nil,
      List.forall_mem_cons]
    exact ⟨⟨_, rfl⟩, ⟨_, rfl⟩, fun _ h => absurd h List.not_mem_nil⟩
  have hdepth : (programJson program).depth ≤ Json.maxDepth := by decide
  have hknown : (everywhere (program.getD [])).find? isUnknown = none := by rfl
  rw [hdecode, if_pos hdepth, hknown, hsame hnames]

end TapeLang
