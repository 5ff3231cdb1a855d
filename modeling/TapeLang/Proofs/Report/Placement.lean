import Mathlib.Data.List.Forall2
import TapeLang.Proofs.Source.Diagnosis
import TapeLang.Proofs.Source.Lines
import TapeLang.Report.Diagnostics

/-!
# Where diagnostics point

An error of the parser is shown with a source line and a caret, and reported with a region and a
snippet. The line is the one that its bracket stands in, and the caret and the region are at its
column.

* `BracketError.PointsAt`: a line with a bracket and a caret under it.
* `Json.path?`: the value at a path in a JSON value.
* `Finding.Tells`: what a report tells of an error.
* **`ofErrors_eq`**: a report has one finding for each error.
* **`diagnostics_point_at_brackets`**: the errors of a source as they are shown and reported.
-/

namespace TapeLang

variable {file source : Bytes} {errors : List BracketError}

/-! ## Errors and their brackets -/

theorem errors_of_parse (h : parse file source = .error errors) :
    errors = bracketErrors file source := by
  by_cases hnil : bracketErrors file source = []
  · obtain ⟨nodes, hparse⟩ := exists_parse hnil
    rw [h] at hparse
    cases hparse
  · rw [parse_of_bracketErrors hnil] at h
    exact (Except.error.inj h).symm

/-- An error stands at the bracket that it is about: an opening bracket if its loop is never closed,
a closing one if no loop is open. -/
theorem exists_bracket {e : BracketError} (h : e ∈ bracketErrors file source) :
    ∃ k, e.loc = locationAt file source k ∧
      (e.defect = .unterminatedLoop ∧ source[k]? = some (Text.ascii '[') ∨
        e.defect = .unmatchedTerminator ∧ source[k]? = some (Text.ascii ']')) := by
  rcases List.mem_append.mp h with h | h
  · obtain ⟨j, hj, rfl⟩ := List.mem_map.mp h
    exact ⟨j, rfl, .inr ⟨rfl, getElem?_of_mem_unmatchedClosers hj⟩⟩
  · obtain ⟨i, hi, rfl⟩ := List.mem_map.mp h
    exact ⟨i, rfl, .inl ⟨rfl, (mem_unmatchedOpeners.mp (List.mem_reverse.mp hi)).1⟩⟩

/-! ## Carets -/

theorem length_caretIndent (text : Bytes) (column : Int64) :
    (caretIndent text column).length = column.toInt.toNat - 1 := by
  simp [caretIndent]

/-- What stands before a caret: a tab under a tab, and a blank under anything else. -/
theorem getElem?_caretIndent (text : Bytes) {column : Int64} {i : Nat}
    (hi : i < column.toInt.toNat - 1) :
    (caretIndent text column)[i]? =
      some (if text[i]? = some (Text.ascii '\t') then Text.ascii '\t' else Text.ascii ' ') := by
  have hwidth : i < (column.toInt - 1).toNat := by omega
  unfold caretIndent
  rcases hget : text[i]? with _ | b
  · have hlength := List.getElem?_eq_none_iff.mp hget
    rw [List.getElem?_append_right (by rw [List.length_map, List.length_take]; omega),
      List.getElem?_replicate, List.length_map, List.length_take, if_pos (by omega)]
    rfl
  · have hlength := (List.getElem?_eq_some_iff.mp hget).1
    rw [List.getElem?_append_left (by rw [List.length_map, List.length_take]; omega),
      List.getElem?_map, List.getElem?_take_of_lt hwidth, hget, Option.map_some]
    by_cases hb : b = Text.ascii '\t'
    · rw [if_pos hb, if_pos (congrArg some hb), hb]
    · rw [if_neg hb, if_neg fun h => hb (Option.some.inj h)]

/-- An error points at its bracket: the line that is shown for it has the bracket at its column,
and a caret below comes to stand under the bracket. -/
structure BracketError.PointsAt (e : BracketError) (source text : Bytes) : Prop where
  line : lineText? source e.loc.line = some text
  column : 1 ≤ e.loc.column
  bracket :
    e.defect = .unterminatedLoop ∧
        text[e.loc.column.toInt.toNat - 1]? = some (Text.ascii '[') ∨
      e.defect = .unmatchedTerminator ∧
        text[e.loc.column.toInt.toNat - 1]? = some (Text.ascii ']')
  width : (caretIndent text e.loc.column).length = e.loc.column.toInt.toNat - 1
  indent : ∀ i < e.loc.column.toInt.toNat - 1, (caretIndent text e.loc.column)[i]? =
    some (if text[i]? = some (Text.ascii '\t') then Text.ascii '\t' else Text.ascii ' ')
  shown : ∀ color, ∃ head, e.shown color source =
    head ++ text ++ utf8 "\n" ++ caretIndent text e.loc.column ++
      Style.caret.paint color (utf8 "^") ++ utf8 "\n"

theorem exists_pointsAt (short : source.length < 2 ^ 63) {e : BracketError}
    (h : e ∈ bracketErrors file source) : ∃ text, e.PointsAt source text := by
  obtain ⟨k, hloc, hbracket⟩ := exists_bracket h
  obtain ⟨b, hk, hb, hb'⟩ : ∃ b, source[k]? = some b ∧ b ≠ Cursor.newline ∧
      b ≠ Text.ascii '\r' := by
    rcases hbracket with ⟨-, hk⟩ | ⟨-, hk⟩
    · exact ⟨_, hk, by decide, by decide⟩
    · exact ⟨_, hk, by decide, by decide⟩
  obtain ⟨text, hline, hcolumn, hget⟩ := exists_lineText? file short hk hb hb'
  rw [← hloc] at hline hcolumn hget
  rw [hk, ← hget] at hbracket
  refine ⟨text, hline, hcolumn, hbracket, length_caretIndent _ _,
    fun i hi => getElem?_caretIndent text hi, fun color => ?_⟩
  rw [BracketError.shown, hline]
  exact ⟨_, rfl⟩

/-! ## Paths in JSON values -/

namespace Json

/-- A step into a JSON value: to a field of an object, or to an item of an array. -/
inductive Access where
  | field (name : String)
  | item (i : Nat)
  deriving DecidableEq, Repr

/-- The value that a step leads to. -/
def access? : Json → Access → Option Json
  | .object fields, .field name => (fields.find? fun f => f.1 = name).map Prod.snd
  | .array items, .item i => items[i]?
  | _, _ => none

/-- The value at the end of a path. -/
def path? (v : Json) (path : List Access) : Option Json := path.foldlM access? v

end Json

/-! ## Reports -/

/-- The path to the region of a result. -/
def Report.regionPath : List Json.Access :=
  [.field "locations", .item 0, .field "physicalLocation", .field "region"]

open Report in
/-- What a report tells of an error: the rule that it breaks, which is one of those that the report
declares, the line and column where its region starts, and the line of the source. -/
structure Finding.Tells (f : Finding) (report : Report) (source : Bytes) (e : BracketError) :
    Prop where
  rule : (resultJson f).path? [.field "ruleId"] = some (.string e.defect.rule)
  declared : ∃ d ∈ report.rules, (ruleJson d).path? [.field "id"] = some (.string e.defect.rule)
  line : (resultJson f).path? (regionPath ++ [.field "startLine"]) = some (.int e.loc.line.toInt)
  column : (resultJson f).path? (regionPath ++ [.field "startColumn"]) =
    some (.int e.loc.column.toInt)
  snippet : lineText? source e.loc.line = some f.snippet
  shown : (resultJson f).path? (regionPath ++ [.field "snippet", .field "text"]) =
    some (.string (Text.lossyString f.snippet))

namespace Report

theorem foldl_addResult (errors : List BracketError) (source : Bytes) (r : Report) :
    errors.foldl (fun r e => r.addResult source e) r =
      { r with results := r.results ++
          errors.map fun e => ⟨e, (lineText? source e.loc.line).getD []⟩ } := by
  induction errors generalizing r with
  | nil => simp
  | cons e errors ih =>
    rw [List.foldl_cons, ih, addResult]
    simp

/-- **A report has one finding for each error**, in the same order, and declares the two rules that
a bracket can break. -/
theorem ofErrors_eq (errors : List BracketError) (source : Bytes) :
    ofErrors errors source =
      { rules := [.unterminatedLoop, .unmatchedTerminator],
        results := errors.map fun e => ⟨e, (lineText? source e.loc.line).getD []⟩ } :=
  foldl_addResult errors source _

theorem path?_results (r : Report) :
    r.toJson.path? [.field "runs", .item 0, .field "results"] =
      some (.array (r.results.map resultJson)) := by
  simp [toJson, Json.path?, Json.access?]

theorem path?_rules {r : Report} (h : r.rules ≠ []) :
    r.toJson.path? [.field "runs", .item 0, .field "tool", .field "driver", .field "rules"] =
      some (.array (r.rules.map ruleJson)) := by
  simp [toJson, Json.path?, Json.access?, h]

theorem tells_of_pointsAt {report : Report} {e : BracketError} {text : Bytes}
    (h : e.PointsAt source text) (hrules : e.defect ∈ report.rules) :
    Finding.Tells ⟨e, text⟩ report source e := by
  refine ⟨?_, ⟨e.defect, hrules, ?_⟩, ?_, ?_, h.line, ?_⟩
  all_goals
    simp [resultJson, ruleJson, regionJson, textJson, regionPath, Json.path?, Json.access?]

end Report

/-- **The errors of a source as they are shown and reported** point at their brackets, in the lines
that hold them. -/
theorem diagnostics_point_at_brackets (file source : Bytes)
    (short : source.length < 2 ^ 63) {errors : List BracketError}
    (parsed : parse file source = .error errors) :
    (∀ e ∈ errors, ∃ text, e.PointsAt source text) ∧
    let report := Report.ofErrors errors source
    report.toJson.path? [.field "runs", .item 0, .field "results"] =
        some (.array (report.results.map Report.resultJson)) ∧
      report.toJson.path? [.field "runs", .item 0, .field "tool", .field "driver",
        .field "rules"] = some (.array (report.rules.map Report.ruleJson)) ∧
      List.Forall₂ (fun f e => f.Tells report source e) report.results errors := by
  have hpoints : ∀ e ∈ errors, ∃ text, e.PointsAt source text := by
    rw [errors_of_parse parsed]
    exact fun e he => exists_pointsAt short he
  refine ⟨hpoints, Report.path?_results _, Report.path?_rules ?_, ?_⟩
  · simp [Report.ofErrors_eq]
  · rw [Report.ofErrors_eq, List.forall₂_map_left_iff, List.forall₂_same]
    intro e he
    obtain ⟨text, hpoint⟩ := hpoints e he
    rw [hpoint.line]
    refine Report.tells_of_pointsAt hpoint ?_
    rcases hpoint.bracket with ⟨hdefect, -⟩ | ⟨hdefect, -⟩
    · simp [hdefect]
    · simp [hdefect]

/-- A closing and an opening bracket behind tabs, on lines that end with a carriage return. -/
theorem diagnostics_point_at_brackets_tabs :
    let source := utf8 "\t+]\r\n\t[ [-]\r\n"
    let errors : List BracketError := [⟨.unmatchedTerminator, ⟨"tabs", 1, 3⟩⟩,
      ⟨.unterminatedLoop, ⟨"tabs", 2, 2⟩⟩]
    parse "tabs" source = .error errors ∧ (∀ e ∈ errors, ∃ text, e.PointsAt source text) ∧
      List.Forall₂ (fun f e => f.Tells (Report.ofErrors errors source) source e)
        (Report.ofErrors errors source).results errors := by
  intro source errors
  have parsed : parse "tabs" source = .error errors :=
    (parse_of_bracketErrors (by decide +kernel)).trans
      (congrArg Except.error (by decide +kernel))
  obtain ⟨hpoints, -, -, htells⟩ :=
    diagnostics_point_at_brackets "tabs" source (by decide) parsed
  exact ⟨parsed, hpoints, htells⟩

end TapeLang
