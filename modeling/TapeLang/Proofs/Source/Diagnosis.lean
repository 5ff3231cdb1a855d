import Mathlib.Data.List.Nodup
import TapeLang.Proofs.Source.Brackets
import TapeLang.Proofs.Source.Offset

/-!
# The errors that the parser finds

While the parser reads, its open scopes stand for the opening brackets that have no partner yet, and
its errors for the closing brackets that have none. So the errors of a source are known from its
brackets alone.

* `bracketErrors`: the errors of a source.
* `Recorded`: what a draft has recorded of the bytes behind an offset.
* **`recorded_readAll`**: the parser records all of the source.
* **`parse_of_bracketErrors`**: the parser reports these errors, if there are any.
* **`parse_reports_unmatched`**: what comes of a source that is not balanced.
-/

namespace TapeLang

variable {file source : Bytes} {k : Nat} {draft : Draft}

/-- The error of a closing bracket without a partner. -/
def closerError (file source : Bytes) (j : Nat) : BracketError :=
  { defect := .unmatchedTerminator, loc := locationAt file source j }

/-- The error of an opening bracket without a partner. -/
def openerError (file source : Bytes) (i : Nat) : BracketError :=
  { defect := .unterminatedLoop, loc := locationAt file source i }

/-- The closing brackets without a partner from left to right, then the opening brackets without a
partner from right to left. -/
def bracketErrors (file source : Bytes) : List BracketError :=
  (unmatchedClosers source).map (closerError file source) ++
    (unmatchedOpeners source).reverse.map (openerError file source)

theorem bracketErrors_eq_nil : bracketErrors file source = [] ↔ Balanced source := by
  simp [bracketErrors, balanced_iff]

/-! ## Drafts -/

/-- A draft has recorded the brackets before an offset that have no partner there. -/
structure Recorded (file source : Bytes) (k : Nat) (draft : Draft) : Prop where
  errors : draft.errors.reverse =
    (unmatchedClosers (source.take k)).map (closerError file source)
  scopes : draft.scopes.above.map Scope.loc =
    (unmatchedOpeners (source.take k)).reverse.map (locationAt file source)

theorem recorded_start (file source : Bytes) (loc : Location) :
    Recorded file source 0 (Draft.start loc) :=
  ⟨rfl, rfl⟩

theorem map_loc_modifyTop (scopes : Stack Scope) (n : Node) :
    (scopes.modifyTop (·.add n)).above.map Scope.loc = scopes.above.map Scope.loc := by
  rcases scopes with ⟨root, _ | ⟨s, above⟩⟩ <;> rfl

theorem Recorded.add (h : Recorded file source k draft) (n : Node) :
    Recorded file source k (draft.add n) :=
  ⟨h.errors, (map_loc_modifyTop draft.scopes n).trans h.scopes⟩

theorem Recorded.openLoop (h : Recorded file source k draft)
    (hb : source[k]? = some (Text.ascii '[')) :
    Recorded file source (k + 1) (draft.openLoop (locationAt file source k)) := by
  constructor
  · rw [take_succ_of_getElem? hb, unmatchedClosers_concat,
      if_neg fun hclose => opener_ne_closer hclose.1]
    exact h.errors
  · rw [take_succ_of_getElem? hb, unmatchedOpeners_concat, if_pos rfl,
      length_take_of_getElem? hb, List.reverse_concat, List.map_cons, ← h.scopes]
    rfl

theorem Recorded.closeLoop (h : Recorded file source k draft)
    (hb : source[k]? = some (Text.ascii ']')) :
    Recorded file source (k + 1) (draft.closeLoop (locationAt file source k)) := by
  have hopeners : unmatchedOpeners (source.take (k + 1)) =
      (unmatchedOpeners (source.take k)).dropLast := by
    rw [take_succ_of_getElem? hb, unmatchedOpeners_concat, if_neg opener_ne_closer.symm,
      if_pos rfl]
  have hclosers := unmatchedClosers_concat (source.take k) (Text.ascii ']')
  rw [← take_succ_of_getElem? hb, length_take_of_getElem? hb] at hclosers
  obtain ⟨herrors, hscopes⟩ := h
  rcases draft with ⟨⟨root, _ | ⟨s, above⟩⟩, errors⟩
  · -- No scope is open, so no opening bracket is left.
    have hnil : unmatchedOpeners (source.take k) = [] := by simpa using hscopes.symm
    constructor
    · rw [hclosers, if_pos ⟨rfl, hnil⟩, List.map_append, ← herrors]
      exact List.reverse_cons
    · rw [hopeners, hnil]
      rfl
  · have hne : unmatchedOpeners (source.take k) ≠ [] := fun hnil => by simp [hnil] at hscopes
    constructor
    · rw [hclosers, if_neg fun hand => hne hand.2]
      exact herrors
    · rw [hopeners, ← List.tail_reverse, List.map_tail, ← hscopes]
      exact map_loc_modifyTop ⟨root, above⟩ s.toLoop

theorem Recorded.skip {b : UInt8} (h : Recorded file source k draft) (hb : source[k]? = some b)
    (hopen : b ≠ Text.ascii '[') (hclose : b ≠ Text.ascii ']') :
    Recorded file source (k + 1) draft := by
  constructor
  · rw [take_succ_of_getElem? hb, unmatchedClosers_concat, if_neg fun hand => hclose hand.1]
    exact h.errors
  · rw [take_succ_of_getElem? hb, unmatchedOpeners_concat, if_neg hopen, if_neg hclose]
    exact h.scopes

namespace Cursor

variable {c d : Cursor}

/-- A cursor and a draft that belong together. -/
structure Records (c : Cursor) (file source : Bytes) (draft : Draft) : Prop where
  named : c.file = file
  placed : c.Placed source
  recorded : Recorded file source c.before.length draft

theorem Records.advance? (h : c.Records file source draft) {b : UInt8} (hp : c.peek? = some b)
    (ha : c.advance? = some d) {draft' : Draft}
    (hr : Recorded file source (c.before.length + 1) draft') : d.Records file source draft' := by
  obtain ⟨hbefore, hfile⟩ := advance?_behind hp ha
  refine ⟨hfile.trans h.named, h.placed.advance? hp ha, ?_⟩
  rw [hbefore]
  exact hr

theorem Records.location (h : c.Records file source draft) :
    c.location = locationAt file source c.before.length :=
  h.named ▸ h.placed.location

theorem Records.skip (h : c.Records file source draft) {b : UInt8} (hp : c.peek? = some b)
    (ha : c.advance? = some d) (hopen : b ≠ Text.ascii '[') (hclose : b ≠ Text.ascii ']') :
    d.Records file source draft :=
  h.advance? hp ha (h.recorded.skip (h.placed.getElem?.trans hp) hopen hclose)

theorem Records.passRun {b : UInt8} {n : Nat} (h : c.Records file source draft)
    (hopen : b ≠ Text.ascii '[') (hclose : b ≠ Text.ascii ']') :
    (c.passRun b n).2.Records file source draft := by
  fun_induction Cursor.passRun b c n with
  | case1 => exact h
  | case2 c n d ha hp ih => exact ih (h.skip hp ha hopen hclose)
  | case3 => exact h

theorem Records.add (h : c.Records file source draft) (n : Node) :
    c.Records file source (draft.add n) :=
  ⟨h.named, h.placed, h.recorded.add n⟩

/-- **The parser records all of the source.** -/
theorem recorded_readAll (h : c.Records file source draft) :
    Recorded file source source.length (c.readAll draft).1 := by
  have hend : ∀ {c : Cursor} {draft}, c.Records file source draft → c.after = [] →
      Recorded file source source.length draft := by
    intro c draft h hafter
    have hlength := congrArg List.length h.placed.source
    rw [hafter, List.append_nil, List.length_reverse] at hlength
    exact hlength ▸ h.recorded
  fun_induction readAll c draft with
  | case1 c draft ha => exact hend h (after_eq_nil_of_advance? ha)
  | case2 c draft d _ hp => exact hend h (List.head?_eq_none_iff.mp hp)
  | case3 c draft d ha hp ih =>
    refine ih (h.advance? hp ha ?_)
    rw [h.location]
    exact h.recorded.openLoop (h.placed.getElem?.trans hp)
  | case4 c draft d ha hp _ ih =>
    refine ih (h.advance? hp ha ?_)
    rw [h.location]
    exact h.recorded.closeLoop (h.placed.getElem?.trans hp)
  | case5 c draft d ha b hp hopen hclose _ ih => exact ih (h.skip hp ha hopen hclose)
  | case6 c draft d ha b hp hopen hclose kind _ _ run ih =>
    exact ih (((h.skip hp ha hopen hclose).passRun hopen hclose).add _)
  | case7 c draft d ha b hp hopen hclose kind _ _ ih =>
    exact ih ((h.skip hp ha hopen hclose).add _)

end Cursor

theorem Recorded.allErrors (h : Recorded file source source.length draft) :
    draft.allErrors = bracketErrors file source := by
  obtain ⟨herrors, hscopes⟩ := h
  rw [List.take_length] at herrors hscopes
  have hmap : (draft.scopes.above.map fun s => ({ defect := .unterminatedLoop, loc := s.loc } :
      BracketError)) = (draft.scopes.above.map Scope.loc).map fun loc =>
        { defect := .unterminatedLoop, loc } := by
    rw [List.map_map]
    rfl
  rw [Draft.allErrors, herrors, hmap, hscopes, List.map_map]
  rfl

/-! ## The parser -/

theorem exists_draft (file source : Bytes) :
    ∃ draft : Draft, draft.allErrors = bracketErrors file source ∧
      parse file source = draft.result := by
  have hstart : (Cursor.start file source).Records file source
      (Draft.start (Cursor.start file source).location) :=
    ⟨rfl, Cursor.placed_start file source, recorded_start file source _⟩
  exact ⟨_, (Cursor.recorded_readAll hstart).allErrors, rfl⟩

/-- **The parser reports the errors of a source**, if there are any. -/
theorem parse_of_bracketErrors (h : bracketErrors file source ≠ []) :
    parse file source = .error (bracketErrors file source) := by
  obtain ⟨draft, herrors, hparse⟩ := exists_draft file source
  rw [hparse, Draft.result, herrors]
  split
  next hnil => exact absurd hnil h
  next => rfl

theorem exists_parse (h : bracketErrors file source = []) :
    ∃ nodes, parse file source = .ok nodes := by
  obtain ⟨draft, herrors, hparse⟩ := exists_draft file source
  rw [hparse, Draft.result, herrors, h]
  exact ⟨_, rfl⟩

theorem nodup_bracketErrors (short : source.length < 2 ^ 63) :
    ((bracketErrors file source).map BracketError.loc).Nodup := by
  have hmap : (bracketErrors file source).map BracketError.loc =
      (unmatchedClosers source ++ (unmatchedOpeners source).reverse).map
        (locationAt file source) := by
    rw [bracketErrors, List.map_append, List.map_append, List.map_map, List.map_map]
    rfl
  have hapart : ∀ j ∈ unmatchedClosers source, ∀ i ∈ (unmatchedOpeners source).reverse,
      j ≠ i := by
    rintro j hj i hi rfl
    have hclose := getElem?_of_mem_unmatchedClosers hj
    rw [(mem_unmatchedOpeners.mp (List.mem_reverse.mp hi)).1] at hclose
    exact opener_ne_closer (Option.some.inj hclose)
  have hlt : ∀ i ∈ unmatchedClosers source ++ (unmatchedOpeners source).reverse,
      i < source.length := by
    intro i hi
    rcases List.mem_append.mp hi with hi | hi
    · exact lt_of_mem_unmatchedClosers hi
    · exact lt_of_mem_unmatchedOpeners (List.mem_reverse.mp hi)
  rw [hmap]
  refine List.Nodup.map_on (fun i hi j hj => locationAt_inj short (hlt i hi) (hlt j hj)) ?_
  rw [List.nodup_append, List.nodup_reverse]
  exact ⟨(pairwise_unmatchedClosers source).imp Nat.ne_of_lt,
    (pairwise_unmatchedOpeners source).imp Nat.ne_of_lt, hapart⟩

/-- **What comes of a source that is not balanced**: no tree, and one error for each bracket without
a partner. -/
theorem parse_reports_unmatched (file source : Bytes) (unbalanced : ¬ Balanced source) :
    parse file source = .error (bracketErrors file source) ∧
      (source.length < 2 ^ 63 → ((bracketErrors file source).map BracketError.loc).Nodup) :=
  ⟨parse_of_bracketErrors (mt bracketErrors_eq_nil.mp unbalanced), nodup_bracketErrors⟩

/-- Two closing brackets and two opening brackets without a partner, on three lines. -/
theorem parse_reports_unmatched_lines :
    parse "lines" (utf8 "+]\n[[-]]]\n[>[.") = .error
      [{ defect := .unmatchedTerminator, loc := ⟨"lines", 1, 2⟩ },
        { defect := .unmatchedTerminator, loc := ⟨"lines", 2, 6⟩ },
        { defect := .unterminatedLoop, loc := ⟨"lines", 3, 3⟩ },
        { defect := .unterminatedLoop, loc := ⟨"lines", 3, 1⟩ }] := by
  obtain ⟨hparse, -⟩ :=
    parse_reports_unmatched "lines" (utf8 "+]\n[[-]]]\n[>[.") (by decide +kernel)
  refine hparse.trans (congrArg Except.error ?_)
  decide +kernel

end TapeLang
