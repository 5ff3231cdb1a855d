import TapeLang.Proofs.Source.Diagnosis
import TapeLang.Proofs.Source.History
import TapeLang.Proofs.Tree.Preorder

/-!
# Parsing from the middle of a source

A parser that starts in the middle of a source finds what it would find in the rest alone, with
all locations moved: the first line of the rest goes on in the line where it begins, and its other
lines come after that one. Two cursors go over the same bytes, one in the whole source and one in
the rest, and their counters stay the same distance apart.

* `Location.beyond`, `relocateResult`: locations moved from the rest to the whole.
* `Cursor.Echoes`: the two cursors.
* **`Cursor.Echoes.readAll`**: their drafts stay the same but for the locations.
* **`Cursor.parse_from_within`**: what the parser returns, and where it leaves the cursor.
-/

namespace TapeLang

/-! ## Moved locations -/

/-- A location of the rest of a source that begins at `origin`, as a location of the whole. -/
def Location.beyond (origin loc : Location) : Location :=
  if loc.line = 1 then
    { loc with line := origin.line, column := origin.column + loc.column - 1 }
  else { loc with line := origin.line + loc.line - 1 }

section

variable (f : Location → Location)

/-- An error with its location moved. -/
def BracketError.relocate (e : BracketError) : BracketError := { e with loc := f e.loc }

/-- A tree or errors, with all locations moved. -/
def relocateResult :
    Except (List BracketError) (List Node) → Except (List BracketError) (List Node)
  | .ok nodes => .ok (Node.relocateAll f nodes)
  | .error errors => .error (errors.map (BracketError.relocate f))

/-- A scope with its locations moved. -/
def Scope.relocate (s : Scope) : Scope where
  nodes := s.nodes.map (Node.relocate f)
  loc := f s.loc

namespace Draft

/-- A draft with its locations moved. -/
def relocate (d : Draft) : Draft where
  scopes := { root := d.scopes.root.relocate f, above := d.scopes.above.map (Scope.relocate f) }
  errors := d.errors.map (BracketError.relocate f)

variable (d : Draft) (loc : Location)

theorem relocate_start : (Draft.start loc).relocate f = Draft.start (f loc) := rfl

theorem relocate_openLoop :
    (d.openLoop loc).relocate f = (d.relocate f).openLoop (f loc) := rfl

theorem relocate_add (n : Node) : (d.add n).relocate f = (d.relocate f).add (n.relocate f) := by
  rcases d with ⟨⟨root, _ | ⟨s, above⟩⟩, errors⟩ <;> rfl

theorem relocate_toLoop (s : Scope) : s.toLoop.relocate f = (s.relocate f).toLoop := by
  rw [Scope.toLoop, Node.relocate, Node.relocateAll_eq_map, List.map_reverse]
  rfl

theorem relocate_closeLoop :
    (d.closeLoop loc).relocate f = (d.relocate f).closeLoop (f loc) := by
  rcases d with ⟨⟨root, _ | ⟨s, above⟩⟩, errors⟩
  · rfl
  · have h := relocate_add f ⟨⟨root, above⟩, errors⟩ s.toLoop
    rw [relocate_toLoop] at h
    exact h

theorem allErrors_relocate :
    (d.relocate f).allErrors = d.allErrors.map (BracketError.relocate f) := by
  simp [allErrors, relocate, Function.comp_def, Scope.relocate, BracketError.relocate]

theorem result_relocate : (d.relocate f).result = relocateResult f d.result := by
  rw [result, result, allErrors_relocate]
  rcases d.allErrors with _ | ⟨e, errors⟩
  · rw [relocateResult, Node.relocateAll_eq_map, List.map_reverse]
    rfl
  · rfl

end Draft

end

namespace Cursor

variable {o c d : Cursor}

/-! ## One step of the parser -/

theorem readAll_of_after_nil (h : c.after = []) (draft : Draft) :
    c.readAll draft = (draft, c) := by
  rw [Cursor.readAll]
  split
  next => rfl
  next d ha =>
    rw [advance?_eq_none.mpr h] at ha
    cases ha

theorem readAll_of_peek? {b : UInt8} (hp : c.peek? = some b) (ha : c.advance? = some d)
    (draft : Draft) :
    c.readAll draft =
      if b = Text.ascii '[' then d.readAll (draft.openLoop c.location)
      else if b = Text.ascii ']' then d.readAll (draft.closeLoop c.location)
      else match Kind.ofByte? b with
        | none => d.readAll draft
        | some kind =>
          if kind.coalesces then (d.passRun b 1).2.readAll
            (draft.add { kind, count := Int64.ofNat (d.passRun b 1).1, loc := c.location })
          else d.readAll (draft.add { kind, loc := c.location }) := by
  rw [Cursor.readAll]
  split
  next hnone =>
    rw [ha] at hnone
    cases hnone
  next d' hsome =>
    rw [ha] at hsome
    cases hsome
    rewrite [hp]
    rfl

theorem passRun_of_ne {b : UInt8} (h : c.peek? ≠ some b) (n : Nat) : c.passRun b n = (n, c) := by
  rw [Cursor.passRun]
  split
  next => rfl
  next => rw [if_neg h]

theorem passRun_of_peek? {b : UInt8} (hp : c.peek? = some b) (ha : c.advance? = some d) (n : Nat) :
    c.passRun b n = d.passRun b (n + 1) := by
  rw [Cursor.passRun]
  split
  next hnone =>
    rw [ha] at hnone
    cases hnone
  next d' hsome =>
    rw [ha] at hsome
    cases hsome
    rw [if_pos hp]

/-! ## Two cursors over the same bytes -/

/-- A cursor `c` goes over a source from the place of `o` on, and `d` goes over the rest alone: in
the first line their columns stay apart, and in all lines their line numbers. -/
structure Echoes (o c d : Cursor) : Prop where
  file : c.file = d.file
  after : c.after = d.after
  place :
    d.line = 1 ∧ c.line = o.line ∧ c.columns.top + 1 = o.columns.top + d.columns.top ∨
      1 < d.line ∧ c.line + 1 = o.line + d.line ∧ c.columns.top = d.columns.top

theorem echoes_start (c : Cursor) : Echoes c c (start c.file c.after) :=
  ⟨rfl, rfl, .inl ⟨rfl, rfl, rfl⟩⟩

namespace Echoes

variable {d' : Cursor}

theorem peek? (h : Echoes o c d) : c.peek? = d.peek? := by
  rw [Cursor.peek?, h.after]
  rfl

theorem advance? (h : Echoes o c d) (hd : d.advance? = some d') :
    ∃ c', c.advance? = some c' ∧ Echoes o c' d' := by
  obtain ⟨b, hp⟩ := exists_peek?_of_advance? hd
  obtain ⟨c', hc⟩ : ∃ c', c.advance? = some c' := by
    refine Option.ne_none_iff_exists'.mp fun hnone => ?_
    rw [← h.peek?, Cursor.peek?, advance?_eq_none.mp hnone] at hp
    cases hp
  obtain ⟨hafter, hplace⟩ := advance?_cases hp hd
  obtain ⟨hafter', hplace'⟩ := advance?_cases (h.peek?.trans hp) hc
  refine ⟨c', hc, ?_, ?_, ?_⟩
  · rw [(advance?_behind hp hd).2, (advance?_behind (h.peek?.trans hp) hc).2, h.file]
  · have hsame := h.after
    rw [hafter, hafter'] at hsame
    exact List.tail_eq_of_cons_eq hsame
  · have := h.place
    rcases hplace with ⟨hb, hline, htop⟩ | ⟨hb, hline, htop⟩
    · obtain ⟨-, hline', htop'⟩ := hplace'.resolve_right fun hne => hne.1 hb
      right
      omega
    · obtain ⟨-, hline', htop'⟩ := hplace'.resolve_left fun heq => hb heq.1
      omega

theorem location (h : Echoes o c d) (hd : d.line < 2 ^ 63) :
    c.location = o.location.beyond d.location := by
  have hsub : ∀ {m n k : Nat}, m + 1 = n + k →
      Int64.ofNat m = Int64.ofNat n + Int64.ofNat k - 1 := by
    intro m n k hmn
    rw [← Int64.ofNat_add, ← hmn, Int64.ofNat_add]
    exact (Int64.add_sub_cancel _ _).symm
  unfold Location.beyond Cursor.location
  rcases h.place with ⟨hone, hl, htop⟩ | ⟨hmore, hl, htop⟩
  · rw [if_pos (by rw [hone]; rfl), hl, h.file, hsub htop]
  · have hne : Int64.ofNat d.line ≠ 1 := by
      intro heq
      have hint := congrArg Int64.toInt heq
      rw [Int64.toInt_ofNat_of_lt hd] at hint
      have hone : (1 : Int64).toInt = 1 := rfl
      omega
    rw [if_neg hne, htop, h.file, hsub hl]

theorem passRun {b : UInt8} {n : Nat} (h : Echoes o c d) :
    (c.passRun b n).1 = (d.passRun b n).1 ∧
      Echoes o (c.passRun b n).2 (d.passRun b n).2 := by
  fun_induction Cursor.passRun b d n generalizing c with
  | case1 d n hd =>
    have hne : c.peek? ≠ some b := by
      rw [h.peek?, Cursor.peek?, advance?_eq_none.mp hd]
      simp
    rw [passRun_of_ne hne]
    exact ⟨rfl, h⟩
  | case2 d n d' hd hp ih =>
    obtain ⟨c', hc, h'⟩ := h.advance? hd
    rw [passRun_of_peek? (h.peek?.trans hp) hc]
    exact ih h'
  | case3 d n d' hd hp =>
    rw [passRun_of_ne (h.peek? ▸ hp)]
    exact ⟨rfl, h⟩

theorem location_of_peek? {b : UInt8} (h : Echoes o c d) (hb : d.Bounded)
    (hp : d.peek? = some b) : c.location = o.location.beyond d.location := by
  have hline := hb.line
  have hlength := length_pos_of_peek? hp
  exact h.location (by omega)

/-- **The drafts stay the same but for the locations.** -/
theorem readAll (h : Echoes o c d) (hb : d.Bounded) (draft : Draft) :
    (c.readAll (draft.relocate o.location.beyond)).1 =
      (d.readAll draft).1.relocate o.location.beyond := by
  fun_induction Cursor.readAll d draft generalizing c with
  | case1 d draft hd =>
    rw [readAll_of_after_nil (h.after.trans (advance?_eq_none.mp hd))]
  | case2 d draft d' hd hp =>
    rw [readAll_of_after_nil (h.after.trans (List.head?_eq_none_iff.mp hp))]
  | case3 d draft d' hd hp ih =>
    obtain ⟨c', hc, h'⟩ := h.advance? hd
    rw [readAll_of_peek? (h.peek?.trans hp) hc, if_pos rfl, h.location_of_peek? hb hp,
      ← Draft.relocate_openLoop]
    exact ih h' (hb.advance? hd).1
  | case4 d draft d' hd hp hopen ih =>
    obtain ⟨c', hc, h'⟩ := h.advance? hd
    rw [readAll_of_peek? (h.peek?.trans hp) hc, if_neg hopen, if_pos rfl, h.location_of_peek? hb hp,
      ← Draft.relocate_closeLoop]
    exact ih h' (hb.advance? hd).1
  | case5 d draft d' hd b hp hopen hclose hk ih =>
    obtain ⟨c', hc, h'⟩ := h.advance? hd
    rw [readAll_of_peek? (h.peek?.trans hp) hc, if_neg hopen, if_neg hclose, hk]
    exact ih h' (hb.advance? hd).1
  | case6 d draft d' hd b hp hopen hclose kind hk hco run =>
    rename_i ih
    obtain ⟨c', hc, h'⟩ := h.advance? hd
    obtain ⟨hcount, hrun⟩ := h'.passRun (b := b) (n := 1)
    have hnode := Draft.relocate_add o.location.beyond draft
      { kind, count := Int64.ofNat (d'.passRun b 1).1, loc := d.location }
    rw [readAll_of_peek? (h.peek?.trans hp) hc, if_neg hopen, if_neg hclose, hk,
      h.location_of_peek? hb hp]
    simp only [hco, if_true, hcount]
    exact hnode ▸ ih hrun ((hb.advance? hd).1.passRun 1).1
  | case7 d draft d' hd b hp hopen hclose kind hk hco ih =>
    obtain ⟨c', hc, h'⟩ := h.advance? hd
    have hnode := Draft.relocate_add o.location.beyond draft { kind, loc := d.location }
    rw [readAll_of_peek? (h.peek?.trans hp) hc, if_neg hopen, if_neg hclose, hk,
      h.location_of_peek? hb hp]
    simp only [hco]
    exact hnode ▸ ih h' (hb.advance? hd).1

end Echoes

/-- **Parsing from any cursor** is parsing what lies ahead, with the locations moved. -/
theorem parse_eq_relocateResult (c : Cursor) (short : c.after.length < 2 ^ 63) :
    c.parse.1 = relocateResult c.location.beyond (TapeLang.parse c.file c.after) := by
  have h := echoes_start c
  have hstart : c.location = c.location.beyond (start c.file c.after).location :=
    h.location (by simp [start])
  have hdraft := h.readAll (bounded_start c.file short)
    (Draft.start (start c.file c.after).location)
  rw [Draft.relocate_start, ← hstart] at hdraft
  change (c.readAll (Draft.start c.location)).1.result = relocateResult c.location.beyond
    ((start c.file c.after).readAll (Draft.start (start c.file c.after).location)).1.result
  rw [hdraft, Draft.result_relocate]

/-- **What a parser makes of the rest of a source**, after any history of the cursor, is what it
makes of the rest alone, with the locations moved. -/
theorem parse_from_within (file source : Bytes) (short : source.length < 2 ^ 63)
    (moves : List Move) :
    let c := (start file source).travel moves
    c.parse.1 = relocateResult c.location.beyond
        (TapeLang.parse file (source.drop c.offset)) ∧
      c.parse.2.atEnd ∧ c.parse.2.location = locationAt file source source.length := by
  intro c
  have h : c.Settled file source := settled_travel file source moves
  have hlength := h.offset_add_length
  obtain ⟨hend, hoffset⟩ := h.parse
  refine ⟨?_, ?_, ?_⟩
  · rw [← h.after_eq, ← h.named]
    exact parse_eq_relocateResult c (by omega)
  · exact List.isEmpty_iff.mpr (after_readAll _ _)
  · rw [hend.location, hoffset]

/-- A parser that starts in the middle of the second of three lines, where a cursor has come to
after going too far. -/
theorem parse_from_within_line :
    let c := (start "middle" (utf8 "+\n[[>]]]\n[")).travel
      [.advance, .advance, .advance, .advance, .retreat]
    c.parse.1 = .error
      [{ defect := .unmatchedTerminator, loc := ⟨"middle", 2, 5⟩ },
        { defect := .unmatchedTerminator, loc := ⟨"middle", 2, 6⟩ },
        { defect := .unterminatedLoop, loc := ⟨"middle", 3, 1⟩ }] ∧
      c.parse.2.location = ⟨"middle", 3, 2⟩ := by
  intro c
  obtain ⟨hparse, -, hend⟩ := parse_from_within "middle" (utf8 "+\n[[>]]]\n[") (by decide)
    [.advance, .advance, .advance, .advance, .retreat]
  constructor
  · rw [hparse, parse_of_bracketErrors (by decide +kernel)]
    exact congrArg Except.error (by decide +kernel)
  · rw [hend]
    decide +kernel

end Cursor

end TapeLang
