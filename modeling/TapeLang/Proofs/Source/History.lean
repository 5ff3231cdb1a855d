import TapeLang.Proofs.Source.Lines

/-!
# Cursors after any history

A cursor may be moved forward and back, and parsers may run on it, in any order. Where it stands
then is all that its state tells: the line, and the column counters of the lines entered so far,
are those of the bytes behind it. So a step back undoes a step forward, and the other way round.

* `Cursor.Move`, `Cursor.travel`: what can be asked of a cursor, and where a history leads.
* `Cursor.Settled`: a cursor whose whole state is what the bytes behind it say.
* `Cursor.Settled.unique`: there is one such cursor at each offset.
* **`Cursor.settled_travel`**: cursors stay settled.
* **`Cursor.travel_determined`**: the state of a cursor after any history.
-/

namespace TapeLang

namespace Stack

variable {α : Type} {s t : Stack α} {a : α} {below : List α}

/-- The elements, the bottom first. -/
def fromBottom (s : Stack α) : List α := s.root :: s.above.reverse

theorem fromBottom_inj : s.fromBottom = t.fromBottom ↔ s = t := by
  rcases s with ⟨root, above⟩
  rcases t with ⟨root', above'⟩
  simp [fromBottom]

theorem fromBottom_push (s : Stack α) (a : α) : (s.push a).fromBottom = s.fromBottom ++ [a] := by
  simp [fromBottom, push]

theorem exists_below (s : Stack α) : ∃ below, s.fromBottom = below ++ [s.top] ∧
    ∀ f : α → α, (s.modifyTop f).fromBottom = below ++ [f s.top] := by
  rcases s with ⟨root, _ | ⟨a, above⟩⟩
  · exact ⟨[], rfl, fun f => rfl⟩
  · exact ⟨root :: above.reverse, by simp [fromBottom, top], fun f => by
      simp [fromBottom, top, modifyTop]⟩

theorem top_of_fromBottom (h : s.fromBottom = below ++ [a]) : s.top = a := by
  obtain ⟨below', hbelow, -⟩ := s.exists_below
  rw [h] at hbelow
  exact (List.singleton_inj.mp (List.append_inj' hbelow rfl).2).symm

theorem fromBottom_modifyTop (h : s.fromBottom = below ++ [a]) (f : α → α) :
    (s.modifyTop f).fromBottom = below ++ [f a] := by
  obtain ⟨below', hbelow, hmodify⟩ := s.exists_below
  rw [hmodify, top_of_fromBottom h]
  rw [h] at hbelow
  rw [(List.append_inj' hbelow rfl).1]

theorem modifyTop_modifyTop (s : Stack α) {f g : α → α} (h : ∀ a, g (f a) = a) :
    (s.modifyTop f).modifyTop g = s := by
  rcases s with ⟨root, _ | ⟨b, above⟩⟩ <;> simp [modifyTop, h]

end Stack

namespace Cursor

variable {c d : Cursor} {file source : Bytes}

/-- The number of bytes already passed. -/
def offset (c : Cursor) : Nat := c.before.length

/-- What can be asked of a cursor. -/
inductive Move where
  | advance
  | retreat
  /-- Parsing from where the cursor stands. -/
  | parse
  deriving DecidableEq, Repr

/-- The cursor after a move. A step that is refused leaves it as it was. -/
def make (c : Cursor) : Move → Cursor
  | .advance => c.advance?.getD c
  | .retreat => c.retreat?.getD c
  | .parse => c.parse.2

/-- The cursor after a history of moves. -/
def travel (c : Cursor) (moves : List Move) : Cursor := moves.foldl make c

/-! ## Settled cursors -/

/-- A cursor whose whole state is what the bytes behind it say. Each line entered has a counter,
and that of a line that is finished is one more than its length. -/
structure Settled (c : Cursor) (file source : Bytes) : Prop where
  named : c.file = file
  placed : c.Placed source
  counters : c.columns.fromBottom = (linesOf c.before.reverse).map (·.length + 1)

theorem settled_start (file source : Bytes) : (start file source).Settled file source :=
  ⟨rfl, placed_start file source, rfl⟩

/-- **There is one settled cursor at each offset.** -/
theorem Settled.unique (hc : c.Settled file source) (hd : d.Settled file source)
    (h : c.offset = d.offset) : c = d := by
  have hbefore : c.before = d.before := by
    rw [← List.reverse_inj, ← hc.placed.take, ← hd.placed.take]
    exact congrArg source.take h
  have hafter : c.after = d.after := by
    have hsource := hc.placed.source.trans hd.placed.source.symm
    rw [hbefore] at hsource
    exact List.append_cancel_left hsource
  have hline : c.line = d.line := by rw [hc.placed.line, hd.placed.line, hbefore]
  have hcolumns : c.columns = d.columns := by
    rw [← Stack.fromBottom_inj, hc.counters, hd.counters, hbefore]
  rcases c with ⟨file, before, after, line, columns⟩
  rcases d with ⟨file', before', after', line', columns'⟩
  cases hc.named
  cases hd.named
  cases hbefore
  cases hafter
  cases hline
  cases hcolumns
  rfl

/-! ## One step -/

theorem advance?_eq_none : c.advance? = none ↔ c.after = [] := by
  refine ⟨after_eq_nil_of_advance?, fun h => ?_⟩
  rw [advance?, h]

theorem retreat?_eq_none : c.retreat? = none ↔ c.offset = 0 := by
  rw [offset, List.length_eq_zero_iff]
  unfold retreat?
  split
  next h => simp [h]
  next h => split <;> simp [h]

/-- **A step back undoes a step forward.** -/
theorem retreat?_of_advance? (ha : c.advance? = some d) : d.retreat? = some c := by
  obtain ⟨b, hafter, ⟨hb, hd⟩ | ⟨hb, hd⟩⟩ := advance?_inv ha
  · subst hb
    rw [hd, retreat?]
    simp only [if_true, Stack.pop?_push, Nat.add_sub_cancel]
    rw [← hafter]
  · have hcolumns : (c.columns.modifyTop (· + 1)).modifyTop (· - 1) = c.columns :=
      Stack.modifyTop_modifyTop _ fun n => Nat.add_sub_cancel n 1
    rw [hd, retreat?]
    simp only [if_neg hb, hcolumns]
    rw [← hafter]

theorem Settled.after_eq (h : c.Settled file source) : c.after = source.drop c.offset := by
  rw [← h.placed.source, offset, ← List.length_reverse, List.drop_left]

theorem Settled.offset_add_length (h : c.Settled file source) :
    c.offset + c.after.length = source.length := by
  rw [← h.placed.source, List.length_append, List.length_reverse, offset]

theorem Settled.advance? (h : c.Settled file source) (ha : c.advance? = some d) :
    d.Settled file source ∧ d.offset = c.offset + 1 := by
  obtain ⟨b, hp⟩ := exists_peek?_of_advance? ha
  have hplaced := h.placed.advance? hp ha
  have hcounters := h.counters
  obtain ⟨-, ⟨hb, hd⟩ | ⟨hb, hd⟩⟩ := advance?_inv_of_peek? hp ha
  · refine ⟨⟨by rw [hd, h.named], hplaced, ?_⟩, by rw [hd]; rfl⟩
    rw [hd, Stack.fromBottom_push, hcounters, hb, List.reverse_cons, linesOf_append_newline,
      List.map_append]
    rfl
  · refine ⟨⟨by rw [hd, h.named], hplaced, ?_⟩, by rw [hd]; rfl⟩
    have hlast : linesOf [b] = [[b]] := linesOf_of_notMem (by simpa using Ne.symm hb)
    rw [linesOf_eq_concat, List.map_append] at hcounters
    rw [hd, Stack.fromBottom_modifyTop hcounters, List.reverse_cons, linesOf_append, hlast]
    simp

theorem exists_settled (file source : Bytes) {k : Nat} (hk : k ≤ source.length) :
    ∃ c : Cursor, c.Settled file source ∧ c.offset = k := by
  induction k with
  | zero => exact ⟨_, settled_start file source, rfl⟩
  | succ k ih =>
    obtain ⟨c, hc, hoffset⟩ := ih (by omega)
    have hlength := hc.offset_add_length
    rcases ha : c.advance? with _ | d
    · rw [advance?_eq_none.mp ha, List.length_nil] at hlength
      omega
    · obtain ⟨hd, hnext⟩ := hc.advance? ha
      exact ⟨d, hd, by omega⟩

/-- **A step forward undoes a step back**, because only one settled cursor stands there. -/
theorem Settled.retreat? (h : c.Settled file source) (hr : c.retreat? = some d) :
    d.Settled file source ∧ d.advance? = some c := by
  have hlength := h.offset_add_length
  have hpos : c.offset ≠ 0 := fun hzero => by
    rw [retreat?_eq_none.mpr hzero] at hr
    cases hr
  obtain ⟨d', hd', hoffset⟩ := exists_settled file source (k := c.offset - 1) (by omega)
  have hlength' := hd'.offset_add_length
  rcases ha : d'.advance? with _ | c'
  · rw [advance?_eq_none.mp ha, List.length_nil] at hlength'
    omega
  · obtain ⟨hc', hnext⟩ := hd'.advance? ha
    obtain rfl := hc'.unique h (by omega)
    rw [retreat?_of_advance? ha] at hr
    cases hr
    exact ⟨hd', ha⟩

/-! ## A history of steps -/

/-- What every step forward keeps, the parser keeps. -/
theorem readAll_induction {P : Cursor → Prop} (hP : ∀ {c d}, P c → c.advance? = some d → P d)
    (h : P c) (draft : Draft) : P (c.readAll draft).2 := by
  have hrun : ∀ (b : UInt8) (c : Cursor) (n : Nat), P c → P (c.passRun b n).2 := by
    intro b c n h
    fun_induction passRun b c n with
    | case1 => exact h
    | case2 c n d ha _ ih => exact ih (hP h ha)
    | case3 => exact h
  fun_induction readAll c draft with
  | case1 | case2 => exact h
  | case3 c draft d ha _ ih => exact ih (hP h ha)
  | case4 c draft d ha _ _ ih => exact ih (hP h ha)
  | case5 c draft d ha b _ _ _ _ ih => exact ih (hP h ha)
  | case6 c draft d ha b _ _ _ kind _ _ run ih => exact ih (hrun b d 1 (hP h ha))
  | case7 c draft d ha b _ _ _ kind _ _ ih => exact ih (hP h ha)

/-- **The parser ends at the end of the source**, and keeps the cursor settled. -/
theorem Settled.parse (h : c.Settled file source) :
    c.parse.2.Settled file source ∧ c.parse.2.offset = source.length := by
  have hsettled : c.parse.2.Settled file source :=
    readAll_induction (P := (Settled · file source)) (fun h ha => (h.advance? ha).1) h _
  have hlength := hsettled.offset_add_length
  have hafter : c.parse.2.after = [] := after_readAll _ _
  rw [hafter] at hlength
  exact ⟨hsettled, hlength⟩

theorem Settled.location (h : c.Settled file source) :
    c.location = locationAt file source c.offset :=
  h.named ▸ h.placed.location

theorem Settled.make (h : c.Settled file source) (m : Move) : (c.make m).Settled file source := by
  cases m with
  | advance =>
    rcases ha : c.advance? with _ | d
    · simpa [Cursor.make, ha] using h
    · simpa [Cursor.make, ha] using (h.advance? ha).1
  | retreat =>
    rcases hr : c.retreat? with _ | d
    · simpa [Cursor.make, hr] using h
    · simpa [Cursor.make, hr] using (h.retreat? hr).1
  | parse => exact h.parse.1

/-- **Cursors stay settled**, whatever is asked of them. -/
theorem settled_travel (file source : Bytes) (moves : List Move) :
    ((start file source).travel moves).Settled file source := by
  have h : ∀ c : Cursor, c.Settled file source → (c.travel moves).Settled file source := by
    induction moves with
    | nil => exact fun c h => h
    | cons m moves ih => exact fun c h => ih _ (h.make m)
  exact h _ (settled_start file source)

/-- Steps from a cursor can be taken back, a step that is refused changes nothing, and a step back
over a newline finds a counter to go back to. -/
structure Reversible (c : Cursor) (source : Bytes) : Prop where
  back : ∀ d, c.advance? = some d → d.retreat? = some c
  forth : ∀ d, c.retreat? = some d → d.advance? = some c
  refused_ahead : c.advance? = none ↔ c.offset = source.length
  refused_behind : c.retreat? = none ↔ c.offset = 0
  kept_ahead : c.advance? = none ↔ c.make .advance = c
  kept_behind : c.retreat? = none ↔ c.make .retreat = c
  pop : ∀ d, c.retreat? = some d → d.peek? = some newline →
    c.columns.pop? = some (1, d.columns)

theorem Settled.reversible (h : c.Settled file source) : c.Reversible source := by
  have hlength := h.offset_add_length
  refine ⟨fun d => retreat?_of_advance?, fun d hr => (h.retreat? hr).2, ?_, retreat?_eq_none,
    ?_, ?_, ?_⟩
  · rw [advance?_eq_none, ← List.length_eq_zero_iff]
    omega
  · rcases ha : c.advance? with _ | d
    · simp [Cursor.make, ha]
    · have hnext := (h.advance? ha).2
      have hne : d ≠ c := by
        rintro rfl
        omega
      simp [Cursor.make, ha, hne]
  · rcases hr : c.retreat? with _ | d
    · simp [Cursor.make, hr]
    · obtain ⟨hd, ha⟩ := h.retreat? hr
      have hnext := (hd.advance? ha).2
      have hne : d ≠ c := by
        rintro rfl
        omega
      simp [Cursor.make, hr, hne]
  · intro d hr hp
    obtain ⟨-, ⟨-, hc⟩ | ⟨hb, -⟩⟩ := advance?_inv_of_peek? hp (h.retreat? hr).2
    · rw [hc]
      rfl
    · exact absurd rfl hb

/-- **The state of a cursor after any history** is told by its offset, and every step from there can
be taken back. -/
theorem travel_determined (file source : Bytes) (moves : List Move) :
    let c := (start file source).travel moves
    let passed := source.take c.offset
    (c.before = passed.reverse ∧ c.after = source.drop c.offset) ∧
    c.line = 1 + passed.count newline ∧
    c.columns.top = 1 + (lastLine passed).length ∧
    c.columns.fromBottom = (passed.splitOn newline).map (·.length + 1) ∧
    c.location = locationAt file source c.offset ∧
    (∀ moves', ((start file source).travel moves').offset = c.offset →
      (start file source).travel moves' = c) ∧
    c.Reversible source := by
  have h := settled_travel file source moves
  intro c passed
  have hpassed : passed = c.before.reverse := h.placed.take
  refine ⟨⟨by rw [hpassed, List.reverse_reverse], h.after_eq⟩, ?_, ?_, ?_, ?_, ?_, h.reversible⟩
  · rw [hpassed, List.count_reverse]
    exact h.placed.line
  · rw [hpassed, lastLine, List.reverse_reverse, List.length_reverse]
    exact h.placed.column
  · rw [hpassed]
    exact h.counters
  · exact h.location
  · exact fun moves' hoffset => (settled_travel file source moves').unique h hoffset

/-- Forward and back over line ends, on to the end by parsing, and back again. -/
theorem travel_determined_zigzag :
    let moves : List Move := [.advance, .advance, .advance, .retreat, .parse, .retreat, .retreat]
    let c := (start "zigzag" (utf8 "+\n\n[\n")).travel moves
    c.columns.fromBottom = [2, 1, 1] ∧
      (start "zigzag" (utf8 "+\n\n[\n")).travel [.advance, .advance, .advance] = c := by
  intro moves c
  obtain ⟨-, -, -, hcounters, -, hunique, -⟩ :=
    travel_determined "zigzag" (utf8 "+\n\n[\n") moves
  refine ⟨?_, hunique [.advance, .advance, .advance] (by decide +kernel)⟩
  rw [hcounters]
  decide +kernel

end Cursor

end TapeLang
