import TapeLang.Line
import TapeLang.Proofs.Source.Offset
import TapeLang.Proofs.Text.Word

/-!
# The lines of a source

A source is cut into lines at its newlines, so it has one line more than newlines. What a cursor
counts and what a diagnostic shows are both told by these lines.

* `linesOf`, `lastLine`: the lines of a source, and the last of them.
* **`linesOf_append`**: a text behind another one goes on with its last line.
* `Shows`: what is shown of a line.
* **`lineAfter?_eq`**, **`lineText_splits`**: the line that a diagnostic shows.
* **`exists_lineText?`**: a byte stands in the line that is shown for its location, at its column.
-/

namespace TapeLang

open Cursor (newline)

/-- The lines of a source, without the newlines between them. -/
def linesOf (source : Bytes) : List Bytes := source.splitOn newline

/-- The bytes after the last newline. -/
def lastLine (source : Bytes) : Bytes := (source.reverse.takeWhile (· ≠ newline)).reverse

variable {source text rest : Bytes} {b : UInt8}

/-! ## Cutting at newlines -/

@[simp] theorem linesOf_nil : linesOf [] = [[]] := List.splitOn_nil _

theorem linesOf_ne_nil (text : Bytes) : linesOf text ≠ [] := List.splitOn_ne_nil _ _

theorem linesOf_of_notMem (h : newline ∉ text) : linesOf text = [text] :=
  List.splitOn_eq_singleton h

theorem linesOf_append_newline (text rest : Bytes) :
    linesOf (text ++ newline :: rest) = linesOf text ++ linesOf rest :=
  List.splitOn_append_cons_self text rest

theorem linesOf_newline_cons (text : Bytes) : linesOf (newline :: text) = [] :: linesOf text :=
  linesOf_append_newline [] text

theorem linesOf_cons_of_ne (hb : b ≠ newline) (text : Bytes) :
    linesOf (b :: text) = (linesOf text).modifyHead (b :: ·) := by
  rw [linesOf, List.splitOn_cons_eq_if_modifyHead, if_neg (by simpa using hb), linesOf]

/-- A source has one line more than newlines. -/
theorem length_linesOf (text : Bytes) : (linesOf text).length = 1 + text.count newline := by
  induction text with
  | nil => rfl
  | cons b text ih =>
    by_cases hb : b = newline
    · rw [hb, linesOf_newline_cons, List.length_cons, ih, List.count_cons_self]
      omega
    · rw [linesOf_cons_of_ne hb, List.length_modifyHead, ih, List.count_cons_of_ne hb]

theorem linesOf_append_of_notMem (h : newline ∉ text) (rest : Bytes) :
    linesOf (text ++ rest) = (linesOf rest).modifyHead (text ++ ·) := by
  induction text with
  | nil => exact (congrFun List.modifyHead_id (linesOf rest)).symm
  | cons b text ih =>
    rw [List.mem_cons, not_or] at h
    rw [List.cons_append, linesOf_cons_of_ne (Ne.symm h.1), ih h.2, List.modifyHead_modifyHead]
    rfl

theorem newline_notMem_takeWhile (text : Bytes) : newline ∉ text.takeWhile (· ≠ newline) := by
  intro h
  simpa using List.mem_takeWhile_imp h

theorem eq_newline_of_dropWhile (h : text.dropWhile (· ≠ newline) = b :: rest) : b = newline := by
  have := List.head?_dropWhile_not (· ≠ newline) text
  rw [h] at this
  simpa using this

theorem newline_notMem_lastLine (text : Bytes) : newline ∉ lastLine text := fun h =>
  newline_notMem_takeWhile text.reverse (List.mem_reverse.mp h)

/-- A text is its last line, or a newline comes before its last line. -/
theorem lastLine_cases (text : Bytes) :
    lastLine text = text ∨ ∃ init, text = init ++ newline :: lastLine text := by
  have hsplit : text = (text.reverse.dropWhile (· ≠ newline)).reverse ++ lastLine text := by
    rw [lastLine, ← List.reverse_append, List.takeWhile_append_dropWhile, List.reverse_reverse]
  rcases hdrop : text.reverse.dropWhile (· ≠ newline) with _ | ⟨b, init⟩
  · rw [hdrop] at hsplit
    exact .inl hsplit.symm
  · rw [hdrop, eq_newline_of_dropWhile hdrop, List.reverse_cons, List.append_assoc,
      List.singleton_append] at hsplit
    exact .inr ⟨_, hsplit⟩

/-- **A text behind another one** goes on with its last line. -/
theorem linesOf_append (text rest : Bytes) :
    linesOf (text ++ rest) =
      (linesOf text).dropLast ++ (linesOf rest).modifyHead (lastLine text ++ ·) := by
  have hlast := newline_notMem_lastLine text
  rcases lastLine_cases text with htext | ⟨init, htext⟩
  · rw [htext] at hlast ⊢
    rw [linesOf_append_of_notMem hlast, linesOf_of_notMem hlast]
    rfl
  · have hinit : linesOf text = linesOf init ++ [lastLine text] := by
      conv_lhs => rw [htext]
      rw [linesOf_append_newline, linesOf_of_notMem hlast]
    conv_lhs => rw [htext]
    rw [List.append_assoc, List.cons_append, linesOf_append_newline,
      linesOf_append_of_notMem hlast, hinit, List.dropLast_concat]

theorem linesOf_eq_concat (text : Bytes) :
    linesOf text = (linesOf text).dropLast ++ [lastLine text] := by
  have h := linesOf_append text []
  rwa [List.append_nil, linesOf_nil, List.modifyHead_cons, List.append_nil] at h

theorem length_dropLast_linesOf (text : Bytes) :
    (linesOf text).dropLast.length = text.count newline := by
  rw [List.length_dropLast, length_linesOf, Nat.add_sub_cancel_left]

theorem linesOf_of_dropWhile_nil (h : text.dropWhile (· ≠ newline) = []) :
    linesOf text = [text.takeWhile (· ≠ newline)] := by
  have hsplit := List.takeWhile_append_dropWhile (p := (· ≠ newline)) (l := text)
  rw [h, List.append_nil] at hsplit
  conv_lhs => rw [← hsplit]
  exact linesOf_of_notMem (newline_notMem_takeWhile text)

theorem linesOf_of_dropWhile_cons (h : text.dropWhile (· ≠ newline) = b :: rest) :
    linesOf text = text.takeWhile (· ≠ newline) :: linesOf rest := by
  have hsplit := List.takeWhile_append_dropWhile (p := (· ≠ newline)) (l := text)
  rw [h, eq_newline_of_dropWhile h] at hsplit
  conv_lhs => rw [← hsplit]
  rw [linesOf_append_newline, linesOf_of_notMem (newline_notMem_takeWhile text)]
  rfl

/-! ## The line that is shown -/

/-- What is shown of a line: all of it but one carriage return at its end. -/
def Shows (piece text : Bytes) : Prop :=
  piece = text ++ [Text.ascii '\r'] ∨ piece = text ∧ text.getLast? ≠ some (Text.ascii '\r')

theorem shows_iff {piece : Bytes} : Shows piece text ↔ dropCarriageReturn piece = text := by
  unfold Shows dropCarriageReturn
  constructor
  · rintro (rfl | ⟨rfl, hlast⟩)
    · rw [List.getLast?_concat, if_pos rfl, List.dropLast_concat]
    · rw [if_neg hlast]
  · intro h
    split_ifs at h with hlast
    · obtain ⟨init, rfl⟩ := List.getLast?_eq_some_iff.mp hlast
      rw [List.dropLast_concat] at h
      exact .inl (h ▸ rfl)
    · exact .inr ⟨h, h ▸ hlast⟩

theorem Shows.getElem? {piece : Bytes} (h : Shows piece text) (hb : b ≠ Text.ascii '\r') {i : Nat}
    (hi : piece[i]? = some b) : text[i]? = some b := by
  rcases h with rfl | ⟨rfl, -⟩
  · rw [List.getElem?_append] at hi
    split_ifs at hi with hlt
    · exact hi
    · have hmem := List.mem_of_getElem? hi
      exact absurd (List.mem_singleton.mp hmem) hb
  · exact hi

/-- **A line is found** by the newlines that come before it. -/
theorem lineAfter?_eq (n : Nat) (text : Bytes) :
    lineAfter? n text = (linesOf text)[n]?.map dropCarriageReturn := by
  fun_induction lineAfter? n text with
  | case1 text =>
    rcases h : text.dropWhile (· ≠ newline) with _ | ⟨b, rest⟩
    · rw [linesOf_of_dropWhile_nil h]
      rfl
    · rw [linesOf_of_dropWhile_cons h]
      rfl
  | case2 n text h =>
    rw [linesOf_of_dropWhile_nil h]
    rfl
  | case3 n text b rest h ih =>
    rw [linesOf_of_dropWhile_cons h, List.getElem?_cons_succ]
    exact ih

theorem lineText?_of_one_le {line : Int64} (h : 1 ≤ line) (source : Bytes) :
    lineText? source line =
      (linesOf source)[line.toInt.toNat - 1]?.map dropCarriageReturn := by
  rw [lineText?, if_neg (by simpa using h), lineAfter?_eq]

/-- **The line that a diagnostic shows** is one of those that newlines cut the source into, without
a carriage return at its end. -/
theorem lineText_splits (source : Bytes) (line : Int64) :
    (lineText? source line = none ↔
      line < 1 ∨ 1 + (source.count newline : ℤ) < line.toInt) ∧
    ∀ text, lineText? source line = some text ↔ 1 ≤ line ∧
      ∃ piece, (source.splitOn newline)[line.toInt.toNat - 1]? = some piece ∧ Shows piece text := by
  by_cases h : 1 ≤ line
  · have hlt : ¬ line < 1 := by simpa using h
    have hone : 1 ≤ line.toInt := Int64.le_iff_toInt_le.mp h
    rw [lineText?_of_one_le h]
    refine ⟨?_, fun text => ?_⟩
    · rw [Option.map_eq_none_iff, List.getElem?_eq_none_iff, length_linesOf]
      simp only [hlt, false_or]
      omega
    · simp only [Option.map_eq_some_iff, shows_iff, h, true_and]
      rfl
  · have hlt : line < 1 := by simpa using h
    rw [lineText?, if_pos hlt]
    exact ⟨by simp [hlt], fun text => by simp [h]⟩

/-- A newline at the end of a source begins one more line. -/
example : lineText? (utf8 "a\r\n\n") 1 = some (utf8 "a") ∧
    lineText? (utf8 "a\r\n\n") 3 = some [] ∧ lineText? (utf8 "a\r\n\n") 4 = none := by decide

/-! ## The line of a location -/

theorem counter_spec {n : Nat} (h : 1 + n < 2 ^ 63) :
    1 ≤ Int64.ofNat (1 + n) ∧ (Int64.ofNat (1 + n)).toInt.toNat - 1 = n := by
  have hone : (1 : Int64).toInt = 1 := rfl
  rw [Int64.le_iff_toInt_le, Int64.toInt_ofNat_of_lt h]
  omega

/-- The line of a byte that does not end it: as many lines come before it as there are newlines
before the byte, and it goes on from the last of the bytes before. -/
theorem getElem?_linesOf {k : Nat} (hk : source[k]? = some b) (hb : b ≠ newline) :
    ∃ rest, (linesOf source)[(source.take k).count newline]? =
      some (lastLine (source.take k) ++ b :: rest) := by
  obtain ⟨hlt, hget⟩ := List.getElem?_eq_some_iff.mp hk
  obtain ⟨first, others, hrest⟩ := List.exists_cons_of_ne_nil (linesOf_ne_nil (source.drop (k + 1)))
  have hlines : linesOf source = (linesOf (source.take k)).dropLast ++
      (lastLine (source.take k) ++ b :: first) :: others := by
    conv_lhs => rw [← List.take_append_drop k source, List.drop_eq_getElem_cons hlt, hget]
    rw [linesOf_append, linesOf_cons_of_ne hb, hrest]
    rfl
  refine ⟨first, ?_⟩
  rw [hlines, ← length_dropLast_linesOf, List.getElem?_append_right le_rfl, Nat.sub_self]
  rfl

theorem column_locationAt (file source : Bytes) (k : Nat) :
    (locationAt file source k).column = Int64.ofNat (1 + (lastLine (source.take k)).length) := by
  rw [lastLine, List.length_reverse]
  rfl

/-- **A byte stands in the line that is shown for its location**, at its column, unless it is one
of those that end a line. -/
theorem exists_lineText? {k : Nat} (file : Bytes) (short : source.length < 2 ^ 63)
    (hk : source[k]? = some b) (hnewline : b ≠ newline) (hreturn : b ≠ Text.ascii '\r') :
    ∃ text, lineText? source (locationAt file source k).line = some text ∧
      1 ≤ (locationAt file source k).column ∧
      text[(locationAt file source k).column.toInt.toNat - 1]? = some b := by
  have hlt := (List.getElem?_eq_some_iff.mp hk).1
  have hcount := count_take_lt hlt
  have hlength : (lastLine (source.take k)).length < source.length := by
    rw [lastLine, List.length_reverse]
    exact length_takeWhile_take_lt hlt
  obtain ⟨hline, hnumber⟩ := counter_spec (n := (source.take k).count newline) (by omega)
  obtain ⟨hcolumn, hplace⟩ := counter_spec (n := (lastLine (source.take k)).length) (by omega)
  obtain ⟨rest, hget⟩ := getElem?_linesOf hk hnewline
  rw [column_locationAt, hplace]
  refine ⟨dropCarriageReturn (lastLine (source.take k) ++ b :: rest), ?_, hcolumn, ?_⟩
  · rw [locationAt, lineText?_of_one_le hline, hnumber, hget]
    rfl
  · refine (shows_iff.mpr rfl).getElem? hreturn ?_
    rw [List.getElem?_append_right le_rfl, Nat.sub_self]
    rfl

end TapeLang
