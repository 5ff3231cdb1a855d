import TapeLang.Proofs.Source.Position

/-!
# Offsets and locations

A cursor counts lines and columns as it goes. What it has counted is what the bytes behind it say:
the line ends among them, and the bytes after the last line end.

* `locationAt`: the location of a byte by its offset.
* `Cursor.Placed`: a cursor that has counted right.
* **`Cursor.Placed.location`**: the location of such a cursor is that of its offset.
* **`locationAt_inj`**: different bytes have different locations.
-/

namespace TapeLang

/-- The location of the byte at an offset: lines and columns are counted from one. -/
def locationAt (file source : Bytes) (i : Nat) : Location where
  file := file
  line := Int64.ofNat (1 + (source.take i).count Cursor.newline)
  column := Int64.ofNat (1 + ((source.take i).reverse.takeWhile (· ≠ Cursor.newline)).length)

theorem length_takeWhile_lt {source : Bytes} {i j : Nat} (hij : i < j) (hj : j ≤ source.length)
    (h : (source.take i).count Cursor.newline = (source.take j).count Cursor.newline) :
    ((source.take i).reverse.takeWhile (· ≠ Cursor.newline)).length <
      ((source.take j).reverse.takeWhile (· ≠ Cursor.newline)).length := by
  have hsplit : source.take j = source.take i ++ (source.take j).drop i := by
    conv_lhs => rw [← List.take_append_drop i (source.take j), List.take_take,
      Nat.min_eq_left hij.le]
  have hnone : Cursor.newline ∉ (source.take j).drop i := by
    rw [hsplit, List.count_append] at h
    exact List.count_eq_zero.mp (by omega)
  have hlength : ((source.take j).drop i).length = j - i := by
    rw [List.length_drop, List.length_take, Nat.min_eq_left hj]
  rw [hsplit, List.reverse_append, List.takeWhile_append_of_pos, List.length_append,
    List.length_reverse, hlength]
  · omega
  · intro b hb
    refine decide_eq_true fun he => hnone ?_
    rw [← he]
    exact List.mem_reverse.mp hb

theorem count_take_lt {source : Bytes} {k : Nat} (hk : k < source.length) :
    (source.take k).count Cursor.newline < source.length := by
  have hcount := (source.take k).count_le_length (a := Cursor.newline)
  rw [List.length_take_of_le hk.le] at hcount
  exact hcount.trans_lt hk

theorem length_takeWhile_take_lt {source : Bytes} {k : Nat} (hk : k < source.length) :
    ((source.take k).reverse.takeWhile (· ≠ Cursor.newline)).length < source.length := by
  have hline := (List.takeWhile_sublist (p := fun b => decide (b ≠ Cursor.newline))
    (l := (source.take k).reverse)).length_le
  rw [List.length_reverse, List.length_take_of_le hk.le] at hline
  exact hline.trans_lt hk

/-- Small numbers are told apart by 64 bits. -/
theorem eq_of_ofNat_eq {n a b : Nat} (short : n < 2 ^ 63) (ha : a < n) (hb : b < n)
    (h : Int64.ofNat (1 + a) = Int64.ofNat (1 + b)) : a = b := by
  have hint := congrArg Int64.toInt h
  rw [Int64.toInt_ofNat_of_lt (by omega), Int64.toInt_ofNat_of_lt (by omega)] at hint
  omega

/-- **Different bytes have different locations**, if they can be counted with 64 bits. -/
theorem locationAt_inj {file source : Bytes} {i j : Nat}
    (short : source.length < 2 ^ 63) (hi : i < source.length) (hj : j < source.length)
    (h : locationAt file source i = locationAt file source j) : i = j := by
  wlog hij : i ≤ j generalizing i j
  · exact (this hj hi h.symm (Nat.le_of_not_le hij)).symm
  by_contra hne
  have hline := eq_of_ofNat_eq short (count_take_lt hi) (count_take_lt hj)
    (congrArg Location.line h)
  have hcolumn := eq_of_ofNat_eq short (length_takeWhile_take_lt hi)
    (length_takeWhile_take_lt hj) (congrArg Location.column h)
  have := length_takeWhile_lt (by omega) hj.le hline
  omega

namespace Cursor

variable {c d : Cursor} {source : Bytes}

/-- A cursor in a source that has counted its lines and columns right. -/
structure Placed (c : Cursor) (source : Bytes) : Prop where
  source : c.before.reverse ++ c.after = source
  line : c.line = 1 + c.before.count newline
  column : c.columns.top = 1 + (c.before.takeWhile (· ≠ newline)).length

theorem placed_start (file source : Bytes) : (start file source).Placed source :=
  ⟨rfl, rfl, rfl⟩

theorem Placed.take (h : c.Placed source) : source.take c.before.length = c.before.reverse := by
  rw [← h.source, ← List.length_reverse, List.take_left]

/-- **The location of a cursor is that of its offset.** -/
theorem Placed.location (h : c.Placed source) :
    c.location = locationAt c.file source c.before.length := by
  rw [locationAt, h.take, List.reverse_reverse, List.count_reverse, ← h.line, ← h.column]
  rfl

theorem Placed.getElem? (h : c.Placed source) : source[c.before.length]? = c.peek? := by
  rw [← h.source, List.getElem?_append_right (by simp), List.length_reverse, Nat.sub_self, peek?,
    List.head?_eq_getElem?]

theorem advance?_behind {b : UInt8} (hp : c.peek? = some b) (h : c.advance? = some d) :
    d.before = b :: c.before ∧ d.file = c.file := by
  obtain ⟨-, ⟨-, hd⟩ | ⟨-, hd⟩⟩ := advance?_inv_of_peek? hp h
  · rw [hd]
    exact ⟨rfl, rfl⟩
  · rw [hd]
    exact ⟨rfl, rfl⟩

theorem Placed.advance? (h : c.Placed source) {b : UInt8} (hp : c.peek? = some b)
    (ha : c.advance? = some d) : d.Placed source := by
  obtain ⟨hafter, hcount⟩ := advance?_cases hp ha
  obtain ⟨hbefore, -⟩ := advance?_behind hp ha
  refine ⟨?_, ?_, ?_⟩
  · rw [← h.source, hbefore, hafter]
    simp
  · rw [hbefore, List.count_cons]
    rcases hcount with ⟨hb, hline, -⟩ | ⟨hb, hline, -⟩
    · simp [hline, h.line, hb, Nat.add_assoc]
    · simp [hline, h.line, hb]
  · rw [hbefore, List.takeWhile_cons]
    rcases hcount with ⟨hb, -, htop⟩ | ⟨hb, -, htop⟩
    · simp [htop, hb]
    · simp [htop, h.column, hb, Nat.add_assoc]

end Cursor

end TapeLang
