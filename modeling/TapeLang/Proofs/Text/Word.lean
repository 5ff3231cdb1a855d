import Mathlib.Data.List.Basic
import Mathlib.Data.List.TakeWhile
import TapeLang.Proofs.Text.Numeral
import TapeLang.Text.Blank

/-!
# Words

The texts of a listing are made of words: short runs of visible characters without the marks that
separate them. White space around a text that starts and ends with a visible character can be
trimmed without loss, and words with separators between them can be split again.

* `IsWord`: the words of a listing.
* `trim_of_framed`: a text with visible ends has no white space to trim.
* `splitAt_append`: splitting at a separator finds the part before it.
-/

namespace TapeLang.Text

/-! ## Trimming -/

/-- A visible ASCII character. -/
def isGraphic (b : UInt8) : Bool := 0x21 ≤ b && b ≤ 0x7e

/-- No code starts with a visible character. -/
def startBlank (codes : List Bytes) : Bool :=
  codes.all fun code => code.head?.any fun b => !isGraphic b

theorem codeWidth_of_graphic {codes : List Bytes} (h : startBlank codes) {b : UInt8}
    (hb : isGraphic b) (rest : Bytes) : codeWidth codes (b :: rest) = 0 := by
  have hf : codes.find? (fun code => code.isPrefixOf (b :: rest)) = none := by
    rw [List.find?_eq_none]
    intro code hcode hp
    have hc := List.all_eq_true.mp h code hcode
    rcases code with _ | ⟨c, code⟩
    · exact absurd hc (by simp)
    · rw [List.isPrefixOf_cons_cons, Bool.and_eq_true, beq_iff_eq] at hp
      rw [hp.1] at hc
      simp [hb] at hc
  rw [codeWidth, hf]

theorem dropCodes_of_graphic {codes : List Bytes} (h : startBlank codes) {text : Bytes}
    (ht : text.head?.any isGraphic) : dropCodes codes text = text := by
  rcases text with _ | ⟨b, rest⟩
  · exact absurd ht (by simp)
  · rw [dropCodes, codeWidth_of_graphic h ht]

theorem dropCodes_space (text : Bytes) :
    dropCodes blanks (0x20 :: text) = dropCodes blanks text := by
  have hw : codeWidth blanks (0x20 :: text) = 1 := rfl
  rw [dropCodes, hw]
  rfl

/-- A text that starts and ends with a visible character. -/
def Framed (text : Bytes) : Prop :=
  text.head?.any isGraphic ∧ text.getLast?.any isGraphic

theorem trim_of_framed {text : Bytes} (h : Framed text) : trim text = text := by
  unfold trim
  rw [dropCodes_of_graphic (by decide) h.1, dropCodes_of_graphic (by decide), List.reverse_reverse]
  rw [List.head?_reverse]
  exact h.2

theorem trim_space (text : Bytes) : trim (0x20 :: text) = trim text := by
  unfold trim
  rw [dropCodes_space]

theorem Framed.append {a b : Bytes} (ha : Framed a) (hb : Framed b) (middle : Bytes) :
    Framed (a ++ middle ++ b) := by
  constructor
  · rcases a with _ | ⟨c, a⟩
    · exact absurd ha.1 (by simp)
    · exact ha.1
  · rw [List.getLast?_append_of_ne_nil]
    · exact hb.2
    · rintro rfl
      exact absurd hb.1 (by simp)

/-! ## Words -/

/-- The characters of words. -/
def isWordByte (b : UInt8) : Bool :=
  isGraphic b && b != ascii '#' && b != ascii ',' && b != ascii ':'

/-- A short text without white space and separators. -/
structure IsWord (text : Bytes) : Prop where
  nonempty : text ≠ []
  short : text.length ≤ 100
  bytes : text.all isWordByte

instance (text : Bytes) : Decidable (IsWord text) :=
  decidable_of_iff (text ≠ [] ∧ text.length ≤ 100 ∧ text.all isWordByte)
    ⟨fun h => ⟨h.1, h.2.1, h.2.2⟩, fun h => ⟨h.nonempty, h.short, h.bytes⟩⟩

namespace IsWord

variable {text : Bytes}

theorem wordByte (h : IsWord text) {b : UInt8} (hb : b ∈ text) : isWordByte b :=
  List.all_eq_true.mp h.bytes b hb

theorem graphic (h : IsWord text) {b : UInt8} (hb : b ∈ text) : isGraphic b := by
  have := h.wordByte hb
  simp only [isWordByte, Bool.and_eq_true] at this
  exact this.1.1.1

theorem notMem (h : IsWord text) {b : UInt8} (hb : isWordByte b = false) : b ∉ text := by
  intro hm
  rw [h.wordByte hm] at hb
  exact Bool.noConfusion hb

theorem framed (h : IsWord text) : Framed text := by
  constructor
  · rw [List.head?_eq_some_head h.nonempty]
    exact h.graphic (List.head_mem h.nonempty)
  · rw [List.getLast?_eq_some_getLast h.nonempty]
    exact h.graphic (List.getLast_mem h.nonempty)

theorem trim (h : IsWord text) : trim text = text :=
  trim_of_framed h.framed

theorem isEmpty (h : IsWord text) : text.isEmpty = false := by
  rw [List.isEmpty_eq_false_iff]
  exact h.nonempty

theorem cons {b : UInt8} (hb : isWordByte b) (h : IsWord text) (hs : text.length < 100) :
    IsWord (b :: text) :=
  ⟨by simp, by rw [List.length_cons]; omega, by simp [hb, h.bytes]⟩

end IsWord

/-! ## Fields -/

theorem fields_go_append {a : Bytes} (h : ∀ b ∈ a, isGraphic b) (rest word : Bytes)
    (words : List Bytes) :
    fields.go (a ++ rest) word words = fields.go rest (a.reverse ++ word) words := by
  induction a generalizing word with
  | nil => rfl
  | cons b a ih =>
    rw [List.forall_mem_cons] at h
    rw [List.cons_append, fields.go, codeWidth_of_graphic (by decide) h.1]
    dsimp only
    rw [ih h.2]
    simp

theorem fields_go_nil {word : Bytes} (h : word ≠ []) (words : List Bytes) :
    fields.go [] word words = (word.reverse :: words).reverse := by
  rw [fields.go, if_neg (by simpa using h)]

theorem fields_word {a : Bytes} (h : IsWord a) : fields a = [a] := by
  have := fields_go_append (fun b hb => h.graphic hb) [] [] []
  rw [List.append_nil, List.append_nil, fields_go_nil (by simpa using h.nonempty)] at this
  rw [fields, this, List.reverse_reverse]
  rfl

theorem fields_two {a b : Bytes} (ha : IsWord a) (hb : IsWord b) :
    fields (a ++ 0x20 :: b) = [a, b] := by
  have hw : codeWidth blanks (0x20 :: b) = 1 := rfl
  have hb' := fields_go_append (fun c hc => hb.graphic hc) [] [] [a]
  rw [List.append_nil, List.append_nil, fields_go_nil (by simpa using hb.nonempty)] at hb'
  rw [fields, fields_go_append fun c hc => ha.graphic hc, fields.go, hw]
  dsimp only
  rw [if_neg (by simpa using ha.nonempty), List.append_nil, List.reverse_reverse, List.drop_zero,
    hb', List.reverse_reverse]
  rfl

/-! ## Splitting -/

theorem splitAt_go_append {sep : UInt8} {a : Bytes} (h : sep ∉ a) (rest piece : Bytes)
    (pieces : List Bytes) :
    splitAt.go sep (a ++ rest) piece pieces = splitAt.go sep rest (a.reverse ++ piece) pieces := by
  induction a generalizing piece with
  | nil => rfl
  | cons b a ih =>
    rw [List.mem_cons, not_or] at h
    rw [List.cons_append, splitAt.go, if_neg (Ne.symm h.1), ih h.2]
    simp

theorem splitAt_go_pieces (sep : UInt8) (text piece : Bytes) (pieces : List Bytes) :
    splitAt.go sep text piece pieces = pieces.reverse ++ splitAt.go sep text piece [] := by
  induction text generalizing piece pieces with
  | nil => simp [splitAt.go]
  | cons b text ih =>
    rw [splitAt.go, splitAt.go]
    split_ifs
    · rw [ih, ih [] [piece.reverse]]
      simp
    · rw [ih]

/-- **Splitting finds the part before the first separator.** -/
theorem splitAt_append {sep : UInt8} {a : Bytes} (h : sep ∉ a) (rest : Bytes) :
    splitAt sep (a ++ sep :: rest) = a :: splitAt sep rest := by
  unfold splitAt
  rw [splitAt_go_append h, splitAt.go, if_pos rfl, splitAt_go_pieces]
  simp

theorem splitAt_of_notMem {sep : UInt8} {a : Bytes} (h : sep ∉ a) : splitAt sep a = [a] := by
  have := splitAt_go_append h [] [] []
  rw [List.append_nil] at this
  rw [splitAt, this, splitAt.go]
  simp

/-- Lines that are ended by a separator are found again, with an empty text after the last. -/
theorem splitAt_flatten {sep : UInt8} {texts : List Bytes} (h : ∀ t ∈ texts, sep ∉ t) :
    splitAt sep (texts.map (· ++ [sep])).flatten = texts ++ [[]] := by
  induction texts with
  | nil => rfl
  | cons t texts ih =>
    rw [List.map_cons, List.flatten_cons, List.append_assoc, List.singleton_append,
      splitAt_append (h t List.mem_cons_self), ih fun u hu => h u (List.mem_cons_of_mem _ hu)]
    rfl

theorem ne_of_notMem {sep : UInt8} {a : Bytes} (h : sep ∉ a) : ∀ b ∈ a, decide (b ≠ sep) := by
  intro b hb
  rw [decide_eq_true_eq]
  rintro rfl
  exact h hb

theorem takeWhile_append_cons {sep : UInt8} {a : Bytes} (h : sep ∉ a) (rest : Bytes) :
    (a ++ sep :: rest).takeWhile (· ≠ sep) = a := by
  rw [List.takeWhile_append_of_pos (ne_of_notMem h), List.takeWhile_cons_of_neg (by simp),
    List.append_nil]

theorem takeWhile_of_notMem {sep : UInt8} {a : Bytes} (h : sep ∉ a) :
    a.takeWhile (· ≠ sep) = a :=
  List.takeWhile_eq_self_iff.mpr (ne_of_notMem h)

/-- A text is cut in one way at the first of its separators. -/
theorem append_cons_inj {sep : UInt8} {a a' b b' : Bytes} (ha : sep ∉ a) (ha' : sep ∉ a')
    (h : a ++ sep :: b = a' ++ sep :: b') : a = a' ∧ b = b' := by
  have h1 := congrArg (List.takeWhile (· ≠ sep)) h
  rw [takeWhile_append_cons ha, takeWhile_append_cons ha'] at h1
  subst h1
  exact ⟨rfl, List.tail_eq_of_cons_eq (List.append_cancel_left h)⟩

end TapeLang.Text
