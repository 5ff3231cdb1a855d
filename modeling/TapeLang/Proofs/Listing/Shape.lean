import TapeLang.Proofs.Listing.Recursion
import TapeLang.Proofs.Listing.Load
import TapeLang.Proofs.Text.Numeral

/-!
# The shape of the lines of a listing

Whatever the counts and the locations of a tree are, each line of its listing is short and has one
newline, at its end. So the first lines of the text are the texts of the first lines.

* `Plain`, `Line.Plain`: short texts without newlines.
* **`plain_of_mem_lines`**: the lines of a listing.
* `Text.firstLines`, **`firstLines_textOf`**: the first lines of a text.
-/

namespace TapeLang

namespace Assembly

open Text (ascii)

/-! ## Plain texts -/

/-- A text without newlines that is not longer than a bound. -/
def Plain (n : Nat) (text : Bytes) : Prop := ascii '\n' ∉ text ∧ text.length ≤ n

instance (n : Nat) (text : Bytes) : Decidable (Plain n text) :=
  inferInstanceAs (Decidable (_ ∧ _))

variable {m n : Nat} {a b : Bytes}

theorem Plain.append (ha : Plain m a) (hb : Plain n b) : Plain (m + n) (a ++ b) := by
  refine ⟨?_, ?_⟩
  · rw [List.mem_append, not_or]
    exact ⟨ha.1, hb.1⟩
  · rw [List.length_append]
    exact Nat.add_le_add ha.2 hb.2

theorem Plain.mono (h : Plain m a) (hmn : m ≤ n) : Plain n a :=
  ⟨h.1, h.2.trans hmn⟩

theorem plain_digits {k : Nat} (h : k < 10 ^ 20) : Plain 20 (Text.digits 10 k) := by
  refine ⟨fun hmem => ?_, Text.length_digits_le h⟩
  have := (Text.isDigit_of_mem_digits hmem).toNat
  exact absurd this.1 (by decide)

theorem plain_decimal (k : Int64) : Plain 21 (Text.decimal k.toInt) := by
  have hlow := k.le_toInt
  have hhigh := k.toInt_lt
  rcases hk : k.toInt with k | k
  · rw [Int.ofNat_eq_natCast] at hk
    exact (plain_digits (by omega)).mono (by decide)
  · have hminus : Plain 1 [ascii '-'] := by decide
    exact hminus.append (plain_digits (by omega))

theorem plain_immediate (k : Int64) : Plain 60 (immediate k.toInt) := by
  have hdollar : Plain 1 (utf8 "$") := by decide
  exact (hdollar.append (plain_decimal k)).mono (by decide)

theorem plain_siteLabel (loc : Location) (site : Site) : Plain 60 (siteLabel loc site) := by
  have hat : Plain 4 (utf8 "_at_") := by decide
  have hbar : Plain 1 (utf8 "_") := by decide
  have hsuffix : Plain 10 (utf8 site.suffix) := by
    cases site <;> decide
  exact (((((hat.append (plain_decimal _)).append hbar).append
    (plain_decimal _)).append hbar).append hsuffix).mono (by decide)

/-! ## Plain lines -/

/-- A short line with no newline but the one that ends it. -/
def Line.Plain (l : Line) : Prop := Assembly.Plain 200 l.body

instance (l : Line) : Decidable l.Plain := inferInstanceAs (Decidable (Assembly.Plain _ _))

theorem plain_label {name : Bytes} (h : Plain 60 name) : (Line.label name).Plain := by
  have hcolon : Plain 1 (utf8 ":") := by decide
  exact (h.append hcolon).mono (by decide)

theorem plain_instr {text : Bytes} (h : Plain 150 text) : (Line.instr text).Plain := by
  have hindent : Plain 2 (utf8 "  ") := by decide
  exact (hindent.append h).mono (by decide)

variable {mnemonic : String}

theorem plain_instr2 (hm : Plain 10 (utf8 mnemonic)) (ha : Plain 60 a) (hb : Plain 60 b) :
    (instr2 mnemonic a b).Plain := by
  have hblank : Plain 1 (utf8 " ") := by decide
  have hcomma : Plain 2 (utf8 ", ") := by decide
  exact plain_instr (((((hm.append hblank).append ha).append hcomma).append hb).mono (by decide))

theorem plain_jump (hm : Plain 10 (utf8 mnemonic)) (ha : Plain 60 a) :
    (jump mnemonic a).Plain := by
  have hblank : Plain 1 (utf8 " ") := by decide
  exact plain_instr (((hm.append hblank).append ha).mono (by decide))

/-! ## Listings -/

variable (arch : Arch)

theorem plain_pointer : Plain 60 (utf8 arch.dialect.pointer) := by
  cases arch <;> decide

theorem plain_stack : Plain 60 (utf8 arch.dialect.stack) := by
  cases arch <;> decide

theorem plain_number : Plain 60 (utf8 arch.dialect.number) := by
  cases arch <;> decide

theorem plain_cell : Plain 60 (cell arch.dialect) := by
  cases arch <;> decide

theorem plain_prologue : ∀ l ∈ prologue arch.dialect, l.Plain := by
  cases arch <;> decide

theorem plain_epilogue : ∀ l ∈ epilogue arch.dialect, l.Plain := by
  cases arch <;> decide

theorem plain_loopHead (loc : Location) : ∀ l ∈ loopHead loc, l.Plain := by
  simp only [loopHead, List.forall_mem_cons, List.not_mem_nil, false_implies, implies_true,
    and_true]
  exact ⟨plain_jump (by decide) (plain_siteLabel _ _), plain_label (plain_siteLabel _ _)⟩

theorem plain_loopFoot (loc : Location) : ∀ l ∈ loopFoot arch.dialect loc, l.Plain := by
  simp only [loopFoot, List.forall_mem_cons, List.not_mem_nil, false_implies, implies_true,
    and_true]
  exact ⟨plain_label (plain_siteLabel _ _), plain_instr2 (by decide) (by decide) (plain_cell arch),
    plain_jump (by decide) (plain_siteLabel _ _)⟩

theorem plain_moveForward (count : Int64) (loc : Location) :
    ∀ l ∈ moveForward arch.dialect count loc, l.Plain := by
  simp only [moveForward, List.forall_mem_cons, List.not_mem_nil, false_implies, implies_true,
    and_true]
  exact ⟨plain_instr2 (by decide) (plain_immediate _) (plain_pointer arch),
    plain_jump (by decide) (plain_siteLabel _ _), plain_label (plain_siteLabel _ _), by decide,
    plain_label (plain_siteLabel _ _),
    plain_instr2 (by decide) (plain_pointer arch) (plain_stack arch),
    plain_jump (by decide) (plain_siteLabel _ _)⟩

theorem plain_readCell (loc : Location) : ∀ l ∈ readCell arch.dialect loc, l.Plain := by
  have hcall : ∀ l ∈ systemCall arch.dialect arch.dialect.readCall
      [utf8 "$0", utf8 arch.dialect.pointer, utf8 "$1"], l.Plain := by
    cases arch <;> decide
  simp only [readCell, List.forall_mem_append, List.forall_mem_cons, List.not_mem_nil,
    false_implies, implies_true, and_true]
  exact ⟨⟨plain_instr2 (by decide) (by decide) (plain_cell arch), hcall⟩,
    plain_instr2 (by decide) (by decide) (plain_number arch),
    plain_jump (by decide) (plain_siteLabel _ _),
    plain_instr2 (by decide) (by decide) (plain_cell arch), plain_label (plain_siteLabel _ _)⟩

theorem plain_operation {kind : Kind} {count : Int64} {loc : Location} {ls : List Line}
    (h : operation? arch.dialect kind count loc = some ls) : ∀ l ∈ ls, l.Plain := by
  cases kind with
  | increment | decrement =>
    cases h
    exact List.forall_mem_singleton.mpr
      (plain_instr2 (by decide) (plain_immediate _) (plain_cell arch))
  | moveBackward =>
    cases h
    exact List.forall_mem_singleton.mpr
      (plain_instr2 (by decide) (plain_immediate _) (plain_pointer arch))
  | moveForward =>
    cases h
    exact plain_moveForward arch count loc
  | write =>
    cases h
    cases arch <;> decide
  | read =>
    cases h
    exact plain_readCell arch loc
  | loop | unknown => cases h

theorem plain_blockLines (nodes : List Node) :
    ∀ l ∈ (blockLines arch.dialect nodes).1, l.Plain := by
  induction nodes using Node.block_induction with
  | nil => simp [blockLines]
  | loop count children loc rest ihc ihr =>
    rw [blockLines, nodeLines]
    rcases hc : blockLines arch.dialect children with ⟨body, _ | u⟩
    · simp only [hc, List.forall_mem_append] at ihc ⊢
      exact ⟨⟨⟨plain_loopHead loc, ihc⟩, plain_loopFoot arch loc⟩, ihr⟩
    · simp only [hc, List.forall_mem_append] at ihc ⊢
      exact ⟨plain_loopHead loc, ihc⟩
  | operation kind count children loc rest hk ihr =>
    rw [blockLines, nodeLines_operation _ hk]
    rcases ho : operation? arch.dialect kind count loc with _ | ls
    · simp
    · exact List.forall_mem_append.mpr ⟨plain_operation arch ho, ihr⟩

/-- **The lines of a listing** are short, and each has one newline, at its end. -/
theorem plain_of_mem_lines (nodes : List Node) : ∀ l ∈ (lines arch.dialect nodes).1, l.Plain := by
  have hblock := plain_blockLines arch nodes
  rw [lines, walk_eq]
  rcases hb : blockLines arch.dialect nodes with ⟨body, _ | u⟩
  · rw [hb] at hblock
    dsimp only
    rw [walk]
    simp only [List.reverse_append, List.reverse_reverse, List.forall_mem_append]
    exact ⟨⟨plain_prologue arch, hblock⟩, plain_epilogue arch⟩
  · rw [hb] at hblock
    simp only [List.reverse_reverse, List.forall_mem_append]
    exact ⟨plain_prologue arch, hblock⟩

end Assembly

/-! ## First lines -/

/-- The first lines of a text, up to the newline that ends the last of them. -/
def Text.firstLines : (k : Nat) → Bytes → Bytes
  | 0, _ | _, [] => []
  | k + 1, b :: text =>
    b :: if b = ascii '\n' then firstLines k text else firstLines (k + 1) text

theorem Text.firstLines_append {a : Bytes} (ha : ascii '\n' ∉ a) (k : Nat) (b : Bytes) :
    firstLines (k + 1) (a ++ ascii '\n' :: b) = a ++ ascii '\n' :: firstLines k b := by
  induction a with
  | nil => simp [firstLines]
  | cons x a ih =>
    rw [List.mem_cons, not_or] at ha
    rw [List.cons_append, firstLines, if_neg (Ne.symm ha.1), ih ha.2, List.cons_append]

namespace Assembly

/-- **The first lines of a text** are the texts of the first lines. -/
theorem firstLines_textOf {ls : List Line} (h : ∀ l ∈ ls, l.Plain) (k : Nat) :
    Text.firstLines k (textOf ls) = textOf (ls.take k) := by
  induction ls generalizing k with
  | nil => cases k <;> rfl
  | cons l ls ih =>
    rw [List.forall_mem_cons] at h
    cases k with
    | zero => rw [Text.firstLines, List.take_zero]; rfl
    | succ k =>
      have htext : ∀ ls, textOf (l :: ls) = l.body ++ Text.ascii '\n' :: textOf ls := by
        intro ls
        rw [textOf, List.map_cons, List.flatten_cons, l.render_eq, List.append_assoc]
        rfl
      rw [List.take_succ_cons, htext, htext, Text.firstLines_append h.1.1, ih h.2]

end Assembly

end TapeLang
