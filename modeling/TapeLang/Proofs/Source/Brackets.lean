import Mathlib.Data.List.Induction
import Mathlib.Order.Basic
import TapeLang.Text.Bytes

/-!
# Matching brackets

Two brackets are partners if the text between them is balanced. Text is read from left to right
here: when a byte is added, a closing bracket takes the last opening bracket that has no partner,
and has none itself if there is none left.

* `Balanced`: brackets that all have partners.
* `Partners`, `unmatchedClosers`, `unmatchedOpeners`: brackets with and without a partner.
* **`unmatchedOpeners_concat`**, **`unmatchedClosers_concat`**: what another byte changes.
* **`balanced_iff`**: a text is balanced if and only if no bracket is unmatched.
* `Balanced.append`, `Balanced.enclose`: balanced texts put together.
-/

namespace TapeLang

/-- The number of opening brackets. -/
def opens (text : Bytes) : Nat := text.count (Text.ascii '[')

/-- The number of closing brackets. -/
def closes (text : Bytes) : Nat := text.count (Text.ascii ']')

/-- No beginning of the text closes more loops than it opens. -/
def Contained (text : Bytes) : Prop := ∀ n, closes (text.take n) ≤ opens (text.take n)

/-- No beginning of the text closes more loops than it opens, and the whole closes as many. -/
def Balanced (text : Bytes) : Prop := Contained text ∧ opens text = closes text

/-- An opening bracket and the closing bracket that ends its loop: what is between is balanced. -/
def Partners (text : Bytes) (i j : Nat) : Prop :=
  i < j ∧ text[i]? = some (Text.ascii '[') ∧ text[j]? = some (Text.ascii ']') ∧
    Balanced ((text.take j).drop (i + 1))

theorem contained_iff_le {text : Bytes} :
    Contained text ↔ ∀ n ≤ text.length, closes (text.take n) ≤ opens (text.take n) := by
  refine ⟨fun h n _ => h n, fun h n => ?_⟩
  by_cases hn : n ≤ text.length
  · exact h n hn
  · rw [List.take_of_length_le (by omega)]
    simpa using h text.length (Nat.le_refl _)

instance (text : Bytes) : Decidable (Contained text) := decidable_of_iff' _ contained_iff_le

instance (text : Bytes) : Decidable (Balanced text) := inferInstanceAs (Decidable (_ ∧ _))

instance (text : Bytes) (i j : Nat) : Decidable (Partners text i j) :=
  inferInstanceAs (Decidable (_ ∧ _))

/-- The places of the closing brackets without a partner, from left to right. -/
def unmatchedClosers (text : Bytes) : List Nat :=
  (List.range text.length).filter fun j =>
    text[j]? = some (Text.ascii ']') ∧ ∀ i < j, ¬ Partners text i j

/-- The places of the opening brackets without a partner, from left to right. -/
def unmatchedOpeners (text : Bytes) : List Nat :=
  (List.range text.length).filter fun i =>
    text[i]? = some (Text.ascii '[') ∧ ∀ j < text.length, ¬ Partners text i j

variable {text : Bytes} {b : UInt8} {i j : Nat}

/-! ## Counting -/

theorem opens_append (text rest : Bytes) : opens (text ++ rest) = opens text + opens rest :=
  List.count_append

theorem closes_append (text rest : Bytes) : closes (text ++ rest) = closes text + closes rest :=
  List.count_append

theorem opens_singleton (b : UInt8) : opens [b] = if b = Text.ascii '[' then 1 else 0 := by
  simp [opens, List.count_singleton]

theorem closes_singleton (b : UInt8) : closes [b] = if b = Text.ascii ']' then 1 else 0 := by
  simp [closes, List.count_singleton]

theorem opener_ne_closer : Text.ascii '[' ≠ Text.ascii ']' := by decide

theorem contained_nil : Contained [] := fun n => by simp [closes, opens]

theorem Contained.le (h : Contained text) : closes text ≤ opens text := by
  simpa using h text.length

theorem Contained.take (h : Contained text) (n : Nat) : Contained (text.take n) := by
  intro m
  rw [List.take_take]
  exact h _

theorem contained_concat :
    Contained (text ++ [b]) ↔ Contained text ∧ (b = Text.ascii ']' → closes text < opens text) := by
  have hsum : closes (text ++ [b]) ≤ opens (text ++ [b]) ↔
      closes text + (if b = Text.ascii ']' then 1 else 0) ≤
        opens text + if b = Text.ascii '[' then 1 else 0 := by
    rw [opens_append, closes_append, opens_singleton, closes_singleton]
  constructor
  · intro h
    refine ⟨?_, fun hb => ?_⟩
    · have := h.take text.length
      rwa [List.take_left] at this
    · have := hsum.mp h.le
      rw [if_pos hb, if_neg (hb ▸ opener_ne_closer.symm)] at this
      omega
  · rintro ⟨h, hb⟩ n
    by_cases hn : n ≤ text.length
    · rw [List.take_append_of_le_length hn]
      exact h n
    · rw [List.take_of_length_le (by rw [List.length_append, List.length_singleton]; omega), hsum]
      have := h.le
      by_cases hclose : b = Text.ascii ']'
      · have := hb hclose
        rw [if_pos hclose]
        omega
      · rw [if_neg hclose]
        omega

theorem take_succ_of_getElem? {n : Nat} (h : text[n]? = some b) :
    text.take (n + 1) = text.take n ++ [b] := by
  rw [List.take_add_one, h]
  rfl

theorem length_take_of_getElem? {n : Nat} (h : text[n]? = some b) : (text.take n).length = n :=
  List.length_take_of_le (Nat.le_of_lt (List.getElem?_eq_some_iff.mp h).1)

theorem drop_of_getElem? {n : Nat} (h : text[n]? = some b) :
    text.drop n = b :: text.drop (n + 1) := by
  rw [List.drop_eq_getElem?_toList_append, h]
  rfl

/-- A text is contained unless a closing bracket follows a balanced beginning. -/
theorem contained_iff_forall :
    Contained text ↔ ∀ n, text[n]? = some (Text.ascii ']') → ¬ Balanced (text.take n) := by
  constructor
  · intro h n hn hb
    have := (contained_concat.mp (take_succ_of_getElem? hn ▸ h.take (n + 1))).2 rfl
    have := hb.2
    omega
  · intro h
    -- By induction every beginning is contained, so it is balanced if it closes all that it opens.
    have hall : ∀ n, Contained (text.take n) := by
      intro n
      induction n with
      | zero => exact contained_nil
      | succ n ih =>
        rcases hb : text[n]? with _ | b
        · rw [List.take_add_one, hb]
          simpa using ih
        · rw [take_succ_of_getElem? hb, contained_concat]
          refine ⟨ih, ?_⟩
          rintro rfl
          have : opens (text.take n) ≠ closes (text.take n) := fun he => h n hb ⟨ih, he⟩
          have := ih.le
          omega
    exact fun n => (hall n).le

/-- A text that opens more than it closes has an opening bracket that nothing closes. -/
theorem exists_contained_of_lt : ∀ {text : Bytes}, closes text < opens text →
    ∃ i, text[i]? = some (Text.ascii '[') ∧ Contained (text.drop (i + 1))
  | [], h => absurd h (by decide)
  | b :: text, h => by
    rw [← List.singleton_append, opens_append, closes_append, opens_singleton,
      closes_singleton] at h
    by_cases hb : b = Text.ascii '[' ∧ Contained text
    · exact ⟨0, by simp [hb.1], by simpa using hb.2⟩
    -- Otherwise some rest of the text opens more than it closes, too.
    obtain ⟨n, hn⟩ : ∃ n, closes (text.drop n) < opens (text.drop n) := by
      by_cases hc : Contained text
      · refine ⟨0, ?_⟩
        rw [if_neg fun hopen => hb ⟨hopen, hc⟩] at h
        rw [List.drop_zero]
        omega
      · obtain ⟨n, hn⟩ := not_forall.mp hc
        have hopens := opens_append (text.take n) (text.drop n)
        have hcloses := closes_append (text.take n) (text.drop n)
        rw [List.take_append_drop] at hopens hcloses
        refine ⟨n, ?_⟩
        split_ifs at h <;> omega
    obtain ⟨i, hi, hc⟩ := exists_contained_of_lt hn
    rw [List.getElem?_drop] at hi
    rw [List.drop_drop] at hc
    refine ⟨n + i + 1, ?_, ?_⟩
    · rwa [List.getElem?_cons_succ]
    · rwa [List.drop_succ_cons]
termination_by text => text.length
decreasing_by
  rw [List.length_cons, List.length_drop]
  omega

/-! ## Places of unmatched brackets -/

theorem lt_of_mem_unmatchedOpeners (h : i ∈ unmatchedOpeners text) : i < text.length :=
  List.mem_range.mp (List.mem_filter.mp h).1

theorem lt_of_mem_unmatchedClosers (h : j ∈ unmatchedClosers text) : j < text.length :=
  List.mem_range.mp (List.mem_filter.mp h).1

theorem getElem?_of_mem_unmatchedClosers (h : j ∈ unmatchedClosers text) :
    text[j]? = some (Text.ascii ']') :=
  (of_decide_eq_true (List.mem_filter.mp h).2).1

theorem pairwise_unmatchedOpeners (text : Bytes) : (unmatchedOpeners text).Pairwise (· < ·) :=
  List.pairwise_lt_range.filter _

theorem pairwise_unmatchedClosers (text : Bytes) : (unmatchedClosers text).Pairwise (· < ·) :=
  List.pairwise_lt_range.filter _

/-- An opening bracket has no partner if what follows it is contained. -/
theorem forall_not_partners (hi : text[i]? = some (Text.ascii '[')) :
    (∀ j < text.length, ¬ Partners text i j) ↔ Contained (text.drop (i + 1)) := by
  have hslice : ∀ n, (text.take (i + 1 + n)).drop (i + 1) = (text.drop (i + 1)).take n := by
    intro n
    rw [List.drop_take, Nat.add_sub_cancel_left]
  rw [contained_iff_forall]
  constructor
  · intro h n hn hb
    rw [List.getElem?_drop] at hn
    refine h _ (List.getElem?_eq_some_iff.mp hn).1 ⟨by omega, hi, hn, ?_⟩
    rwa [hslice]
  · rintro h j - ⟨hij, -, hj, hb⟩
    obtain ⟨n, rfl⟩ := Nat.exists_eq_add_of_le hij
    refine h n ?_ (hslice n ▸ hb)
    rwa [List.getElem?_drop]

theorem unmatchedOpeners_eq (text : Bytes) :
    unmatchedOpeners text = (List.range text.length).filter fun i =>
      text[i]? = some (Text.ascii '[') ∧ Contained (text.drop (i + 1)) := by
  refine List.filter_congr fun i _ => ?_
  rw [decide_eq_decide]
  exact and_congr_right forall_not_partners

theorem mem_unmatchedOpeners :
    i ∈ unmatchedOpeners text ↔
      text[i]? = some (Text.ascii '[') ∧ Contained (text.drop (i + 1)) := by
  rw [unmatchedOpeners_eq, List.mem_filter, List.mem_range, decide_eq_true_iff,
    and_iff_right_iff_imp]
  exact fun h => (List.getElem?_eq_some_iff.mp h.1).1

/-- More is opened than closed after an unmatched bracket that is not the last. -/
theorem lt_of_unmatchedOpeners (hi : i ∈ unmatchedOpeners text) (hj : j ∈ unmatchedOpeners text)
    (hij : i < j) : closes (text.drop (i + 1)) < opens (text.drop (i + 1)) := by
  obtain ⟨-, hci⟩ := mem_unmatchedOpeners.mp hi
  obtain ⟨hbj, hcj⟩ := mem_unmatchedOpeners.mp hj
  have hsplit : text.drop (i + 1) =
      (text.drop (i + 1)).take (j - (i + 1)) ++ ([Text.ascii '['] ++ text.drop (j + 1)) := by
    rw [List.singleton_append, ← drop_of_getElem? hbj,
      show text.drop j = (text.drop (i + 1)).drop (j - (i + 1)) by
        rw [List.drop_drop, Nat.add_sub_cancel' hij], List.take_append_drop]
  have hbetween := hci (j - (i + 1))
  have hrest := hcj.le
  have hone : closes [Text.ascii '['] < opens [Text.ascii '['] := by decide
  rw [hsplit, opens_append, opens_append, closes_append, closes_append]
  omega

/-- What follows the last unmatched bracket is balanced, and what follows the others is not. -/
theorem balanced_of_last {init : List Nat} {last : Nat}
    (h : unmatchedOpeners text = init ++ [last]) :
    (∀ i ∈ init, closes (text.drop (i + 1)) < opens (text.drop (i + 1))) ∧
      Balanced (text.drop (last + 1)) := by
  have hpairwise := pairwise_unmatchedOpeners text
  rw [h, List.pairwise_append] at hpairwise
  obtain ⟨-, -, hlt⟩ := hpairwise
  have hlast : last ∈ unmatchedOpeners text := by simp [h]
  refine ⟨fun i hi => ?_, ?_⟩
  · exact lt_of_unmatchedOpeners (by simp [h, hi]) hlast (hlt i hi last (by simp))
  obtain ⟨-, hc⟩ := mem_unmatchedOpeners.mp hlast
  refine ⟨hc, Nat.le_antisymm (Nat.le_of_not_lt fun hmore => ?_) hc.le⟩
  -- Otherwise there would be another unmatched bracket behind the last.
  obtain ⟨n, hn, hcn⟩ := exists_contained_of_lt hmore
  rw [List.getElem?_drop] at hn
  rw [List.drop_drop] at hcn
  have hmem := mem_unmatchedOpeners.mpr ⟨hn, hcn⟩
  rw [h, List.mem_append, List.mem_singleton] at hmem
  rcases hmem with hinit | heq
  · have := hlt _ hinit last (by simp)
    omega
  · omega

theorem filter_unmatchedOpeners (text : Bytes) :
    ((unmatchedOpeners text).filter fun i =>
      closes (text.drop (i + 1)) < opens (text.drop (i + 1))) =
      (unmatchedOpeners text).dropLast := by
  rcases List.eq_nil_or_concat (unmatchedOpeners text) with hnil | ⟨init, last, hconcat⟩
  · rw [hnil]
    rfl
  · rw [List.concat_eq_append] at hconcat
    obtain ⟨hinit, -, hlast⟩ := balanced_of_last hconcat
    rw [hconcat, List.filter_append, List.dropLast_concat,
      List.filter_eq_self.mpr fun i hi => decide_eq_true (hinit i hi)]
    simp [hlast]

theorem filter_range_openers (text : Bytes) (b : UInt8) :
    ((List.range text.length).filter fun i =>
      (text ++ [b])[i]? = some (Text.ascii '[') ∧ Contained ((text ++ [b]).drop (i + 1))) =
      (unmatchedOpeners text).filter fun i =>
        b = Text.ascii ']' → closes (text.drop (i + 1)) < opens (text.drop (i + 1)) := by
  rw [unmatchedOpeners_eq, List.filter_filter]
  refine List.filter_congr fun i hi => ?_
  have hlt : i < text.length := List.mem_range.mp hi
  rw [← Bool.decide_and, decide_eq_decide, List.getElem?_append_left hlt,
    List.drop_append_of_le_length hlt, contained_concat]
  tauto

/-- **Another byte and the opening brackets**: an opening bracket comes last, and a closing bracket
takes the last. -/
theorem unmatchedOpeners_concat (text : Bytes) (b : UInt8) :
    unmatchedOpeners (text ++ [b]) =
      if b = Text.ascii '[' then unmatchedOpeners text ++ [text.length]
      else if b = Text.ascii ']' then (unmatchedOpeners text).dropLast
      else unmatchedOpeners text := by
  have hlast : ((text ++ [b])[text.length]? = some (Text.ascii '[') ∧
      Contained ((text ++ [b]).drop (text.length + 1))) ↔ b = Text.ascii '[' := by
    rw [List.getElem?_concat_length, List.drop_of_length_le (by simp), Option.some_inj]
    exact and_iff_left contained_nil
  rw [unmatchedOpeners_eq, List.length_append, List.length_singleton, List.range_succ,
    List.filter_append, filter_range_openers, List.filter_cons, List.filter_nil]
  simp only [decide_eq_true_iff, hlast]
  by_cases hopen : b = Text.ascii '['
  · simp [hopen, opener_ne_closer]
  by_cases hclose : b = Text.ascii ']'
  · simp [hclose, opener_ne_closer.symm, filter_unmatchedOpeners]
  · simp [hopen, hclose]

theorem exists_partners_concat :
    (∃ i < text.length, Partners (text ++ [Text.ascii ']']) i text.length) ↔
      unmatchedOpeners text ≠ [] := by
  have hpartners : ∀ i < text.length, Partners (text ++ [Text.ascii ']']) i text.length ↔
      text[i]? = some (Text.ascii '[') ∧ Balanced (text.drop (i + 1)) := by
    intro i hi
    rw [Partners, List.getElem?_append_left hi, List.getElem?_concat_length, List.take_left]
    simp [hi]
  constructor
  · rintro ⟨i, hi, hp⟩
    obtain ⟨hb, hbalanced⟩ := (hpartners i hi).mp hp
    exact List.ne_nil_of_mem (mem_unmatchedOpeners.mpr ⟨hb, hbalanced.1⟩)
  · intro hne
    obtain ⟨init, last, hconcat⟩ := (List.eq_nil_or_concat _).resolve_left hne
    rw [List.concat_eq_append] at hconcat
    have hmem : last ∈ unmatchedOpeners text := by simp [hconcat]
    have hlt := lt_of_mem_unmatchedOpeners hmem
    exact ⟨last, hlt, (hpartners last hlt).mpr
      ⟨(mem_unmatchedOpeners.mp hmem).1, (balanced_of_last hconcat).2⟩⟩

/-- Partners do not depend on what follows them. -/
theorem partners_append (hj : j < text.length) (rest : Bytes) :
    Partners (text ++ rest) i j ↔ Partners text i j := by
  unfold Partners
  refine and_congr_right fun hij => ?_
  rw [List.getElem?_append_left (Nat.lt_trans hij hj), List.getElem?_append_left hj,
    List.take_append_of_le_length (Nat.le_of_lt hj)]

/-- **Another byte and the closing brackets**: a closing bracket comes last if no opening bracket is
left for it. -/
theorem unmatchedClosers_concat (text : Bytes) (b : UInt8) :
    unmatchedClosers (text ++ [b]) =
      if b = Text.ascii ']' ∧ unmatchedOpeners text = [] then unmatchedClosers text ++ [text.length]
      else unmatchedClosers text := by
  have hold : ((List.range text.length).filter fun j =>
      (text ++ [b])[j]? = some (Text.ascii ']') ∧ ∀ i < j, ¬ Partners (text ++ [b]) i j) =
      unmatchedClosers text := by
    refine List.filter_congr fun j hj => ?_
    have hlt : j < text.length := List.mem_range.mp hj
    rw [decide_eq_decide, List.getElem?_append_left hlt]
    simp only [partners_append hlt]
  have hlast : ((text ++ [b])[text.length]? = some (Text.ascii ']') ∧
      ∀ i < text.length, ¬ Partners (text ++ [b]) i text.length) ↔
        b = Text.ascii ']' ∧ unmatchedOpeners text = [] := by
    rw [List.getElem?_concat_length, Option.some_inj]
    refine and_congr_right ?_
    rintro rfl
    rw [← not_iff_not, ← ne_eq, ← exists_partners_concat]
    push Not
    rfl
  rw [unmatchedClosers, List.length_append, List.length_singleton, List.range_succ,
    List.filter_append, hold, List.filter_cons, List.filter_nil]
  simp only [decide_eq_true_iff, hlast]
  split_ifs
  · rfl
  · exact List.append_nil _

/-! ## Balanced texts -/

/-- The opening brackets that are left count how much more is opened than closed. -/
theorem contained_iff_unmatchedClosers (text : Bytes) :
    (Contained text ↔ unmatchedClosers text = []) ∧
      (Contained text → opens text = closes text + (unmatchedOpeners text).length) := by
  induction text using List.reverseRecOn with
  | nil => exact ⟨iff_of_true contained_nil rfl, fun _ => rfl⟩
  | append_singleton text b ih =>
    obtain ⟨hiff, hlength⟩ := ih
    have hleft : Contained text → (closes text < opens text ↔ unmatchedOpeners text ≠ []) := by
      intro hc
      rw [hlength hc, ← List.length_pos_iff]
      omega
    rw [contained_concat, unmatchedClosers_concat, unmatchedOpeners_concat, opens_append,
      closes_append, opens_singleton, closes_singleton]
    constructor
    · rw [and_congr_right fun hc => imp_congr_right fun _ => hleft hc, hiff]
      split_ifs with h
      · simp [h.1, h.2]
      · exact and_iff_left (not_and.mp h)
    · rintro ⟨hc, hlt⟩
      have := hlength hc
      by_cases hopen : b = Text.ascii '['
      · have hclose : b ≠ Text.ascii ']' := hopen ▸ opener_ne_closer
        rw [if_pos hopen, if_pos hopen, if_neg hclose, List.length_append, List.length_singleton]
        omega
      rw [if_neg hopen, if_neg hopen]
      by_cases hclose : b = Text.ascii ']'
      · have := List.length_pos_iff.mpr ((hleft hc).mp (hlt hclose))
        rw [if_pos hclose, if_pos hclose, List.length_dropLast]
        omega
      · rw [if_neg hclose, if_neg hclose]
        omega

/-- **A text is balanced if and only if no bracket is unmatched.** -/
theorem balanced_iff :
    Balanced text ↔ unmatchedClosers text = [] ∧ unmatchedOpeners text = [] := by
  obtain ⟨hiff, hlength⟩ := contained_iff_unmatchedClosers text
  rw [Balanced, ← hiff, ← List.length_eq_zero_iff]
  refine and_congr_right fun h => ?_
  have := hlength h
  omega

theorem balanced_nil : Balanced [] := ⟨contained_nil, rfl⟩

theorem balanced_of_notMem (hopen : Text.ascii '[' ∉ text) (hclose : Text.ascii ']' ∉ text) :
    Balanced text := by
  have hzero : ∀ n, closes (text.take n) = 0 := by
    intro n
    exact List.count_eq_zero.mpr fun h => hclose (List.mem_of_mem_take h)
  refine ⟨fun n => by simp [hzero n], ?_⟩
  rw [opens, closes, List.count_eq_zero.mpr hopen, List.count_eq_zero.mpr hclose]

theorem Balanced.append {a b : Bytes} (ha : Balanced a) (hb : Balanced b) :
    Balanced (a ++ b) := by
  refine ⟨fun n => ?_, ?_⟩
  · have h₁ := ha.1 n
    have h₂ := hb.1 (n - a.length)
    rw [List.take_append, opens_append, closes_append]
    omega
  · have h₁ := ha.2
    have h₂ := hb.2
    rw [opens_append, closes_append]
    omega

theorem Balanced.enclose (h : Balanced text) :
    Balanced (Text.ascii '[' :: (text ++ [Text.ascii ']'])) := by
  have hopens : opens (Text.ascii '[' :: text) = opens text + 1 := by simp [opens]
  have hcloses : closes (Text.ascii '[' :: text) = closes text :=
    List.count_cons_of_ne opener_ne_closer
  have hcontained : Contained (Text.ascii '[' :: text) := by
    intro n
    cases n with
    | zero => exact Nat.le_refl _
    | succ n =>
      have := h.1 n
      rw [List.take_succ_cons, ← List.singleton_append, opens_append, closes_append]
      simp only [opens_singleton, closes_singleton, if_true, if_neg opener_ne_closer]
      omega
  have heq := h.2
  rw [← List.cons_append]
  refine ⟨contained_concat.mpr ⟨hcontained, fun _ => by omega⟩, ?_⟩
  rw [opens_append, closes_append, hopens, hcloses, opens_singleton, closes_singleton, if_pos rfl,
    if_neg opener_ne_closer.symm]
  omega

end TapeLang
