import Mathlib.Data.List.Basic
import Mathlib.Tactic.IntervalCases
import TapeLang.Text.Integer

/-!
# Numerals

Decimal numerals are read back as the numbers they were written from.

* `digits_eq`: the last digit of a numeral is the remainder by ten.
* `magnitude_digits`: reading the digits of a number gives the number.
* **`parseInt64_decimal`**: a literal written in decimal is read back.
* `digits_injective`: two numbers with the same digits are equal.
-/

namespace TapeLang.Text

/-- The byte of a digit. -/
def digit (d : Nat) : UInt8 := UInt8.ofNat (48 + d)

theorem ascii_digitChar {d : Nat} (hd : d < 10) : ascii (Nat.digitChar d) = digit d := by
  interval_cases d <;> rfl

theorem digits_eq (n : Nat) :
    digits 10 n = (if n < 10 then [] else digits 10 (n / 10)) ++ [digit (n % 10)] := by
  unfold digits
  rw [Nat.toDigits_eq_if (by omega)]
  split
  next h => rw [Nat.mod_eq_of_lt h, List.map_singleton, ascii_digitChar h, List.nil_append]
  next h => rw [List.map_append, List.map_singleton, ascii_digitChar (Nat.mod_lt n (by omega))]

/-- Induction over the digits of a number. -/
theorem digits_induction {P : Nat → Prop} (small : ∀ n < 10, P n)
    (step : ∀ n, 10 ≤ n → P (n / 10) → P n) (n : Nat) : P n := by
  induction n using Nat.strong_induction_on with
  | _ n ih =>
    by_cases h : n < 10
    · exact small n h
    · exact step n (by omega) (ih (n / 10) (by omega))

/-- A byte that is a decimal digit. -/
def IsDigit (b : UInt8) : Prop := 0x30 ≤ b ∧ b ≤ 0x39

theorem isDigit_digit {d : Nat} (hd : d < 10) : IsDigit (digit d) := by
  unfold IsDigit
  interval_cases d <;> decide

theorem IsDigit.toNat {b : UInt8} (h : IsDigit b) : 48 ≤ b.toNat ∧ b.toNat ≤ 57 :=
  ⟨UInt8.le_iff_toNat_le.mp h.1, UInt8.le_iff_toNat_le.mp h.2⟩

theorem isDigit_of_mem_digits {n : Nat} : ∀ {b : UInt8}, b ∈ digits 10 n → IsDigit b := by
  induction n using digits_induction with
  | small n h =>
    intro b hb
    rw [digits_eq, if_pos h, List.nil_append, List.mem_singleton] at hb
    rw [hb]
    exact isDigit_digit (Nat.mod_lt n (by omega))
  | step n h ih =>
    intro b hb
    rw [digits_eq, if_neg (by omega), List.mem_append, List.mem_singleton] at hb
    rcases hb with hb | rfl
    · exact ih hb
    · exact isDigit_digit (Nat.mod_lt n (by omega))

theorem digits_ne_nil (n : Nat) : digits 10 n ≠ [] := by
  rw [digits_eq]
  simp

theorem length_digits_le {n : Nat} (h : n < 10 ^ 20) : (digits 10 n).length ≤ 20 := by
  unfold digits
  rw [List.length_map, Nat.length_toDigits_le_iff (by omega) (by omega)]
  exact h

/-! ## Reading -/

theorem magnitude_append (base : Nat) (a b : Bytes) (n : Nat) :
    magnitude base (a ++ b) n = (magnitude base a n).bind (magnitude base b) := by
  induction a generalizing n with
  | nil => rfl
  | cons c a ih =>
    rw [List.cons_append, magnitude, magnitude]
    split_ifs
    · exact ih n
    · split
      · rfl
      · split_ifs
        · rfl
        · rfl
        · exact ih _

theorem digitValue?_digit {d : Nat} (hd : d < 10) : digitValue? (digit d) = some d := by
  interval_cases d <;> rfl

theorem digit_ne_underscore {d : Nat} (hd : d < 10) : digit d ≠ ascii '_' := by
  interval_cases d <;> decide

theorem magnitude_digit {d n : Nat} (hd : d < 10) (h : n * 10 + d < 2 ^ 64) :
    magnitude 10 [digit d] n = .ok (n * 10 + d) := by
  rw [magnitude, if_neg (digit_ne_underscore hd), digitValue?_digit hd]
  simp only [if_neg (by omega : ¬ 10 ≤ d), if_neg (Nat.not_le.mpr h : ¬ UInt64.size ≤ _)]
  rfl

theorem magnitude_digits {n : Nat} (h : n < 2 ^ 64) : magnitude 10 (digits 10 n) 0 = .ok n := by
  induction n using digits_induction with
  | small n hn =>
    rw [digits_eq, if_pos hn, List.nil_append, Nat.mod_eq_of_lt hn, magnitude_digit hn (by omega)]
    simp
  | step n hn ih =>
    rw [digits_eq, if_neg (by omega), magnitude_append, ih (by omega)]
    change magnitude 10 [digit (n % 10)] (n / 10) = _
    rw [magnitude_digit (by omega) (by omega), Nat.div_add_mod']

theorem exists_digits_cons {n : Nat} (h : 0 < n) :
    ∃ b rest, digits 10 n = b :: rest ∧ b ≠ ascii '0' := by
  induction n using digits_induction with
  | small n hn =>
    refine ⟨digit n, [], ?_, ?_⟩
    · rw [digits_eq, if_pos hn, List.nil_append, Nat.mod_eq_of_lt hn]
    · interval_cases n <;> decide
  | step n hn ih =>
    obtain ⟨b, rest, hd, hb⟩ := ih (by omega)
    refine ⟨b, rest ++ [digit (n % 10)], ?_, hb⟩
    rw [digits_eq, if_neg (by omega), hd, List.cons_append]

theorem literalBase_cons {b : UInt8} (rest : Bytes) (h : b ≠ ascii '0') :
    literalBase (b :: rest) = (10, b :: rest) := by
  rcases rest with _ | ⟨c, _ | ⟨d, rest⟩⟩ <;> simp [literalBase, h]

theorem underscore_notMem_digits (n : Nat) : ascii '_' ∉ digits 10 n := by
  intro h
  have := (isDigit_of_mem_digits h).2
  revert this
  decide

theorem parseUnsigned_digits {n : Nat} (h : n < 2 ^ 64) : parseUnsigned (digits 10 n) = .ok n := by
  rcases Nat.eq_zero_or_pos n with rfl | hn
  · rfl
  · obtain ⟨b, rest, hd, hb⟩ := exists_digits_cons hn
    have hu : (digits 10 n).contains (ascii '_') = false := by
      rw [Bool.eq_false_iff, ne_eq, List.contains_iff_mem]
      exact underscore_notMem_digits n
    have hm := magnitude_digits h
    unfold parseUnsigned
    rw [hu, hd, List.isEmpty_cons, literalBase_cons rest hb]
    rw [hd] at hm
    simp only [hm]
    rfl

theorem parseInt64_digits {n : Nat} (h : n < 2 ^ 64) :
    parseInt64 (digits 10 n) = withSign false n := by
  have hp := parseUnsigned_digits h
  rcases hd : digits 10 n with _ | ⟨b, rest⟩
  · exact absurd hd (digits_ne_nil n)
  · have hb : IsDigit b := isDigit_of_mem_digits (n := n) (by rw [hd]; exact List.mem_cons_self)
    have h1 : b ≠ ascii '-' := by rintro rfl; exact absurd hb.1 (by decide)
    have h2 : b ≠ ascii '+' := by rintro rfl; exact absurd hb.1 (by decide)
    rw [hd] at hp
    rw [parseInt64, if_neg h1, if_neg h2, hp]
    rfl

/-- **A literal written in decimal is read back.** -/
theorem parseInt64_decimal (n : Int64) : parseInt64 (decimal n.toInt) = .ok n := by
  have hlo := n.le_toInt
  have hhi := n.toInt_lt
  rcases hn : n.toInt with k | k
  · rw [hn] at hhi
    have hk : k < 2 ^ 63 := by simpa using hhi
    rw [decimal, parseInt64_digits (by omega), withSign, if_neg Bool.false_ne_true,
      if_pos (show k < signedLimit from hk)]
    refine congrArg Except.ok ?_
    rw [← Int64.toInt_inj, hn, Int64.toInt_ofNat_of_lt hk]
    rfl
  · rw [hn] at hlo
    have hk : k + 1 ≤ 2 ^ 63 := by omega
    rw [decimal, parseInt64, if_pos rfl, parseUnsigned_digits (by omega)]
    change withSign true (k + 1) = _
    rw [withSign, if_pos rfl, if_pos (show k + 1 ≤ signedLimit from hk)]
    refine congrArg Except.ok ?_
    rw [← Int64.toInt_inj, hn, Int64.toInt_ofInt_of_le (by omega) (by omega)]
    omega

/-! ## Comparing -/

theorem digits_injective {m n : Nat} (h : digits 10 m = digits 10 n) (hm : m < 2 ^ 64)
    (hn : n < 2 ^ 64) : m = n := by
  have h1 := magnitude_digits hm
  rw [h, magnitude_digits hn] at h1
  injection h1 with h1
  exact h1.symm

end TapeLang.Text
