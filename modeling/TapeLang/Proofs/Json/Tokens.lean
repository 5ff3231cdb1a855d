import Mathlib.Data.List.Basic
import Mathlib.Tactic.IntervalCases
import TapeLang.Json.Token
import TapeLang.Json.Value
import TapeLang.Proofs.Text.Numeral

/-!
# Texts of values and their tokens

The text of a value without white space is cut into the tokens of the value again, whatever the
strings in it are made of.

* `Json.tokens`: the tokens of a value.
* `Json.Integral`: a value whose numbers are all integers.
* `scan_literal`, `scan_int`: a string and an integer are one token each.
* **`scan_compact`**: the text of a value is cut into its tokens.
-/

namespace TapeLang.Json

open Token

/-! ## Step by step -/

theorem scan_go_append (text : List Char) (acc acc' : List Token) :
    scan.go text (acc ++ acc') = acc'.reverse ++ scan.go text acc := by
  fun_induction scan.go text acc with
  | case1 => simp [scan.go]
  | case2 acc c rest hb ih => rw [scan.go, if_pos hb, ih]
  | case3 acc c rest hb found ih =>
    rw [scan.go, if_neg hb, ← ih]
    rfl

theorem scan_go (text : List Char) (acc : List Token) :
    scan.go text acc = acc.reverse ++ scan text :=
  scan_go_append text [] acc

theorem scan_cons {c : Char} {rest : List Char} (h : isBlank c = false) :
    scan (c :: rest) = (first (c :: rest)).1 :: scan (first (c :: rest)).2 := by
  rw [scan, scan.go, if_neg (by simp [h]), scan_go]
  rfl

/-! ## Strings -/

theorem hexValue?_digitChar {d : Nat} (h : d < 16) : hexValue? (Nat.digitChar d) = some d := by
  interval_cases d <;> rfl

theorem scanUnits_hexFour {n : Nat} (h : n < 65536) (rest : List Char) (acc : List Unit16) :
    scanUnits ('\\' :: 'u' :: (hexFour n ++ rest)) acc = scanUnits rest (.code n :: acc) := by
  simp only [hexFour, List.map_cons, List.map_nil, List.cons_append, List.nil_append]
  have hsum : ((n / 4096 * 16 + n / 256 % 16) * 16 + n / 16 % 16) * 16 + n % 16 = n := by omega
  rw [scanUnits, hexValue?_digitChar (by omega), hexValue?_digitChar (by omega),
    hexValue?_digitChar (by omega), hexValue?_digitChar (by omega)]
  simp only [hsum]

/-- The part of a literal that stands for a character: the character, or its number if that is
no half of a pair. -/
inductive Stands : Unit16 → Char → Prop
  | char (c : Char) : Stands (.char c) c
  | code {c : Char} : c.toNat < 0xD800 → Stands (.code c.toNat) c

theorem scanUnits_plain {c : Char} (hquote : c ≠ '"') (hslash : c ≠ '\\') (h : 0x20 ≤ c.toNat)
    (rest : List Char) (acc : List Unit16) :
    scanUnits (c :: rest) acc = scanUnits rest (.char c :: acc) := by
  have hplain : (decide (c.toNat < 0x20) || decide (c = '\\')) = false := by
    simp [hslash]
    omega
  conv_lhs => unfold scanUnits
  split
  all_goals simp_all

theorem exists_stands (c : Char) (rest : List Char) (acc : List Unit16) :
    ∃ u, Stands u c ∧ scanUnits (escape c ++ rest) acc = scanUnits rest (u :: acc) := by
  unfold escape
  split
  case h_8 hquote hslash _ _ _ _ _ =>
    split_ifs with h
    · have hlt : c.toNat < 0xD800 := by
        simp only [Bool.or_eq_true, decide_eq_true_eq] at h
        rcases h with ((((h | rfl) | rfl) | rfl) | rfl) | rfl
        · omega
        all_goals decide
      exact ⟨_, .code hlt, scanUnits_hexFour (by omega) rest acc⟩
    · simp only [Bool.or_eq_true, decide_eq_true_eq, not_or] at h
      exact ⟨_, .char c, scanUnits_plain hquote hslash (by omega) rest acc⟩
  all_goals exact ⟨_, .char _, rfl⟩

theorem exists_scanUnits (cs rest : List Char) (acc : List Unit16) :
    ∃ us, List.Forall₂ Stands us cs ∧
      scanUnits (cs.flatMap escape ++ '"' :: rest) acc = some (acc.reverse ++ us, rest) := by
  induction cs generalizing acc with
  | nil => exact ⟨[], .nil, by simp [scanUnits]⟩
  | cons c cs ih =>
    obtain ⟨u, hu, hscan⟩ := exists_stands c (cs.flatMap escape ++ '"' :: rest) acc
    obtain ⟨us, hus, hrest⟩ := ih (u :: acc)
    refine ⟨u :: us, .cons hu hus, ?_⟩
    rw [List.flatMap_cons, List.append_assoc, hscan, hrest]
    simp

theorem joinUnits_code {n : Nat} (h : n < 0xD800) (us : List Unit16) (acc : List Char) :
    joinUnits (.code n :: us) acc = joinUnits us (Char.ofNat n :: acc) := by
  have hhigh : ¬ 0xD800 ≤ n := by omega
  have hlow : ¬ 0xDC00 ≤ n := by omega
  rcases us with _ | ⟨_ | l, us⟩ <;> simp [joinUnits, hhigh, hlow]

theorem joinUnits_of_stands {us : List Unit16} {cs : List Char} (h : List.Forall₂ Stands us cs)
    (acc : List Char) : joinUnits us acc = acc.reverse ++ cs := by
  induction h generalizing acc with
  | nil => simp [joinUnits]
  | cons hu _ ih =>
    cases hu with
    | char c => simp [joinUnits, ih]
    | code hlt => simp [joinUnits_code hlt, ih, Char.ofNat_toNat]

/-- A string is one token, whatever it is made of. -/
theorem scan_literal (s : String) (rest : List Char) :
    scan (literal s ++ rest) = .string s :: scan rest := by
  obtain ⟨us, hus, hscan⟩ := exists_scanUnits s.toList rest []
  have hfirst : first ('"' :: (s.toList.flatMap escape ++ '"' :: rest)) = (.string s, rest) := by
    unfold first
    simp only [hscan]
    simp [joinUnits_of_stands hus]
  rw [literal, List.append_assoc, List.append_assoc]
  simp only [List.cons_append, List.nil_append]
  rw [scan_cons (by decide), hfirst]

/-! ## Integers -/

/-- What may follow a value in a text without white space. -/
def Delimited (rest : List Char) : Prop :=
  ∀ c ∈ rest.head?, c = ',' ∨ c = ']' ∨ c = '\x7d'

theorem Delimited.cases {rest : List Char} (h : Delimited rest) :
    rest = [] ∨ ∃ c tail, rest = c :: tail ∧ (c = ',' ∨ c = ']' ∨ c = '\x7d') := by
  rcases rest with _ | ⟨c, tail⟩
  · exact .inl rfl
  · exact .inr ⟨c, tail, rfl, h c rfl⟩

theorem scanDigits?_append {ds rest : List Char} (hne : ds ≠ []) (hds : ∀ c ∈ ds, c.isDigit)
    (hrest : Delimited rest) : scanDigits? (ds ++ rest) = some (ds, rest) := by
  have htake : rest.takeWhile Char.isDigit = [] ∧ rest.dropWhile Char.isDigit = rest := by
    rcases hrest.cases with rfl | ⟨c, tail, rfl, rfl | rfl | rfl⟩ <;> exact ⟨rfl, rfl⟩
  unfold scanDigits?
  rw [List.takeWhile_append_of_pos hds, List.dropWhile_append_of_pos hds, htake.1, htake.2,
    List.append_nil]
  cases ds with
  | nil => exact absurd rfl hne
  | cons d ds => rfl

/-- A positive number does not start with a zero. -/
theorem head?_toDigits_ne {n : Nat} (h : 0 < n) : (Nat.toDigits 10 n).head? ≠ some '0' := by
  induction n using Text.digits_induction with
  | small n hn =>
    rw [Nat.toDigits_eq_if (by omega), if_pos hn]
    interval_cases n <;> decide
  | step n hn ih =>
    have hne := ih (by omega)
    rw [Nat.toDigits_eq_if (by omega), if_neg (by omega), List.head?_append]
    rcases hd : (Nat.toDigits 10 (n / 10)).head? with _ | d
    · exact absurd (List.head?_eq_none_iff.mp hd) Nat.toDigits_ne_nil
    · rw [hd] at hne
      exact hne

theorem scanWhole?_toDigits (n : Nat) {rest : List Char} (hrest : Delimited rest) :
    scanWhole? (Nat.toDigits 10 n ++ rest) = some (Nat.toDigits 10 n, rest) := by
  have hscan : scanDigits? (Nat.toDigits 10 n ++ rest) = some (Nat.toDigits 10 n, rest) :=
    scanDigits?_append Nat.toDigits_ne_nil
      (fun c hc => Nat.isDigit_of_mem_toDigits (by omega) (by omega) hc) hrest
  by_cases hn : n = 0
  · subst hn
    rfl
  · have hzero := head?_toDigits_ne (Nat.pos_of_ne_zero hn)
    rcases hd : Nat.toDigits 10 n with _ | ⟨d, ds⟩
    · exact absurd hd Nat.toDigits_ne_nil
    · rw [hd] at hzero hscan
      rw [List.cons_append] at hscan ⊢
      unfold scanWhole?
      split
      · simp_all
      · exact hscan

theorem scanUnsigned?_toDigits (n : Nat) {rest : List Char} (hrest : Delimited rest) :
    scanUnsigned? (Nat.toDigits 10 n ++ rest) = some (Nat.toDigits 10 n, rest) := by
  have hfraction : scanFraction? rest = some ([], rest) := by
    rcases hrest.cases with rfl | ⟨c, tail, rfl, rfl | rfl | rfl⟩ <;> rfl
  have hexponent : scanExponent? rest = some ([], rest) := by
    rcases hrest.cases with rfl | ⟨c, tail, rfl, rfl | rfl | rfl⟩ <;> rfl
  rw [scanUnsigned?, scanWhole?_toDigits n hrest]
  simp [hfraction, hexponent]

/-- The first character of an integer. -/
def startsNumber (c : Char) : Bool := c = '-' || c.isDigit

theorem scan_number {c : Char} {text literal rest : List Char} (hc : startsNumber c)
    (h : scanNumber? (c :: text) = some (literal, rest)) :
    scan (c :: text) = .number literal :: scan rest := by
  have hblank : isBlank c = false := by
    rw [Bool.eq_false_iff]
    intro hb
    simp only [isBlank, Bool.or_eq_true, decide_eq_true_eq] at hb
    rcases hb with ((rfl | rfl) | rfl) | rfl <;> exact absurd hc (by decide)
  have hfirst : first (c :: text) = (.number literal, rest) := by
    unfold first
    split
    case h_11 => rw [h]
    all_goals
      rename_i heq
      obtain ⟨rfl, -⟩ := List.cons.inj heq
      exact absurd hc (by decide)
  rw [scan_cons hblank, hfirst]

theorem toList_toString_ofNat (m : Nat) :
    (toString (Int.ofNat m)).toList = Nat.toDigits 10 m := by
  rw [Int.toString_eq_repr]
  exact Nat.toList_repr

theorem toList_toString_negSucc (m : Nat) :
    (toString (Int.negSucc m)).toList = '-' :: Nat.toDigits 10 (m + 1) := by
  rw [Int.toString_eq_repr, Int.repr, String.toList_append, Nat.toList_repr]
  rfl

theorem scan_toDigits (m : Nat) {rest : List Char} (hrest : Delimited rest) :
    scan (Nat.toDigits 10 m ++ rest) = .number (Nat.toDigits 10 m) :: scan rest := by
  have hscan := scanUnsigned?_toDigits m hrest
  rcases hd : Nat.toDigits 10 m with _ | ⟨d, ds⟩
  · exact absurd hd Nat.toDigits_ne_nil
  · have hdigit : d.isDigit :=
      Nat.isDigit_of_mem_toDigits (b := 10) (n := m) (by omega) (by omega) (by simp [hd])
    rw [hd, List.cons_append] at hscan
    rw [List.cons_append]
    refine scan_number (by simp [startsNumber, hdigit]) ?_
    unfold scanNumber?
    split
    next heq =>
      obtain ⟨rfl, -⟩ := List.cons.inj heq
      cases hdigit
    next => exact hscan

theorem scan_int (n : Int) {rest : List Char} (hrest : Delimited rest) :
    scan ((toString n).toList ++ rest) = .number (toString n).toList :: scan rest := by
  cases n with
  | ofNat m =>
    rw [toList_toString_ofNat]
    exact scan_toDigits m hrest
  | negSucc m =>
    rw [toList_toString_negSucc, List.cons_append]
    refine scan_number (by decide) ?_
    rw [scanNumber?, scanUnsigned?_toDigits (m + 1) hrest]
    rfl

/-! ## Values -/

mutual

/-- The tokens of a value. -/
def tokens : Json → List Token
  | .null => [.null]
  | .bool b => [.bool b]
  | .number literal => [.number literal]
  | .string s => [.string s]
  | .array items => .beginArray :: (itemTokens items ++ [.endArray])
  | .object fields => .beginObject :: (fieldTokens fields ++ [.endObject])

/-- The tokens of array items, with commas between them. -/
def itemTokens : List Json → List Token
  | [] => []
  | [v] => tokens v
  | v :: w :: rest => tokens v ++ .comma :: itemTokens (w :: rest)

/-- The tokens of fields, with commas between them. -/
def fieldTokens : List (String × Json) → List Token
  | [] => []
  | [(key, v)] => .string key :: .colon :: tokens v
  | (key, v) :: f :: rest =>
    .string key :: .colon :: (tokens v ++ .comma :: fieldTokens (f :: rest))

end

/-- A value whose numbers are integers. -/
inductive Integral : Json → Prop
  | null : Integral .null
  | bool (b : Bool) : Integral (.bool b)
  | int (n : Int) : Integral (.int n)
  | string (s : String) : Integral (.string s)
  | array {items : List Json} : (∀ v ∈ items, Integral v) → Integral (.array items)
  | object {fields : List (String × Json)} : (∀ f ∈ fields, Integral f.2) →
      Integral (.object fields)

/-- The text of a value is cut into its tokens, whatever follows. -/
def Scans (v : Json) : Prop :=
  ∀ rest, Delimited rest → scan (v.compact ++ rest) = tokens v ++ scan rest

theorem delimited_comma (rest : List Char) : Delimited (',' :: rest) := by simp [Delimited]

theorem delimited_bracket (rest : List Char) : Delimited (']' :: rest) := by simp [Delimited]

theorem delimited_brace (rest : List Char) : Delimited ('\x7d' :: rest) := by simp [Delimited]

theorem scan_comma (rest : List Char) : scan (',' :: rest) = .comma :: scan rest :=
  scan_cons (by decide)

theorem scan_colon (rest : List Char) : scan (':' :: rest) = .colon :: scan rest :=
  scan_cons (by decide)

theorem scan_bracket (rest : List Char) : scan ('[' :: rest) = .beginArray :: scan rest :=
  scan_cons (by decide)

theorem scan_brace (rest : List Char) : scan ('\x7b' :: rest) = .beginObject :: scan rest :=
  scan_cons (by decide)

theorem scan_compactItems {items : List Json} (h : ∀ v ∈ items, Scans v) (rest : List Char) :
    scan (compactItems items ++ ']' :: rest) = itemTokens items ++ .endArray :: scan rest := by
  induction items with
  | nil => exact scan_cons (by decide)
  | cons v items ih =>
    rw [List.forall_mem_cons] at h
    cases items with
    | nil =>
      rw [compactItems, itemTokens, h.1 _ (delimited_bracket rest)]
      congr 1
      exact scan_cons (by decide)
    | cons w items =>
      simp only [compactItems, itemTokens, List.append_assoc, List.cons_append, List.nil_append]
      rw [h.1 _ (delimited_comma _), scan_comma, ih h.2]

theorem scan_compactFields {fields : List (String × Json)} (h : ∀ f ∈ fields, Scans f.2)
    (rest : List Char) :
    scan (compactFields fields ++ '\x7d' :: rest) =
      fieldTokens fields ++ .endObject :: scan rest := by
  induction fields with
  | nil => exact scan_cons (by decide)
  | cons f fields ih =>
    rcases f with ⟨key, v⟩
    rw [List.forall_mem_cons] at h
    cases fields with
    | nil =>
      simp only [compactFields, compactField, fieldTokens, List.append_assoc, List.cons_append,
        List.nil_append]
      rw [scan_literal, scan_colon, h.1 _ (delimited_brace rest)]
      congr 3
      exact scan_cons (by decide)
    | cons g fields =>
      simp only [compactFields, compactField, fieldTokens, List.append_assoc, List.cons_append,
        List.nil_append]
      rw [scan_literal, scan_colon, h.1 _ (delimited_comma _), scan_comma, ih h.2]

/-- **The text of a value is cut into its tokens**, if its numbers are integers. -/
theorem scan_compact {v : Json} (h : Integral v) : Scans v := by
  induction h with
  | null => exact fun rest _ => scan_cons (by decide)
  | bool b =>
    intro rest _
    cases b <;> exact scan_cons (by decide)
  | int n => exact fun rest hrest => scan_int n hrest
  | string s => exact fun rest _ => scan_literal s rest
  | array _ ih =>
    intro rest _
    simp only [compact, tokens, List.append_assoc, List.cons_append, List.nil_append]
    rw [scan_bracket, scan_compactItems ih]
  | object _ ih =>
    intro rest _
    simp only [compact, tokens, List.append_assoc, List.cons_append, List.nil_append]
    rw [scan_brace, scan_compactFields ih]

end TapeLang.Json
