import Mathlib.Data.List.Basic
import Mathlib.Tactic.IntervalCases
import TapeLang.Text.Utf8

/-!
# Characters and their bytes

* `firstRune_utf8EncodeChar`: the bytes of a character are read as that character.
* **`decodeLossy_encode`**: the bytes of characters are read back as these characters.
-/

namespace TapeLang.Text

/-! ## The shapes of characters -/

theorem leadShape_two {n : Nat} (h : 194 ≤ n) (h' : n ≤ 223) :
    leadShape (UInt8.ofNat n) = some (0x80, 0xBF, 0) := by
  interval_cases n <;> rfl

theorem leadShape_three {n : Nat} (h : 224 ≤ n) (h' : n ≤ 239) :
    leadShape (UInt8.ofNat n) =
      some (if n = 224 then 0xA0 else 0x80, if n = 237 then 0x9F else 0xBF, 1) := by
  interval_cases n <;> rfl

theorem leadShape_four {n : Nat} (h : 240 ≤ n) (h' : n ≤ 244) :
    leadShape (UInt8.ofNat n) =
      some (if n = 240 then 0x90 else 0x80, if n = 244 then 0x8F else 0xBF, 2) := by
  interval_cases n <;> rfl

theorem toNat_ofNat {n : Nat} (h : n < 256) : (UInt8.ofNat n).toNat = n := by
  rw [UInt8.toNat_ofNat']
  omega

theorem le_ofNat_le {low high : UInt8} {n : Nat} (h : low.toNat ≤ n) (h' : n ≤ high.toNat) :
    (decide (low ≤ UInt8.ofNat n) && decide (UInt8.ofNat n ≤ high)) = true := by
  have hhigh := high.toNat_lt
  simp only [Bool.and_eq_true, decide_eq_true_eq, UInt8.le_iff_toNat_le,
    toNat_ofNat (show n < 256 by omega)]
  exact ⟨h, h'⟩

theorem isTail_ofNat {n : Nat} (h : 128 ≤ n) (h' : n ≤ 191) : isTail (UInt8.ofNat n) = true :=
  le_ofNat_le h h'

theorem not_ofNat_lt {n : Nat} (h : 128 ≤ n) (h' : n < 256) : ¬ UInt8.ofNat n < 0x80 := by
  rw [UInt8.lt_iff_toNat_lt, toNat_ofNat h']
  simp only [UInt8.reduceToNat]
  omega

/-! ## One character -/

theorem firstRune_one {v : Nat} (h : v ≤ 127) (rest : Bytes) :
    firstRune (UInt8.ofNat v) rest = (.char (Char.ofNat v), 0) := by
  have hlt : UInt8.ofNat v < 0x80 := by
    rw [UInt8.lt_iff_toNat_lt, toNat_ofNat (by omega)]
    simp only [UInt8.reduceToNat]
    omega
  unfold firstRune
  rw [if_pos hlt, toNat_ofNat (by omega)]

theorem firstRune_two {v : Nat} (h : 128 ≤ v) (h' : v ≤ 2047) (rest : Bytes) :
    firstRune (UInt8.ofNat (v / 64 % 32 + 192)) (UInt8.ofNat (v % 64 + 128) :: rest) =
      (.char (Char.ofNat v), 1) := by
  have htail : (decide ((0x80 : UInt8) ≤ UInt8.ofNat (v % 64 + 128)) &&
      decide (UInt8.ofNat (v % 64 + 128) ≤ 0xBF)) = true :=
    le_ofNat_le (by simp) (by simp; omega)
  unfold firstRune
  rw [if_neg (not_ofNat_lt (by omega) (by omega)), leadShape_two (by omega) (by omega)]
  simp only [htail, if_true, tailBits]
  rw [toNat_ofNat (by omega), toNat_ofNat (by omega)]
  congr 3
  omega

theorem firstRune_three {v : Nat} (h : 2048 ≤ v) (h' : v ≤ 65535)
    (valid : v < 0xD800 ∨ 0xDFFF < v) (rest : Bytes) :
    firstRune (UInt8.ofNat (v / 4096 % 16 + 224))
        (UInt8.ofNat (v / 64 % 64 + 128) :: UInt8.ofNat (v % 64 + 128) :: rest) =
      (.char (Char.ofNat v), 2) := by
  unfold firstRune
  rw [if_neg (not_ofNat_lt (by omega) (by omega)), leadShape_three (by omega) (by omega)]
  simp only
  rw [if_pos, if_pos (isTail_ofNat (by omega) (by omega)), tailBits, tailBits,
    toNat_ofNat (by omega), toNat_ofNat (by omega), toNat_ofNat (by omega)]
  · congr 3
    omega
  -- The second byte is bounded closer where a shorter form exists, and before the surrogates.
  · refine le_ofNat_le ?_ ?_
    · split_ifs <;> simp only [UInt8.reduceToNat] <;> omega
    · split_ifs <;> simp only [UInt8.reduceToNat] <;> omega

theorem firstRune_four {v : Nat} (h : 65536 ≤ v) (h' : v < 0x110000) (rest : Bytes) :
    firstRune (UInt8.ofNat (v / 262144 % 8 + 240))
        (UInt8.ofNat (v / 4096 % 64 + 128) :: UInt8.ofNat (v / 64 % 64 + 128) ::
          UInt8.ofNat (v % 64 + 128) :: rest) =
      (.char (Char.ofNat v), 3) := by
  have htails : (isTail (UInt8.ofNat (v / 64 % 64 + 128)) &&
      isTail (UInt8.ofNat (v % 64 + 128))) = true := by
    rw [isTail_ofNat (by omega) (by omega), isTail_ofNat (by omega) (by omega)]
    rfl
  unfold firstRune
  rw [if_neg (not_ofNat_lt (by omega) (by omega)), leadShape_four (by omega) (by omega)]
  simp only
  rw [if_pos, if_pos htails, tailBits, tailBits, tailBits, toNat_ofNat (by omega),
    toNat_ofNat (by omega), toNat_ofNat (by omega), toNat_ofNat (by omega)]
  · congr 3
    omega
  · refine le_ofNat_le ?_ ?_
    · split_ifs <;> simp only [UInt8.reduceToNat] <;> omega
    · split_ifs <;> simp only [UInt8.reduceToNat] <;> omega

/-- The bytes of a character are read as that character. -/
theorem firstRune_utf8EncodeChar (c : Char) (rest : Bytes) :
    ∃ b tail, String.utf8EncodeChar c = b :: tail ∧
      firstRune b (tail ++ rest) = (.char c, tail.length) := by
  have hvalid : c.toNat < 0xD800 ∨ 0xDFFF < c.toNat ∧ c.toNat < 0x110000 := c.valid
  have hc : Char.ofNat c.toNat = c := Char.ofNat_toNat c
  have hv : c.val.toNat = c.toNat := rfl
  unfold String.utf8EncodeChar
  simp only [hv]
  split_ifs with h₁ h₂ h₃
  · refine ⟨_, _, rfl, ?_⟩
    conv_rhs => rw [← hc]
    exact firstRune_one h₁ _
  · refine ⟨_, _, rfl, ?_⟩
    conv_rhs => rw [← hc]
    exact firstRune_two (by omega) h₂ _
  · refine ⟨_, _, rfl, ?_⟩
    conv_rhs => rw [← hc]
    exact firstRune_three (by omega) h₃ (by omega) _
  · refine ⟨_, _, rfl, ?_⟩
    conv_rhs => rw [← hc]
    exact firstRune_four (by omega) (by omega) _

/-! ## All characters -/

theorem runes_go_encode (cs : List Char) (acc : List Rune) :
    runes.go (encode cs) acc = acc.reverse ++ cs.map .char := by
  induction cs generalizing acc with
  | nil => simp [encode, runes.go]
  | cons c cs ih =>
    obtain ⟨b, tail, hbytes, hfirst⟩ := firstRune_utf8EncodeChar c (encode cs)
    have hencode : encode (c :: cs) = b :: (tail ++ encode cs) := by
      rw [encode, List.flatMap_cons, hbytes]
      rfl
    rw [hencode, runes.go, hfirst]
    simp [ih]

/-- **The bytes of characters are read back as these characters.** -/
theorem decodeLossy_encode (cs : List Char) : decodeLossy (encode cs) = cs := by
  rw [decodeLossy, runes, runes_go_encode, List.reverse_nil, List.nil_append, List.map_map]
  exact List.map_id cs

theorem lossyString_utf8 (s : String) : lossyString (utf8 s) = s := by
  rw [lossyString, utf8, decodeLossy_encode, String.ofList_toList]

end TapeLang.Text
