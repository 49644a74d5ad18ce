import Frontend.Proofs.Token.Spelling
import Frontend.Tree.Literal
import Mathlib.Algebra.Group.Int.Defs

/-! # Values of tokens

A numeral denotes the number whose decimal digits it lists, if this is small
enough, and every such number has a numeral. A quoted text holds what stands
between the quotes.
-/

namespace Frontend

/-- The number whose decimal digits are the characters of a text. -/
def decimal (cs : List Char) : ℕ := Nat.ofDigitChars 10 cs 0

namespace Literal

theorem natural?_of_isNumeral {cs : List Char} (h : IsNumeral cs) :
    natural? cs = some (decimal cs) := by
  rw [natural?, if_pos ⟨h.1, List.all_eq_true.mpr h.2⟩, decimal, Nat.ofDigitChars_eq_foldl]

theorem signed?_of_isNumeral {cs : List Char} (h : IsNumeral cs) :
    signed? cs = some (decimal cs : ℤ) := by
  have hd := h.2
  unfold signed?
  split
  · exact absurd (hd '-' List.mem_cons_self) (by decide)
  · exact absurd (hd '+' List.mem_cons_self) (by decide)
  · rw [natural?_of_isNumeral h]
    rfl

/-- An integer in decimal: a numeral, which may begin with zeros, behind one sign at most. -/
inductive Denotes : List Char → ℤ → Prop where

  | unsigned {cs : List Char} : IsNumeral cs → Denotes cs (decimal cs)

  | plus {cs : List Char} : IsNumeral cs → Denotes ('+' :: cs) (decimal cs)

  | minus {cs : List Char} : IsNumeral cs → Denotes ('-' :: cs) (-decimal cs)

theorem natural?_eq_some_iff {cs : List Char} {m : ℕ} :
    natural? cs = some m ↔ IsNumeral cs ∧ m = decimal cs := by
  by_cases h : IsNumeral cs
  · simp [natural?_of_isNumeral h, h, eq_comm]
  · have hn : natural? cs = none := if_neg fun hc => h ⟨hc.1, List.all_eq_true.mp hc.2⟩
    simp [hn, h]

theorem signed?_eq_some_iff {cs : List Char} {n : ℤ} : signed? cs = some n ↔ Denotes cs n := by
  constructor
  · intro h
    unfold signed? at h
    split at h <;> obtain ⟨_, hi, rfl⟩ := Option.map_eq_some_iff.mp h <;>
      obtain ⟨m, hm, ⟨⟩⟩ := Option.bind_eq_some_iff.mp hi <;>
      obtain ⟨hd, rfl⟩ := natural?_eq_some_iff.mp hm
    · exact .minus hd
    · exact .plus hd
    · exact .unsigned hd
  · rintro (hd | hd | hd)
    · exact signed?_of_isNumeral hd
    · rw [signed?, natural?_of_isNumeral hd]
      rfl
    · rw [signed?, natural?_of_isNumeral hd]
      rfl

theorem inRange_iff {n : ℤ} : InRange n ↔ -2 ^ 63 ≤ n ∧ n < 2 ^ 63 := by
  rw [InRange, Int64.toInt_minValue, Int64.toInt_maxValue, Int.le_sub_one_iff]

theorem integer?_eq_some_iff {value : String} {n : ℤ} : integer? value = some n ↔
    Denotes value.toList n ∧ -2 ^ 63 ≤ n ∧ n ≤ 2 ^ 63 - 1 := by
  rw [integer?, Option.filter_eq_some_iff, signed?_eq_some_iff, decide_eq_true_iff, inRange_iff,
    Int.le_sub_one_iff]

theorem integer?_of_isNumeral {value : String} (h : IsNumeral value.toList) {n : ℤ} :
    integer? value = some n ↔ n = decimal value.toList ∧ n < 2 ^ 63 := by
  rw [integer?, signed?_of_isNumeral h, Option.filter_eq_some_iff, Option.some_inj,
    decide_eq_true_iff, inRange_iff]
  constructor
  · rintro ⟨rfl, -, hlt⟩
    exact ⟨rfl, hlt⟩
  · rintro ⟨rfl, hlt⟩
    exact ⟨rfl, by omega, hlt⟩

theorem unquoted_of_isQuoted {value : String} {q : Char} {body : List Char}
    (h : value.toList = q :: body ++ [q]) : unquoted value = String.ofList body := by
  simp [unquoted, h]

end Literal

theorem isNumeral_toDigits (n : ℕ) : IsNumeral (Nat.toDigits 10 n) :=
  ⟨Nat.toDigits_ne_nil, fun c hc => Nat.isDigit_of_mem_toDigits (by decide) (by decide) hc⟩

theorem decimal_toDigits (n : ℕ) : decimal (Nat.toDigits 10 n) = n :=
  Nat.ofDigitChars_ten_toDigits

end Frontend
