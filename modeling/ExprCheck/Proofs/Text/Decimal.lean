import ExprCheck.Text.Characters
import Mathlib.Data.List.Induction

/-!
Digits of numbers, and the numbers that they are read as. A bound that lies above
the number is not felt.
-/

namespace ExprCheck.Text

theorem decimal_append_singleton (ds : List Char) (c : Char) :
    decimal (ds ++ [c]) = 10 * decimal ds + (c.toNat - '0'.toNat) := by
  rw [decimal, List.foldl_append]
  rfl

theorem cappedDecimal_append_singleton (bound : Nat) (ds : List Char) (c : Char) :
    cappedDecimal bound (ds ++ [c]) =
      if cappedDecimal bound ds < bound then
        10 * cappedDecimal bound ds + (c.toNat - '0'.toNat)
      else cappedDecimal bound ds := by
  rw [cappedDecimal, List.foldl_append]
  rfl

theorem cappedDecimal_of_lt {bound : Nat} (ds : List Char) (h : decimal ds < bound) :
    cappedDecimal bound ds = decimal ds := by
  induction ds using List.reverseRecOn with
  | nil => rfl
  | append_singleton ds c ih =>
      rw [decimal_append_singleton] at h
      have hds : cappedDecimal bound ds = decimal ds := ih (by omega)
      rw [cappedDecimal_append_singleton, decimal_append_singleton, hds, if_pos (by omega)]

theorem decimal_of_cappedDecimal_lt {bound : Nat} (ds : List Char)
    (h : cappedDecimal bound ds < bound) : decimal ds = cappedDecimal bound ds := by
  induction ds using List.reverseRecOn with
  | nil => rfl
  | append_singleton ds c ih =>
      rw [cappedDecimal_append_singleton] at h ⊢
      split at h
      · next hds => rw [if_pos hds, decimal_append_singleton, ih hds]
      · next hds => exact absurd h hds

theorem decimalBelow?_eq_some_iff {bound n : Nat} {ds : List Char} :
    decimalBelow? bound ds = some n ↔ decimal ds = n ∧ n < bound := by
  rw [decimalBelow?]
  constructor
  · intro h
    split at h
    · next hlt =>
        obtain rfl := Option.some.inj h
        exact ⟨decimal_of_cappedDecimal_lt ds hlt, hlt⟩
    · cases h
  · rintro ⟨rfl, hlt⟩
    rw [cappedDecimal_of_lt ds hlt, if_pos hlt]

theorem decimal_digits (n : Nat) : decimal (digits n) = n :=
  Nat.ofDigitChars_ten_toDigits

theorem decimalBelow?_digits {bound n : Nat} (h : n < bound) :
    decimalBelow? bound (digits n) = some n :=
  decimalBelow?_eq_some_iff.mpr ⟨decimal_digits n, h⟩

theorem digits_ne_nil (n : Nat) : digits n ≠ [] :=
  Nat.toDigits_ne_nil

theorem isDigit_of_mem_digits {n : Nat} {c : Char} (h : c ∈ digits n) : c.isDigit = true :=
  Nat.isDigit_of_mem_toDigits (by decide) (by decide) h

/-- Only zero begins with a zero. -/
theorem digits_head (n : Nat) : (digits n).head? ≠ some '0' ∨ digits n = ['0'] := by
  induction n using Nat.strongRecOn with
  | ind n ih =>
      by_cases hn : n < 10
      · have hsmall : ∀ k < 10, [Nat.digitChar k].head? ≠ some '0' ∨ [k.digitChar] = ['0'] := by
          decide
        rw [show digits n = [n.digitChar] from Nat.toDigits_of_lt_base hn]
        exact hsmall n hn
      · have hd : digits n = digits (n / 10) ++ [(n % 10).digitChar] :=
          Nat.toDigits_of_base_le (by decide) (by omega)
        have hhead : (digits n).head? = (digits (n / 10)).head? := by
          rw [hd, List.head?_append, List.head?_eq_some_head (digits_ne_nil _), Option.some_or]
        left
        rcases ih (n / 10) (by omega) with h | h
        · rwa [hhead]
        · -- A single zero in front would leave nothing of `n / 10`.
          have hzero : n / 10 = 0 := by
            rw [← decimal_digits (n / 10), h]
            rfl
          omega

end ExprCheck.Text
