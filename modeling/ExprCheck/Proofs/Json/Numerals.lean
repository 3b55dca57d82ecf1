import ExprCheck.Json.Reader
import ExprCheck.Proofs.Text.Decimal

/-!
Numbers in JSON. A number that is written as JSON requires is read back digit for
digit, if what follows could not be part of it.
-/

namespace ExprCheck.Json

/-- No digit comes next. -/
def NoDigit (cs : List Char) : Prop :=
  ∀ c ∈ cs.head?, c.isDigit = false

/-- Nothing comes next that a number could go on with. -/
def EndsNumber (cs : List Char) : Prop :=
  ∀ c ∈ cs.head?, c.isDigit = false ∧ c ≠ '.' ∧ c ≠ 'e' ∧ c ≠ 'E'

theorem EndsNumber.noDigit {cs : List Char} (h : EndsNumber cs) : NoDigit cs :=
  fun c hc => (h c hc).1

namespace Numeral

/-- The digits are digits, none is a needless zero, and the exponent has no more
than 31 bits. -/
structure WellFormed (n : Numeral) : Prop where
  whole : n.whole ≠ []
  head : n.whole.head? ≠ some '0' ∨ n.whole = ['0']
  digits : ∀ c ∈ n.whole ++ n.fraction, c.isDigit = true
  exponent : ∀ e ∈ n.exponent, e.natAbs < Number.signedHalfBound

theorem wellFormed_ofNat (n : Nat) : (ofNat n).WellFormed where
  whole := Text.digits_ne_nil n
  head := Text.digits_head n
  digits c hc := by
    rw [show (ofNat n).fraction = [] from rfl, List.append_nil] at hc
    exact Text.isDigit_of_mem_digits hc
  exponent := by simp [ofNat]

theorem natBelow?_ofNat {bound n : Nat} (h : n < bound) : (ofNat n).natBelow? bound = some n := by
  simp only [natBelow?, ofNat, and_self, ite_true]
  exact Text.decimalBelow?_digits h

/-! The parts of a number's text -/

def signChars (negative : Bool) : List Char :=
  if negative then ['-'] else []

def fractionChars : List Char → List Char
  | [] => []
  | ds => '.' :: ds

def exponentChars : Option Int → List Char
  | none => []
  | some e => 'e' :: (if 0 ≤ e then '+' else '-') :: Text.digits e.natAbs

theorem toList_repr_of_nonneg {e : Int} (h : 0 ≤ e) : e.repr.toList = Text.digits e.natAbs := by
  obtain ⟨n, rfl⟩ := Int.eq_ofNat_of_zero_le h
  exact Nat.toList_repr

theorem toList_repr_of_neg {e : Int} (h : ¬ 0 ≤ e) :
    e.repr.toList = '-' :: Text.digits e.natAbs := by
  obtain ⟨n, rfl⟩ := Int.eq_negSucc_of_lt_zero (Int.not_le.mp h)
  have hrepr : (Int.negSucc n).repr = "-" ++ (n + 1).repr := rfl
  rw [hrepr, String.toList_append, Nat.toList_repr]
  rfl

theorem toList_spelling (n : Numeral) :
    n.spelling.toList =
      signChars n.negative ++
        (n.whole ++ (fractionChars n.fraction ++ exponentChars n.exponent)) := by
  obtain ⟨negative, whole, fraction, exponent⟩ := n
  have hsign : (if negative then "-" else "").toList = signChars negative := by
    cases negative <;> rfl
  have hfraction : (if fraction = [] then "" else "." ++ String.ofList fraction).toList =
      fractionChars fraction := by
    cases fraction <;> simp [fractionChars]
  cases exponent with
  | none =>
      simp [spelling, exponentChars, hsign, hfraction]
  | some e =>
      have hplus : (toString "e+").toList = ['e', '+'] := rfl
      have hminus : (toString "e").toList = ['e'] := rfl
      by_cases he : 0 ≤ e
      · simp [spelling, exponentChars, hsign, hfraction, he, hplus, toList_repr_of_nonneg he]
      · simp [spelling, exponentChars, hsign, hfraction, he, hminus, toList_repr_of_neg he]

theorem WellFormed.head_spelling {n : Numeral} (h : n.WellFormed) :
    ∃ c cs, n.spelling.toList = c :: cs ∧ (c = '-' ∨ c.isDigit = true) := by
  obtain ⟨negative, whole, fraction, exponent⟩ := n
  rw [toList_spelling]
  cases negative with
  | true => exact ⟨'-', _, rfl, .inl rfl⟩
  | false =>
      cases whole with
      | nil => exact absurd rfl h.whole
      | cons d ds => exact ⟨d, _, rfl, .inr (h.digits d (List.mem_cons_self ..))⟩

end Numeral

open Numeral

theorem readDigits_append {ds rest : List Char} (hne : ds ≠ [])
    (hds : ∀ c ∈ ds, c.isDigit = true) (hrest : NoDigit rest) :
    readDigits (ds ++ rest) = some (ds, rest) := by
  have htake : rest.takeWhile Char.isDigit = [] ∧ rest.dropWhile Char.isDigit = rest := by
    cases rest with
    | nil => exact ⟨rfl, rfl⟩
    | cons c rest =>
        have hc : c.isDigit = false := hrest c rfl
        simp [hc]
  have hall : ∀ c ∈ ds, Char.isDigit c = true := hds
  rw [readDigits, List.takeWhile_append_of_pos hall, List.dropWhile_append_of_pos hall, htake.1,
    htake.2, List.append_nil, if_neg hne]

theorem readWhole_append {ds rest : List Char} (hne : ds ≠ [])
    (hhead : ds.head? ≠ some '0' ∨ ds = ['0']) (hds : ∀ c ∈ ds, c.isDigit = true)
    (hrest : NoDigit rest) : readWhole (ds ++ rest) = some (ds, rest) := by
  rw [readWhole, readDigits_append hne hds hrest]
  simpa using hhead

theorem readFraction_append {ds rest : List Char} (hds : ∀ c ∈ ds, c.isDigit = true)
    (hrest : NoDigit rest) (hpoint : rest.head? ≠ some '.') :
    readFraction (fractionChars ds ++ rest) = some (ds, rest) := by
  cases ds with
  | nil =>
      rw [fractionChars, List.nil_append, readFraction]
      rintro cs rfl
      exact hpoint rfl
  | cons d ds => exact readDigits_append (List.cons_ne_nil d ds) hds hrest

theorem exponentSize_digits {n : Nat} (h : n < Number.signedHalfBound) :
    exponentSize (Text.digits n) = n := by
  rw [exponentSize, Text.cappedDecimal_of_lt _ (by rwa [Text.decimal_digits]),
    Text.decimal_digits, Nat.min_eq_left (Nat.le_of_lt h)]

theorem readExponent_append {e : Option Int} {rest : List Char}
    (he : ∀ i ∈ e, i.natAbs < Number.signedHalfBound) (hrest : EndsNumber rest) :
    readExponent (exponentChars e ++ rest) = some (e, rest) := by
  cases e with
  | none =>
      rw [exponentChars, List.nil_append, readExponent]
      · rintro cs rfl
        exact (hrest 'e' rfl).2.2.1 rfl
      · rintro cs rfl
        exact (hrest 'E' rfl).2.2.2 rfl
  | some i =>
      have hi : exponentSize (Text.digits i.natAbs) = i.natAbs := exponentSize_digits (he i rfl)
      have hdigits : readDigits (Text.digits i.natAbs ++ rest) =
          some (Text.digits i.natAbs, rest) :=
        readDigits_append (Text.digits_ne_nil _) (fun _ => Text.isDigit_of_mem_digits)
          hrest.noDigit
      rw [exponentChars]
      by_cases hsign : 0 ≤ i
      · rw [if_pos hsign]
        simp only [List.cons_append, readExponent, hdigits, hi, Option.map_some,
          Int.natAbs_of_nonneg hsign]
      · rw [if_neg hsign]
        simp only [List.cons_append, readExponent, hdigits, hi, Option.map_some]
        rw [Int.ofNat_natAbs_of_nonpos (by omega), Int.neg_neg]

/-- What follows the digits before an exponent, if there is one. -/
theorem head_exponentChars_append (e : Option Int) {rest : List Char} (hrest : EndsNumber rest) :
    ∀ c ∈ (exponentChars e ++ rest).head?, c.isDigit = false ∧ c ≠ '.' := by
  cases e with
  | none => exact fun c hc => ⟨(hrest c hc).1, (hrest c hc).2.1⟩
  | some i =>
      rintro c hc
      cases hc
      decide

theorem noDigit_fractionChars_append (ds : List Char) {rest : List Char} (hrest : NoDigit rest) :
    NoDigit (fractionChars ds ++ rest) := by
  cases ds with
  | nil => exact hrest
  | cons d ds =>
      rintro c hc
      cases hc
      decide

theorem readNumeral_spelling {n : Numeral} (h : n.WellFormed) {rest : List Char}
    (hrest : EndsNumber rest) : readNumeral (n.spelling.toList ++ rest) = some (n, rest) := by
  obtain ⟨negative, whole, fraction, exponent⟩ := n
  have hdigits : ∀ c ∈ whole ++ fraction, c.isDigit = true := h.digits
  have htail := head_exponentChars_append exponent hrest
  have hexponent : readExponent (exponentChars exponent ++ rest) = some (exponent, rest) :=
    readExponent_append h.exponent hrest
  have hfraction : readFraction (fractionChars fraction ++ (exponentChars exponent ++ rest)) =
      some (fraction, exponentChars exponent ++ rest) :=
    readFraction_append (fun c hc => hdigits c (List.mem_append_right _ hc))
      (fun c hc => (htail c hc).1) (fun hc => (htail '.' hc).2 rfl)
  have hwhole : readWhole
      (whole ++ (fractionChars fraction ++ (exponentChars exponent ++ rest))) =
        some (whole, fractionChars fraction ++ (exponentChars exponent ++ rest)) :=
    readWhole_append h.whole h.head (fun c hc => hdigits c (List.mem_append_left _ hc))
      (noDigit_fractionChars_append _ fun c hc => (htail c hc).1)
  rw [toList_spelling]
  simp only [List.append_assoc]
  cases negative with
  | true =>
      simp only [signChars, ite_true, List.singleton_append, readNumeral, hwhole, hfraction,
        hexponent, Option.bind_eq_bind, Option.bind_some, Option.pure_def]
  | false =>
      -- A digit comes first, and that is no sign.
      cases whole with
      | nil => exact absurd rfl h.whole
      | cons d ds =>
          have hd : d ≠ '-' := by
            rintro rfl
            have hminus := hdigits '-' (List.mem_cons_self ..)
            revert hminus
            decide
          simp only [List.cons_append] at hwhole
          simp [signChars, readNumeral, hwhole, hfraction, hexponent, hd]

end ExprCheck.Json
