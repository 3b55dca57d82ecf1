import ExprCheck.Json.Reader
import ExprCheck.Json.Writer

/-!
String literals. Whatever characters a string has, reading the literal that was
written for it gives it back and stops behind the closing quote.
-/

namespace ExprCheck.Json

/-- The characters of a string literal behind the opening quote. -/
def escaped (s : String) : List Char :=
  s.toList.flatMap (fun c => (escape c).toList) ++ ['"']

theorem toList_foldl_escape (cs : List Char) (out : String) :
    (cs.foldl (fun out c => out ++ escape c) out).toList =
      out.toList ++ cs.flatMap (fun c => (escape c).toList) := by
  induction cs generalizing out with
  | nil => simp
  | cons c cs ih => rw [List.foldl_cons, ih, String.toList_append, List.append_assoc,
      List.flatMap_cons]

theorem toList_quoteOnto (out s : String) :
    (quoteOnto out s).toList = out.toList ++ '"' :: escaped s := by
  rw [quoteOnto, String.toList_append, toList_foldl_escape, String.toList_append]
  simp [escaped]

/-- A character is escaped by a letter, as a control character by its number, or not at all. -/
theorem escape_cases (c : Char) :
    (∃ e, e ≠ 'u' ∧ unescape? e = some c ∧ (escape c).toList = ['\\', e]) ∨
    (c.toNat < 0x20 ∧ (escape c).toList =
      ['\\', 'u', '0', '0', hexDigit (c.toNat / 16), hexDigit (c.toNat % 16)]) ∨
    (c ≠ '"' ∧ c ≠ '\\' ∧ ¬ c.toNat < 0x20 ∧ (escape c).toList = [c]) := by
  unfold escape
  iterate 7
    split
    case isTrue h =>
      subst h
      exact .inl ⟨_, by decide, rfl, rfl⟩
  split
  case isTrue h => exact .inr (.inl ⟨h, String.toList_ofList⟩)
  case isFalse hquote hslash _ _ _ _ _ hcontrol =>
    exact .inr (.inr ⟨hquote, hslash, hcontrol, String.toList_singleton c⟩)

/-! Reading -/

section Units

variable (units : List Nat) (rest : List Char)

theorem readUnits_letter {e c : Char} (he : e ≠ 'u') (hc : unescape? e = some c) :
    readUnits units ('\\' :: e :: rest) = readUnits (c.toNat :: units) rest := by
  rw [readUnits, hc]
  intro _ _ _ _ _ hu
  exact absurd hu he

theorem readUnits_control {n : Nat} (hn : n < 0x20) :
    readUnits units ('\\' :: 'u' :: '0' :: '0' :: hexDigit (n / 16) :: hexDigit (n % 16) :: rest) =
      readUnits (n :: units) rest := by
  have hhex : ∀ n < 0x20, hex4? '0' '0' (hexDigit (n / 16)) (hexDigit (n % 16)) = some n := by
    decide
  rw [readUnits, hhex n hn]

theorem readUnits_plain {c : Char} (hquote : c ≠ '"') (hslash : c ≠ '\\')
    (hcontrol : ¬ c.toNat < 0x20) :
    readUnits units (c :: rest) = readUnits (c.toNat :: units) rest := by
  rw [readUnits.eq_def]
  simp [hslash, hcontrol]

theorem readUnits_escape (c : Char) :
    readUnits units ((escape c).toList ++ rest) = readUnits (c.toNat :: units) rest := by
  rcases escape_cases c with ⟨e, he, hc, h⟩ | ⟨hcontrol, h⟩ | ⟨hquote, hslash, hcontrol, h⟩
  · rw [h]
    exact readUnits_letter units rest he hc
  · rw [h]
    exact readUnits_control units rest hcontrol
  · rw [h]
    exact readUnits_plain units rest hquote hslash hcontrol

theorem readUnits_flatMap_escape (cs : List Char) :
    readUnits units (cs.flatMap (fun c => (escape c).toList) ++ '"' :: rest) =
      some (cs.reverse.map Char.toNat ++ units, rest) := by
  induction cs generalizing units with
  | nil => rfl
  | cons c cs ih =>
      rw [List.flatMap_cons, List.append_assoc, readUnits_escape, ih]
      simp

end Units

/-! Joining -/

theorem not_isHalf (c : Char) : isLowHalf c.toNat = false ∧ isHighHalf c.toNat = false := by
  have hv : c.toNat < 0xD800 ∨ 0xDFFF < c.toNat ∧ c.toNat < 0x110000 := c.valid
  simp only [isLowHalf, isHighHalf, Bool.and_eq_false_iff, decide_eq_false_iff_not]
  omega

theorem joinUnits_cons (c : Char) (chars : List Char) (units : List Nat) :
    joinUnits chars (c.toNat :: units) = joinUnits (c :: chars) units := by
  obtain ⟨hlow, hhigh⟩ := not_isHalf c
  cases units with
  | nil => simp [joinUnits, hlow, hhigh, Char.ofNat_toNat]
  | cons n units => simp [joinUnits, hlow, hhigh, Char.ofNat_toNat]

theorem joinUnits_map_toNat (cs chars : List Char) :
    joinUnits chars (cs.map Char.toNat) = some (cs.reverse ++ chars) := by
  induction cs generalizing chars with
  | nil => rfl
  | cons c cs ih =>
      rw [List.map_cons, joinUnits_cons, ih]
      simp

theorem readString_escaped (s : String) (rest : List Char) :
    readString (escaped s ++ rest) = some (some s, rest) := by
  have hunits : readUnits [] (escaped s ++ rest) =
      some (s.toList.reverse.map Char.toNat, rest) := by
    rw [escaped, List.append_assoc, List.singleton_append, readUnits_flatMap_escape,
      List.append_nil]
  have hchars : joinUnits [] (s.toList.reverse.map Char.toNat) = some s.toList := by
    rw [joinUnits_map_toNat, List.reverse_reverse, List.append_nil]
  simp only [readString, hunits, hchars, Option.map_some, String.ofList_toList]

end ExprCheck.Json
