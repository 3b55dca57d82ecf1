import ExprCheck.Proofs.Text.Decimal
import ExprCheck.Toml.Reader

/-!
Values as they are written at their plainest: truth values and numbers as words, strings
between quotes without an escape. Each is read back, and reading stops at the end of its line.
-/

namespace ExprCheck.Toml

/-- The plainest form of a value; only values without structure have one. -/
def Item.spelling : Item → List Char
  | boolean true => ['t', 'r', 'u', 'e']
  | boolean false => ['f', 'a', 'l', 's', 'e']
  | integer n => Text.digits n.toNat
  | string s => '"' :: (s.toList ++ ['"'])
  | _ => []

/-- The values whose plainest form stands for them. -/
def Item.IsPlain : Item → Prop
  | boolean _ => True
  | integer n => 0 ≤ n ∧ n < Number.signedBound
  | string s => s ≠ "" ∧ ∀ c ∈ s.toList, isPrintable c = true ∧ c ≠ '"' ∧ c ≠ '\\'
  | _ => False

/-! Characters of a kind -/

section Kind

variable {p : Char → Bool} {d : Char} (hd : p d = false)
include hd

theorem ne_of_kind {c : Char} (hc : p c = true) : c ≠ d := by
  rintro rfl
  rw [hc] at hd
  cases hd

theorem takeWhile_kind {w : List Char} (hw : ∀ c ∈ w, p c = true) (rest : List Char) :
    (w ++ d :: rest).takeWhile p = w := by
  rw [List.takeWhile_append_of_pos hw, List.takeWhile_cons_of_neg (by simp [hd]), List.append_nil]

theorem dropWhile_kind {w : List Char} (hw : ∀ c ∈ w, p c = true) (rest : List Char) :
    (w ++ d :: rest).dropWhile p = d :: rest := by
  rw [List.dropWhile_append_of_pos hw, List.dropWhile_cons_of_neg (by simp [hd])]

end Kind

/-! Words -/

theorem isSpaced_of_digits {ds : List Char} (hds : ∀ c ∈ ds, c.isDigit = true)
    (afterDigit : Bool) (h : afterDigit = true ∨ ds ≠ []) :
    isSpaced Char.isDigit afterDigit ds = true := by
  induction ds generalizing afterDigit with
  | nil => exact h.elim id fun hne => absurd rfl hne
  | cons c ds ih =>
      rw [isSpaced, if_pos (hds c (List.mem_cons_self ..))]
      exact ih (fun d hd => hds d (List.mem_cons_of_mem _ hd)) true (.inl rfl)

theorem decimalDigits?_digits (n : Nat) :
    decimalDigits? (Text.digits n) = some (Text.digits n) := by
  have hds : ∀ c ∈ Text.digits n, c.isDigit = true := fun c => Text.isDigit_of_mem_digits
  have hspaced := isSpaced_of_digits hds false (.inr (Text.digits_ne_nil n))
  have hkept : (Text.digits n).filter (· ≠ '_') = Text.digits n := by
    rw [List.filter_eq_self]
    intro c hc
    simpa using ne_of_kind (by decide : ('_').isDigit = false) (hds c hc)
  have hhead : (Text.digits n).head? ≠ some '0' ∨ (Text.digits n).length = 1 :=
    (Text.digits_head n).imp_right fun h => by rw [h]; rfl
  rw [decimalDigits?, spacedDigits?, if_pos hspaced, hkept, Option.filter_some, if_pos]
  simpa using hhead

theorem splitSign_digits (n : Nat) : splitSign (Text.digits n) = (false, Text.digits n) := by
  have hds : ∀ c ∈ Text.digits n, c.isDigit = true := fun c => Text.isDigit_of_mem_digits
  unfold splitSign
  split
  · next h => exact absurd (hds '-' (by simp [h])) (by decide)
  · next h => exact absurd (hds '+' (by simp [h])) (by decide)
  · rfl

theorem integer?_digits {n : Nat} (h : n < Number.signedBound) :
    integer? (Text.digits n) = some (n : Int) := by
  have hds : ∀ c ∈ Text.digits n, c.isDigit = true := fun c => Text.isDigit_of_mem_digits
  have hword : n < Number.wordBound := Nat.lt_trans h (by decide)
  have hdecimal : decimalNumber? (Text.digits n) = some (n : Int) := by
    rw [decimalNumber?, splitSign_digits]
    simp only [decimalDigits?_digits, Option.map_some, Bool.false_eq_true, ite_false]
    rw [Text.cappedDecimal_of_lt _ (by rwa [Text.decimal_digits]), Text.decimal_digits]
  unfold integer?
  split
  -- The letter of another base would be a digit.
  · next hx => exact absurd (hds 'x' (by simp [hx])) (by decide)
  · next ho => exact absurd (hds 'o' (by simp [ho])) (by decide)
  · next hb => exact absurd (hds 'b' (by simp [hb])) (by decide)
  · rw [hdecimal, Option.filter_some, if_pos]
    simp only [decide_eq_true_eq]
    omega

theorem word?_digits {n : Nat} (h : n < Number.signedBound) :
    word? (Text.digits n) = some (.integer n) := by
  have hds : ∀ c ∈ Text.digits n, c.isDigit = true := fun c => Text.isDigit_of_mem_digits
  have htrue : Text.digits n ≠ "true".toList := fun he =>
    absurd (hds 't' (by simp [he])) (by decide)
  have hfalse : Text.digits n ≠ "false".toList := fun he =>
    absurd (hds 'f' (by simp [he])) (by decide)
  rw [word?, if_neg htrue, if_neg hfalse, integer?_digits h]

theorem readWord_line {w : List Char} (hw : ∀ c ∈ w, isWordChar c = true) (rest : List Char) :
    readWord (w ++ '\n' :: rest) = (word? w).map (·, '\n' :: rest) := by
  have hline : isWordChar '\n' = false := by decide
  rw [readWord, takeWhile_kind hline hw, dropWhile_kind hline hw]
  rfl

theorem readValue_word {w : List Char} (hne : w ≠ []) (hw : ∀ c ∈ w, isWordChar c = true)
    (bound room : Nat) (rest : List Char) :
    readValue bound (room + 1) (w ++ '\n' :: rest) = (word? w).map (·, '\n' :: rest) := by
  rw [← readWord_line hw]
  obtain ⟨c, cs, rfl⟩ := List.exists_cons_of_ne_nil hne
  have hc : isWordChar c = true := hw c (List.mem_cons_self ..)
  simp only [List.cons_append]
  rw [readValue, readScalar]
  all_goals
    intro ds hds
    refine ne_of_kind ?_ hc (List.cons.inj hds).1
    decide

/-! Strings -/

theorem readBasic_plain {s : List Char}
    (hs : ∀ c ∈ s, isPrintable c = true ∧ c ≠ '"' ∧ c ≠ '\\') {bound : Nat}
    (hb : s.length < bound) (done rest : List Char) :
    readBasic bound done (s ++ '"' :: rest) = some (String.ofList (done.reverse ++ s), rest) := by
  induction s generalizing bound done with
  | nil =>
      obtain ⟨n, rfl⟩ := Nat.exists_eq_succ_of_ne_zero (Nat.ne_of_gt hb)
      simp [readBasic]
  | cons c s ih =>
      obtain ⟨n, rfl⟩ := Nat.exists_eq_succ_of_ne_zero (Nat.ne_of_gt (Nat.zero_lt_of_lt hb))
      obtain ⟨hp, hq, hbs⟩ := hs c (List.mem_cons_self ..)
      rw [List.cons_append, readBasic, if_neg hq, if_neg hbs, if_pos hp,
        ih (fun d hd => hs d (List.mem_cons_of_mem _ hd)) (Nat.lt_of_succ_lt_succ hb)]
      simp

theorem readValue_string {s : List Char} (hne : s ≠ [])
    (hs : ∀ c ∈ s, isPrintable c = true ∧ c ≠ '"' ∧ c ≠ '\\') {bound : Nat}
    (hb : s.length < bound) (room : Nat) (rest : List Char) :
    readValue bound (room + 1) ('"' :: (s ++ '"' :: rest)) =
      some (.string (String.ofList s), rest) := by
  obtain ⟨c, cs, rfl⟩ := List.exists_cons_of_ne_nil hne
  have hread := readBasic_plain hs hb [] rest
  have hc : c ≠ '"' := (hs c (List.mem_cons_self ..)).2.1
  have hquoted : readQuoted bound ('"' :: c :: (cs ++ '"' :: rest)) =
      readBasic bound [] (c :: (cs ++ '"' :: rest)) := by
    rw [readQuoted]
    rintro ds hds
    exact hc (List.cons.inj hds).1
  change (readQuoted bound ('"' :: c :: (cs ++ '"' :: rest))).map _ = _
  rw [hquoted, ← List.cons_append, hread]
  rfl

theorem Item.IsPlain.skipSpace_spelling {item : Item} (h : item.IsPlain) (rest : List Char) :
    skipSpace (item.spelling ++ rest) = item.spelling ++ rest := by
  have hhead : ∃ c cs, item.spelling = c :: cs ∧ isSpace c = false := by
    cases item with
    | boolean b => cases b <;> exact ⟨_, _, rfl, by decide⟩
    | integer n =>
        obtain ⟨c, cs, hds⟩ := List.exists_cons_of_ne_nil (Text.digits_ne_nil n.toNat)
        have hc : c.isDigit = true := Text.isDigit_of_mem_digits (n := n.toNat) (by simp [hds])
        refine ⟨c, cs, hds, ?_⟩
        simp [isSpace, ne_of_kind (by decide : (' ').isDigit = false) hc,
          ne_of_kind (by decide : ('\t').isDigit = false) hc]
    | string s => exact ⟨'"', _, rfl, by decide⟩
    | _ => exact h.elim
  obtain ⟨c, cs, hspelling, hc⟩ := hhead
  rw [hspelling, List.cons_append, skipSpace, List.dropWhile_cons_of_neg (by simp [hc])]

/-- A plain value is read back from its line. -/
theorem Item.IsPlain.readValue_spelling {item : Item} (h : item.IsPlain) {bound : Nat}
    (hb : item.spelling.length ≤ bound) (room : Nat) (rest : List Char) :
    readValue bound (room + 1) (item.spelling ++ '\n' :: rest) = some (item, '\n' :: rest) := by
  cases item with
  | boolean b =>
      cases b with
      | true =>
          exact readValue_word (by decide) (List.all_eq_true.mp (by decide)) bound room rest
      | false =>
          exact readValue_word (by decide) (List.all_eq_true.mp (by decide)) bound room rest
  | integer n =>
      obtain ⟨hn, hlt⟩ := h
      obtain ⟨k, rfl⟩ := Int.eq_ofNat_of_zero_le hn
      have hword : ∀ c ∈ Text.digits k, isWordChar c = true := fun c hc => by
        simp [isWordChar, Char.isAlphanum, Text.isDigit_of_mem_digits hc]
      have hread := readValue_word (Text.digits_ne_nil k) hword bound room rest
      rwa [word?_digits (by exact_mod_cast hlt)] at hread
  | string s =>
      obtain ⟨hne, hs⟩ := h
      have hlen : s.toList.length < bound := by
        simp only [spelling, List.length_cons, List.length_append, List.length_nil] at hb
        omega
      have hread := readValue_string (by simpa using hne) hs hlen room ('\n' :: rest)
      simpa [spelling] using hread
  | _ => exact h.elim

end ExprCheck.Toml
