import ExprCheck.Proofs.Json.RoundTrip

/-!
Compact JSON stands on one line: whatever characters its strings have, no control
character is written as itself.
-/

namespace ExprCheck.Json

/-- No character comes before the blank. -/
def IsPrintable (cs : List Char) : Prop :=
  ∀ c ∈ cs, 0x20 ≤ c.toNat

namespace IsPrintable

theorem nil : IsPrintable [] := nofun

theorem cons {c : Char} {cs : List Char} (hc : 0x20 ≤ c.toNat) (h : IsPrintable cs) :
    IsPrintable (c :: cs) :=
  List.forall_mem_cons.mpr ⟨hc, h⟩

theorem append {cs ds : List Char} (hc : IsPrintable cs) (hd : IsPrintable ds) :
    IsPrintable (cs ++ ds) :=
  List.forall_mem_append.mpr ⟨hc, hd⟩

theorem of_all {cs : List Char} (h : cs.all (0x20 ≤ ·.toNat) = true) : IsPrintable cs := by
  simpa [IsPrintable] using h

theorem of_isDigit {cs : List Char} (h : ∀ c ∈ cs, c.isDigit = true) : IsPrintable cs := by
  intro c hc
  have hdigit : 48 ≤ c.toNat ∧ c.toNat ≤ 57 := by
    simpa [Char.isDigit, UInt32.le_iff_toNat_le] using h c hc
  omega

end IsPrintable

/-- The letters that stand for characters behind a backslash. -/
theorem isPrintable_of_unescape? {e c : Char} (h : unescape? e = some c) : 0x20 ≤ e.toNat := by
  unfold unescape? at h
  split at h
  case h_9 => cases h
  all_goals decide

theorem isPrintable_escape (c : Char) : IsPrintable (escape c).toList := by
  rcases escape_cases c with ⟨e, -, he, h⟩ | ⟨hcontrol, h⟩ | ⟨-, -, hcontrol, h⟩
  · rw [h]
    exact .cons (by decide) (.cons (isPrintable_of_unescape? he) .nil)
  · have hhex : ∀ n < 0x20,
        0x20 ≤ (hexDigit (n / 16)).toNat ∧ 0x20 ≤ (hexDigit (n % 16)).toNat := by
      decide
    obtain ⟨hhigh, hlow⟩ := hhex c.toNat hcontrol
    rw [h]
    exact .cons (by decide) (.cons (by decide) (.cons (by decide) (.cons (by decide)
      (.cons hhigh (.cons hlow .nil)))))
  · rw [h]
    exact .cons (Nat.not_lt.mp hcontrol) .nil

theorem isPrintable_escaped (s : String) : IsPrintable (escaped s) := by
  refine .append (fun d hd => ?_) (.cons (by decide) .nil)
  obtain ⟨c, -, hd⟩ := List.mem_flatMap.mp hd
  exact isPrintable_escape c d hd

theorem Numeral.WellFormed.isPrintable_spelling {n : Numeral} (h : n.WellFormed) :
    IsPrintable n.spelling.toList := by
  rw [toList_spelling]
  obtain ⟨hwhole, hfraction⟩ := List.forall_mem_append.mp h.digits
  refine .append ?sign (.append (.of_isDigit hwhole) (.append ?fraction ?exponent))
  case sign =>
    cases n.negative with
    | true => exact .cons (by decide) .nil
    | false => exact .nil
  case fraction =>
    cases hf : n.fraction with
    | nil => exact .nil
    | cons d ds => exact .cons (by decide) (.of_isDigit (hf ▸ hfraction))
  case exponent =>
    cases n.exponent with
    | none => exact .nil
    | some e =>
        have hdigits : IsPrintable (Text.digits e.natAbs) :=
          .of_isDigit fun _ => Text.isDigit_of_mem_digits
        refine .cons (by decide) (.cons ?_ hdigits)
        split <;> decide

theorem isPrintable_itemsChars {vs : List Value} {depth : Nat}
    (h : ∀ v ∈ vs, IsPrintable (v.chars .compact depth)) :
    IsPrintable (itemsChars .compact depth vs) := by
  induction vs with
  | nil => exact .nil
  | cons v vs ih =>
      obtain ⟨hv, hvs⟩ := List.forall_mem_cons.mp h
      rw [itemsChars]
      exact .cons (by decide) (.append .nil (.append hv (ih hvs)))

theorem isPrintable_keyChars (key : String) : IsPrintable (Style.keyChars .compact key) :=
  .cons (by decide) (.append (isPrintable_escaped key) (.cons (by decide) .nil))

theorem isPrintable_fieldsChars {fields : List (String × Value)} {depth : Nat}
    (h : ∀ f ∈ fields, IsPrintable (f.2.chars .compact depth)) :
    IsPrintable (fieldsChars .compact depth fields) := by
  induction fields with
  | nil => exact .nil
  | cons f fields ih =>
      obtain ⟨hf, hfields⟩ := List.forall_mem_cons.mp h
      rw [fieldsChars]
      exact .cons (by decide) (.append .nil
        (.append (isPrintable_keyChars f.1) (.append hf (ih hfields))))

theorem Value.WellFormed.isPrintable_chars {v : Value} (h : v.WellFormed) (depth : Nat) :
    IsPrintable (v.chars .compact depth) := by
  induction h generalizing depth with
  | null =>
      rw [Value.chars]
      exact .of_all (by decide)
  | bool b =>
      cases b with
      | true | false =>
          rw [Value.chars]
          exact .of_all (by decide)
  | number hn => exact hn.isPrintable_spelling
  | string s => exact .cons (by decide) (isPrintable_escaped s)
  | @array vs _ ih =>
      cases vs with
      | nil =>
          rw [Value.chars]
          exact .of_all (by decide)
      | cons v vs =>
          obtain ⟨hv, hvs⟩ := List.forall_mem_cons.mp ih
          rw [Value.chars]
          exact .cons (by decide) (.append .nil (.append (hv _)
            (.append (isPrintable_itemsChars fun v hmem => hvs v hmem _)
              (.append .nil (.cons (by decide) .nil)))))
  | @object fields _ ih =>
      cases fields with
      | nil =>
          rw [Value.chars]
          exact .of_all (by decide)
      | cons f fields =>
          obtain ⟨hf, hfields⟩ := List.forall_mem_cons.mp ih
          rw [Value.chars]
          exact .cons (by decide) (.append .nil (.append (isPrintable_keyChars f.1) (.append (hf _)
            (.append (isPrintable_fieldsChars fun f hmem => hfields f hmem _)
              (.append .nil (.cons (by decide) .nil))))))

/-- A well-formed value is written on one line. -/
theorem Value.WellFormed.isPrintable_compact {v : Value} (h : v.WellFormed) :
    IsPrintable v.compact.toList := by
  rw [Value.compact, toList_write]
  exact h.isPrintable_chars 0

end ExprCheck.Json
