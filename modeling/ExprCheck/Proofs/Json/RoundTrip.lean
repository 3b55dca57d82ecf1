import ExprCheck.Proofs.Json.Numerals
import ExprCheck.Proofs.Json.Strings

/-!
Reading undoes writing. The characters that a value is written as are given by
recursion on it; in front of any text that ends a number they are read back as
the value, and what follows is left. Blanks stand only where the reader skips them.
-/

namespace ExprCheck.Json

/-! ## The characters of a value -/

def Style.breakChars (style : Style) (depth : Nat) : List Char :=
  (style.lineBreak depth).toList

/-- The characters of a field up to its value. -/
def Style.keyChars (style : Style) (key : String) : List Char :=
  '"' :: (escaped key ++ style.colon.toList)

mutual

/-- The characters of a value that is `depth` levels deep. -/
def Value.chars (style : Style) (depth : Nat) : Value → List Char
  | .null => ['n', 'u', 'l', 'l']
  | .bool true => ['t', 'r', 'u', 'e']
  | .bool false => ['f', 'a', 'l', 's', 'e']
  | .number n => n.spelling.toList
  | .string s => '"' :: escaped s
  | .array [] => ['[', ']']
  | .array (v :: vs) =>
    '[' :: (style.breakChars (depth + 1) ++ (v.chars style (depth + 1)
      ++ (itemsChars style (depth + 1) vs ++ (style.breakChars depth ++ [']']))))
  | .object [] => ['\x7b', '\x7d']
  | .object ((k, v) :: fields) =>
    '\x7b' :: (style.breakChars (depth + 1) ++ (style.keyChars k ++ (v.chars style (depth + 1)
      ++ (fieldsChars style (depth + 1) fields ++ (style.breakChars depth ++ ['\x7d'])))))
  | .garbled => ['"', '\\', 'u', 'd', '8', '0', '0', '"']

/-- The characters of further items, each after a comma. -/
def itemsChars (style : Style) (depth : Nat) : List Value → List Char
  | [] => []
  | v :: vs =>
    ',' :: (style.breakChars depth ++ (v.chars style depth ++ itemsChars style depth vs))

/-- The characters of further fields, each after a comma. -/
def fieldsChars (style : Style) (depth : Nat) : List (String × Value) → List Char
  | [] => []
  | (k, v) :: fields =>
    ',' :: (style.breakChars depth ++ (style.keyChars k
      ++ (v.chars style depth ++ fieldsChars style depth fields)))

end

mutual

theorem toList_writeOnto (style : Style) (depth : Nat) (out : String) (v : Value) :
    (writeOnto style depth out v).toList = out.toList ++ v.chars style depth := by
  match v with
  | .null | .bool true | .bool false | .number _ | .array [] | .object [] | .garbled =>
      simp [writeOnto, Value.chars]
  | .string s =>
      rw [writeOnto, toList_quoteOnto]
      rfl
  | .array (v :: vs) =>
      rw [writeOnto, String.toList_append, String.toList_append, toList_writeItems,
        toList_writeOnto]
      simp [Value.chars, Style.breakChars]
  | .object ((k, v) :: fields) =>
      rw [writeOnto, String.toList_append, String.toList_append, toList_writeFields,
        toList_writeOnto, String.toList_append, toList_quoteOnto]
      simp [Value.chars, Style.breakChars, Style.keyChars]

theorem toList_writeItems (style : Style) (depth : Nat) (out : String) (vs : List Value) :
    (writeItems style depth out vs).toList = out.toList ++ itemsChars style depth vs := by
  match vs with
  | [] => simp [writeItems, itemsChars]
  | v :: vs =>
      rw [writeItems, toList_writeItems, toList_writeOnto]
      simp [itemsChars, Style.breakChars]

theorem toList_writeFields (style : Style) (depth : Nat) (out : String)
    (fields : List (String × Value)) :
    (writeFields style depth out fields).toList = out.toList ++ fieldsChars style depth fields := by
  match fields with
  | [] => simp [writeFields, fieldsChars]
  | (k, v) :: fields =>
      rw [writeFields, toList_writeFields, toList_writeOnto, String.toList_append,
        toList_quoteOnto]
      simp [fieldsChars, Style.breakChars, Style.keyChars]

end

theorem toList_write (style : Style) (v : Value) : (v.write style).toList = v.chars style 0 := by
  rw [Value.write, toList_writeOnto]
  rfl

/-! ## Reading them -/

theorem skipBlanks_append {bs : List Char} (h : ∀ c ∈ bs, isBlank c = true) (cs : List Char) :
    skipBlanks (bs ++ cs) = skipBlanks cs :=
  List.dropWhile_append_of_pos h

theorem skipBlanks_cons {c : Char} (h : isBlank c = false) (cs : List Char) :
    skipBlanks (c :: cs) = c :: cs := by
  simp [skipBlanks, h]

theorem Style.breakChars_pretty (depth : Nat) :
    pretty.breakChars depth = '\n' :: List.replicate (2 * depth) ' ' := by
  simp [breakChars, lineBreak]

theorem Style.isBlank_of_mem_breakChars {style : Style} {depth : Nat} {c : Char}
    (h : c ∈ style.breakChars depth) : isBlank c = true := by
  cases style with
  | compact => cases h
  | pretty =>
      rw [breakChars_pretty] at h
      rcases List.mem_cons.mp h with rfl | h
      · rfl
      · rw [List.eq_of_mem_replicate h]
        rfl

theorem Style.colon_eq (style : Style) :
    ∃ bs, style.colon.toList = ':' :: bs ∧ ∀ c ∈ bs, isBlank c = true := by
  cases style with
  | compact => exact ⟨[], rfl, by simp⟩
  | pretty => exact ⟨[' '], rfl, by simp [isBlank]⟩

/-- What follows an item or a field may stand behind a number. -/
theorem endsNumber_breakChars (style : Style) (depth : Nat) {c : Char} (cs : List Char)
    (hc : c = ']' ∨ c = '\x7d') : EndsNumber (style.breakChars depth ++ c :: cs) := by
  cases style with
  | compact =>
      rintro d ⟨⟩
      rcases hc with rfl | rfl <;> decide
  | pretty =>
      rw [Style.breakChars_pretty]
      rintro d ⟨⟩
      decide

theorem endsNumber_comma (cs : List Char) : EndsNumber (',' :: cs) := by
  rintro c ⟨⟩
  decide

section Blanks

variable {bs : List Char} (h : ∀ c ∈ bs, isBlank c = true) (fuel : Nat) (cs : List Char)
include h

theorem readValue_append_of_blank : readValue fuel (bs ++ cs) = readValue fuel cs := by
  cases fuel with
  | zero => rfl
  | succ fuel => rw [readValue, readValue, skipBlanks_append h]

theorem readItems_append_of_blank (items : List Value) :
    readItems fuel items (bs ++ cs) = readItems fuel items cs := by
  cases fuel with
  | zero => rfl
  | succ fuel => rw [readItems, readItems, readValue_append_of_blank h]

theorem readFields_append_of_blank (fields : List (Option String × Value)) :
    readFields fuel fields (bs ++ cs) = readFields fuel fields cs := by
  cases fuel with
  | zero => rfl
  | succ fuel => rw [readFields, readFields, skipBlanks_append h]

end Blanks

/-- The values that JSON tells: their numbers are written as it requires, and all
their strings spell a text. -/
inductive Value.WellFormed : Value → Prop where
  | null : WellFormed .null
  | bool (b : Bool) : WellFormed (.bool b)
  | number {n : Numeral} : n.WellFormed → WellFormed (.number n)
  | string (s : String) : WellFormed (.string s)
  | array {vs : List Value} : (∀ v ∈ vs, WellFormed v) → WellFormed (.array vs)
  | object {fields : List (String × Value)} :
      (∀ f ∈ fields, WellFormed f.2) → WellFormed (.object fields)

/-- Wherever it stands, the value is read from its characters with two units of
fuel for each, and what follows is left. -/
def Value.ReadsBack (style : Style) (v : Value) : Prop :=
  ∀ depth fuel rest, EndsNumber rest → 2 * (v.chars style depth).length ≤ fuel →
    readValue fuel (v.chars style depth ++ rest) = some (v, rest)

section Numeral

variable {c : Char} (hc : c = '-' ∨ c.isDigit = true)
include hc

theorem ne_of_begins_numeral {d : Char} (hminus : d ≠ '-') (hdigit : d.isDigit = false) :
    c ≠ d := by
  rintro rfl
  rcases hc with hc | hc
  · exact hminus hc
  · rw [hdigit] at hc
    cases hc

theorem not_isBlank_of_begins_numeral : isBlank c = false := by
  simp only [isBlank, Bool.or_eq_false_iff, beq_eq_false_iff_ne]
  refine ⟨⟨⟨?_, ?_⟩, ?_⟩, ?_⟩
  all_goals exact ne_of_begins_numeral hc (by decide) (by decide)

theorem readValue_numeral (fuel : Nat) (cs : List Char) :
    readValue (fuel + 1) (c :: cs) =
      (readNumeral (c :: cs)).map fun (n, cs) => (.number n, cs) := by
  rw [readValue, skipBlanks_cons (not_isBlank_of_begins_numeral hc)]
  split
  case h_1 h | h_2 h | h_3 h | h_4 h | h_5 h | h_6 h =>
    exact absurd (List.cons.inj h).1 (ne_of_begins_numeral hc (by decide) (by decide))
  case h_7 => rfl

end Numeral

/-! Arrays and objects -/

section Brackets

variable {bs : List Char} (hbs : ∀ c ∈ bs, isBlank c = true) (fuel : Nat) (cs : List Char)
include hbs

theorem readValue_bracket {c : Char} (hblank : isBlank c = false) (hc : c ≠ ']') :
    readValue (fuel + 1) ('[' :: (bs ++ c :: cs)) = readItems fuel [] (c :: cs) := by
  rw [readValue, skipBlanks_cons (by decide)]
  simp only [skipBlanks_append hbs, skipBlanks_cons hblank]
  split
  case h_1 h => exact absurd (List.cons.inj h).1 hc
  case h_2 => rfl

theorem readValue_brace :
    readValue (fuel + 1) ('\x7b' :: (bs ++ '"' :: cs)) = readFields fuel [] ('"' :: cs) := by
  rw [readValue, skipBlanks_cons (by decide)]
  simp only [skipBlanks_append hbs, skipBlanks_cons (by decide : isBlank '"' = false)]
  rfl

end Brackets

section Items

variable {style : Style} {depth fuel : Nat}

theorem skipBlanks_breakChars (cs : List Char) {c : Char} (hc : isBlank c = false) :
    skipBlanks (style.breakChars depth ++ c :: cs) = c :: cs := by
  rw [skipBlanks_append fun _ => Style.isBlank_of_mem_breakChars, skipBlanks_cons hc]

theorem readItems_chars {v : Value} {vs items : List Value} (outer : Nat) (rest : List Char)
    (hv : v.ReadsBack style) (hvs : ∀ u ∈ vs, u.ReadsBack style)
    (hfuel : 2 * (v.chars style depth ++ itemsChars style depth vs).length + 1 ≤ fuel) :
    readItems fuel items (v.chars style depth
        ++ (itemsChars style depth vs ++ (style.breakChars outer ++ ']' :: rest))) =
      some (.array (items.reverse ++ v :: vs), rest) := by
  obtain ⟨fuel, rfl⟩ : ∃ n, fuel = n + 1 := ⟨fuel - 1, by omega⟩
  rw [List.length_append] at hfuel
  induction vs generalizing v items fuel with
  | nil =>
      rw [itemsChars, List.nil_append, readItems, hv depth fuel _
        (endsNumber_breakChars style outer rest (.inl rfl)) (by omega)]
      simp only [skipBlanks_breakChars rest (by decide : isBlank ']' = false), List.reverse_cons]
  | cons u us ih =>
      rw [itemsChars, List.length_cons, List.length_append, List.length_append] at hfuel
      obtain ⟨fuel, rfl⟩ : ∃ n, fuel = n + 1 := ⟨fuel - 1, by omega⟩
      simp only [itemsChars, List.cons_append, List.append_assoc]
      rw [readItems, hv depth (fuel + 1) _ (endsNumber_comma _) (by omega)]
      simp only [skipBlanks_cons (by decide : isBlank ',' = false)]
      rw [readItems_append_of_blank fun _ => Style.isBlank_of_mem_breakChars,
        ih (hvs u (List.mem_cons_self ..)) (fun w hw => hvs w (List.mem_cons_of_mem _ hw))
          fuel (by omega)]
      simp

section Field

variable {k : String} {v : Value} {rest cs : List Char} (done : List (Option String × Value))
  (hv : v.ReadsBack style) (hrest : EndsNumber rest)
  (hfuel : 2 * (v.chars style depth).length ≤ fuel)
include hv hrest hfuel

theorem readFields_comma (hskip : skipBlanks rest = ',' :: cs) :
    readFields (fuel + 1) done (style.keyChars k ++ (v.chars style depth ++ rest)) =
      readFields fuel ((some k, v) :: done) cs := by
  obtain ⟨bs, hcolon, hbs⟩ := style.colon_eq
  rw [readFields, Style.keyChars, List.cons_append, skipBlanks_cons (by decide)]
  simp only [List.append_assoc, readString_escaped, hcolon, List.cons_append,
    skipBlanks_cons (by decide : isBlank ':' = false), readValue_append_of_blank hbs,
    hv depth fuel rest hrest hfuel, hskip]

theorem readFields_brace (hskip : skipBlanks rest = '\x7d' :: cs) :
    readFields (fuel + 1) done (style.keyChars k ++ (v.chars style depth ++ rest)) =
      some (.ofFields ((some k, v) :: done).reverse, cs) := by
  obtain ⟨bs, hcolon, hbs⟩ := style.colon_eq
  rw [readFields, Style.keyChars, List.cons_append, skipBlanks_cons (by decide)]
  simp only [List.append_assoc, readString_escaped, hcolon, List.cons_append,
    skipBlanks_cons (by decide : isBlank ':' = false), readValue_append_of_blank hbs,
    hv depth fuel rest hrest hfuel, hskip]

end Field

theorem readFields_chars {k : String} {v : Value} {fields : List (String × Value)}
    {done : List (Option String × Value)} (outer : Nat) (rest : List Char)
    (hv : v.ReadsBack style) (hfields : ∀ f ∈ fields, f.2.ReadsBack style)
    (hfuel : 2 * (v.chars style depth ++ fieldsChars style depth fields).length + 1 ≤ fuel) :
    readFields fuel done (style.keyChars k ++ (v.chars style depth
        ++ (fieldsChars style depth fields ++ (style.breakChars outer ++ '\x7d' :: rest)))) =
      some (.ofFields (done.reverse ++ ((k, v) :: fields).map fun f => (some f.1, f.2)), rest) := by
  obtain ⟨fuel, rfl⟩ : ∃ n, fuel = n + 1 := ⟨fuel - 1, by omega⟩
  rw [List.length_append] at hfuel
  induction fields generalizing k v done fuel with
  | nil =>
      rw [fieldsChars, List.nil_append, readFields_brace done hv
        (endsNumber_breakChars style outer rest (.inr rfl)) (by omega)
        (skipBlanks_breakChars rest (by decide))]
      simp
  | cons f fields ih =>
      obtain ⟨l, u⟩ := f
      have hu : u.ReadsBack style := hfields (l, u) (List.mem_cons_self ..)
      rw [fieldsChars, List.length_cons, List.length_append, List.length_append,
        List.length_append] at hfuel
      obtain ⟨fuel, rfl⟩ : ∃ n, fuel = n + 1 := ⟨fuel - 1, by omega⟩
      simp only [fieldsChars, List.cons_append, List.append_assoc]
      rw [readFields_comma done hv (endsNumber_comma _) (by omega)
          (skipBlanks_cons (by decide) _),
        readFields_append_of_blank fun _ => Style.isBlank_of_mem_breakChars,
        ih hu (fun g hg => hfields g (List.mem_cons_of_mem _ hg)) fuel (by omega)]
      simp

end Items

namespace Value

theorem ofFields_some (fields : List (String × Value)) :
    ofFields (fields.map fun f => (some f.1, f.2)) = .object fields := by
  have hkeys : (fields.map fun f => (some f.1, f.2)).mapM
      (fun (f : Option String × Value) => f.1.map (·, f.2)) = some fields := by
    induction fields with
    | nil => rfl
    | cons f fields ih => simp [List.mapM_cons, ih]
  simp only [ofFields, hkeys]

/-- A value does not begin with a blank, and not as an array or an object ends. -/
theorem WellFormed.head {v : Value} (h : v.WellFormed) (style : Style) (depth : Nat) :
    ∃ c cs, v.chars style depth = c :: cs ∧ isBlank c = false ∧ c ≠ ']' := by
  cases h with
  | null => exact ⟨_, _, rfl, by decide, by decide⟩
  | bool b =>
      cases b with
      | false => exact ⟨_, _, rfl, by decide, by decide⟩
      | true => exact ⟨_, _, rfl, by decide, by decide⟩
  | string s => exact ⟨_, _, rfl, by decide, by decide⟩
  | @array vs _ =>
      cases vs with
      | nil => exact ⟨_, _, rfl, by decide, by decide⟩
      | cons v vs => exact ⟨_, _, rfl, by decide, by decide⟩
  | @object fields _ =>
      cases fields with
      | nil => exact ⟨_, _, rfl, by decide, by decide⟩
      | cons f fields => exact ⟨_, _, rfl, by decide, by decide⟩
  | number hn =>
      obtain ⟨c, cs, hcs, hc⟩ := hn.head_spelling
      exact ⟨c, cs, hcs, not_isBlank_of_begins_numeral hc,
        ne_of_begins_numeral hc (by decide) (by decide)⟩

theorem WellFormed.readsBack_of_succ {v : Value} (h : v.WellFormed) {style : Style}
    (hread : ∀ depth fuel rest, EndsNumber rest → 2 * (v.chars style depth).length ≤ fuel + 1 →
      readValue (fuel + 1) (v.chars style depth ++ rest) = some (v, rest)) :
    v.ReadsBack style := by
  intro depth fuel rest hrest hfuel
  obtain ⟨c, cs, hcs, _⟩ := h.head style depth
  cases fuel with
  | zero =>
      rw [hcs, List.length_cons] at hfuel
      omega
  | succ fuel => exact hread depth fuel rest hrest hfuel

theorem WellFormed.readsBack_array {vs : List Value} (hvs : ∀ v ∈ vs, v.WellFormed)
    {style : Style} (ih : ∀ v ∈ vs, v.ReadsBack style) : (Value.array vs).ReadsBack style := by
  refine (WellFormed.array hvs).readsBack_of_succ fun depth fuel rest _ hfuel => ?_
  cases vs with
  | nil =>
      rw [readValue]
      rfl
  | cons v vs =>
      obtain ⟨c, cs, hcs, hblank, hc⟩ := (hvs v (List.mem_cons_self ..)).head style (depth + 1)
      have hitems : readItems fuel [] (v.chars style (depth + 1)
          ++ (itemsChars style (depth + 1) vs ++ (style.breakChars depth ++ ']' :: rest))) =
            some (.array (v :: vs), rest) := by
        simp only [chars, List.length_cons, List.length_append] at hfuel
        refine readItems_chars depth rest (ih v (List.mem_cons_self ..))
          (fun u hu => ih u (List.mem_cons_of_mem _ hu)) ?_
        rw [List.length_append]
        omega
      rw [hcs, List.cons_append] at hitems
      simp only [chars, List.cons_append, List.append_assoc, List.nil_append, hcs]
      rw [readValue_bracket (fun _ => Style.isBlank_of_mem_breakChars) fuel _ hblank hc, hitems]

theorem WellFormed.readsBack_object {fields : List (String × Value)}
    (hfields : ∀ f ∈ fields, f.2.WellFormed) {style : Style}
    (ih : ∀ f ∈ fields, f.2.ReadsBack style) : (Value.object fields).ReadsBack style := by
  refine (WellFormed.object hfields).readsBack_of_succ fun depth fuel rest _ hfuel => ?_
  cases fields with
  | nil =>
      rw [readValue]
      rfl
  | cons f fields =>
      obtain ⟨k, v⟩ := f
      have hread : readFields fuel [] (style.keyChars k ++ (v.chars style (depth + 1)
          ++ (fieldsChars style (depth + 1) fields
            ++ (style.breakChars depth ++ '\x7d' :: rest)))) =
            some (.ofFields (((k, v) :: fields).map fun f => (some f.1, f.2)), rest) := by
        simp only [chars, List.length_cons, List.length_append] at hfuel
        refine readFields_chars depth rest (ih (k, v) (List.mem_cons_self ..))
          (fun g hg => ih g (List.mem_cons_of_mem _ hg)) ?_
        rw [List.length_append]
        omega
      rw [ofFields_some, Style.keyChars, List.cons_append] at hread
      simp only [chars, Style.keyChars, List.cons_append, List.append_assoc, List.nil_append]
      rw [readValue_brace fun _ => Style.isBlank_of_mem_breakChars]
      simpa only [List.append_assoc] using hread

/-- A well-formed value is read back, in either style. -/
theorem WellFormed.readsBack {v : Value} (h : v.WellFormed) (style : Style) :
    v.ReadsBack style := by
  induction h with
  | null =>
      refine WellFormed.null.readsBack_of_succ fun depth fuel rest _ _ => ?_
      rw [readValue]
      rfl
  | bool b =>
      refine (WellFormed.bool b).readsBack_of_succ fun depth fuel rest _ _ => ?_
      rw [readValue]
      cases b <;> rfl
  | @number n hn =>
      refine (WellFormed.number hn).readsBack_of_succ fun depth fuel rest hrest _ => ?_
      obtain ⟨c, cs, hcs, hc⟩ := hn.head_spelling
      have hread : readNumeral (c :: (cs ++ rest)) = some (n, rest) := by
        rw [← List.cons_append, ← hcs]
        exact readNumeral_spelling hn hrest
      rw [chars, hcs, List.cons_append, readValue_numeral hc, hread]
      rfl
  | string s =>
      refine (WellFormed.string s).readsBack_of_succ fun depth fuel rest _ _ => ?_
      rw [chars, List.cons_append, readValue, skipBlanks_cons (by decide)]
      simp only [readString_escaped]
  | array hvs ih => exact readsBack_array hvs ih
  | object hfields ih => exact readsBack_object hfields ih

end Value

theorem parse?_write {v : Value} (h : v.WellFormed) (style : Style) :
    parse? (v.write style) = some v := by
  have hread : readValue (2 * (v.chars style 0).length + 2) (v.chars style 0) = some (v, []) := by
    have hrest : EndsNumber [] := by simp [EndsNumber]
    simpa using h.readsBack style 0 (2 * (v.chars style 0).length + 2) [] hrest (by omega)
  simp only [parse?, toList_write, hread]
  rfl

end ExprCheck.Json
