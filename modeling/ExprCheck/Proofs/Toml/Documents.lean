import ExprCheck.Proofs.Toml.Values

/-!
Documents of plain lines: a header, a pair of a bare name and a plain value, or nothing.
Reading such a document gathers the pairs under their headers and puts the tables together.
-/

namespace ExprCheck.Toml

/-- A name that needs no quotes. -/
def IsBare (name : String) : Prop :=
  name ≠ "" ∧ ∀ c ∈ name.toList, isBareChar c = true

instance (name : String) : Decidable (IsBare name) :=
  decidable_of_iff (name ≠ "" ∧ name.toList.all isBareChar = true)
    (and_congr_right fun _ => List.all_eq_true)

inductive Line where
  | blank
  | header (name : String)
  | pair (name : String) (item : Item)

namespace Line

def text : Line → List Char
  | blank => ['\n']
  | header name => '[' :: (name.toList ++ [']', '\n'])
  | pair name item => name.toList ++ ' ' :: '=' :: ' ' :: (item.spelling ++ ['\n'])

def IsPlain : Line → Prop
  | blank => True
  | header name => IsBare name
  | pair name item => IsBare name ∧ item.IsPlain

/-- The sections of lines, of which the first belong to a section that is open. -/
def sections (heading : Heading) (pairs : List (Key × Item)) : List Line → List Section
  | [] => [⟨heading, pairs⟩]
  | blank :: ls => sections heading pairs ls
  | header name :: ls => ⟨heading, pairs⟩ :: sections (.table ⟨[], name⟩) [] ls
  | pair name item :: ls => sections heading (pairs ++ [(⟨[], name⟩, item)]) ls

end Line

theorem IsBare.exists_cons {name : String} (h : IsBare name) :
    ∃ c cs, name.toList = c :: cs ∧ isBareChar c = true := by
  obtain ⟨c, cs, hname⟩ := List.exists_cons_of_ne_nil (l := name.toList) (by simpa using h.1)
  exact ⟨c, cs, hname, h.2 c (by simp [hname])⟩

theorem IsBare.readName {name : String} (h : IsBare name) (bound : Nat) {d : Char}
    (hd : isBareChar d = false) (rest : List Char) :
    readName bound (name.toList ++ d :: rest) = some (name, d :: rest) := by
  obtain ⟨c, cs, hname, hc⟩ := h.exists_cons
  rw [Toml.readName, takeWhile_kind hd h.2, dropWhile_kind hd h.2, if_neg (by simp [hname]),
    String.ofList_toList]
  all_goals
    intro ds hds
    rw [hname] at hds
    refine ne_of_kind ?_ hc (List.cons.inj hds).1
    decide

theorem IsBare.skipSpace_append {name : String} (h : IsBare name) (rest : List Char) :
    skipSpace (name.toList ++ rest) = name.toList ++ rest := by
  obtain ⟨c, cs, hname, hc⟩ := h.exists_cons
  have hspace : isSpace c = false := by
    simp [isSpace, ne_of_kind (by decide : isBareChar ' ' = false) hc,
      ne_of_kind (by decide : isBareChar '\t' = false) hc]
  rw [hname, List.cons_append, skipSpace, List.dropWhile_cons_of_neg (by simp [hspace])]

/-- A bare name is a key if blanks and no dot follow. -/
theorem IsBare.readKey {name : String} (h : IsBare name) (bound : Nat) {d e : Char}
    (hd : isBareChar d = false) {rest after : List Char}
    (hrest : skipSpace (d :: rest) = e :: after) (he : e ≠ '.') :
    readKey (bound + 1) [] (name.toList ++ d :: rest) = some (⟨[], name⟩, e :: after) := by
  rw [Toml.readKey, h.skipSpace_append, h.readName _ hd]
  dsimp only
  rw [hrest]
  split
  · next hdot => exact absurd (List.cons.inj hdot).1 he
  · next hdot => rw [if_pos (by decide)]; rfl

theorem Line.readPair {name : String} {item : Item} (hname : IsBare name) (hitem : item.IsPlain)
    {bound : Nat} (hb : item.spelling.length ≤ bound + 1) (room : Nat) (rest : List Char) :
    readPair (readValue (bound + 1) (room + 1)) (bound + 1)
        (name.toList ++ ' ' :: '=' :: ' ' :: (item.spelling ++ '\n' :: rest)) =
      some ((⟨[], name⟩, item), '\n' :: rest) := by
  have hequals : skipSpace (' ' :: '=' :: ' ' :: (item.spelling ++ '\n' :: rest)) =
      '=' :: ' ' :: (item.spelling ++ '\n' :: rest) := rfl
  have hkey := hname.readKey bound (by decide) hequals (by decide)
  have hvalue := hitem.readValue_spelling hb room rest
  rw [← hitem.skipSpace_spelling] at hvalue
  rw [Toml.readPair, hkey]
  change (readValue (bound + 1) (room + 1) (skipSpace (item.spelling ++ '\n' :: rest))).map _ = _
  rw [hvalue]
  rfl

theorem afterTrailing?_newline (rest : List Char) : afterTrailing? ('\n' :: rest) = some rest := rfl

section Lines

variable {bound : Nat} (heading : Heading) (pairs : List (Key × Item)) (done : List Section)

theorem readSections_blank (rest : List Char) :
    readSections (bound + 1) heading pairs done ('\n' :: rest) =
      readSections bound heading pairs done rest := rfl

theorem readSections_header {name : String} (h : IsBare name) (rest : List Char) :
    readSections (bound + 1) heading pairs done ((Line.header name).text ++ rest) =
      readSections bound (.table ⟨[], name⟩) [] (closeSection heading pairs :: done) rest := by
  have hbracket : skipSpace (']' :: '\n' :: rest) = ']' :: '\n' :: rest := rfl
  have hkey := h.readKey bound (by decide) hbracket (by decide)
  have hheading : readHeading (bound + 1) ('[' :: (name.toList ++ ']' :: '\n' :: rest)) =
      some (.table ⟨[], name⟩, '\n' :: rest) := by
    obtain ⟨c, cs, hname, hc⟩ := h.exists_cons
    rw [readHeading, hkey]
    · rfl
    · intro ds hds
      rw [hname] at hds
      refine ne_of_kind ?_ hc (List.cons.inj hds).1
      decide
  have htext : (Line.header name).text ++ rest = '[' :: (name.toList ++ ']' :: '\n' :: rest) := by
    simp [Line.text]
  have hskip : skipSpace ('[' :: (name.toList ++ ']' :: '\n' :: rest)) =
      '[' :: (name.toList ++ ']' :: '\n' :: rest) := rfl
  simp only [htext, readSections, hskip, hheading, afterTrailing?_newline]

theorem readSections_pair {name : String} {item : Item} (hname : IsBare name)
    (hitem : item.IsPlain) (hb : item.spelling.length ≤ bound + 1) (rest : List Char) :
    readSections (bound + 1) heading pairs done ((Line.pair name item).text ++ rest) =
      readSections bound heading ((⟨[], name⟩, item) :: pairs) done rest := by
  have hpair := Line.readPair hname hitem hb 78 rest
  have htext : (Line.pair name item).text ++ rest =
      name.toList ++ ' ' :: '=' :: ' ' :: (item.spelling ++ '\n' :: rest) := by
    simp [Line.text]
  have hskip := hname.skipSpace_append (' ' :: '=' :: ' ' :: (item.spelling ++ '\n' :: rest))
  obtain ⟨c, cs, hcs, hc⟩ := hname.exists_cons
  rw [hcs, List.cons_append] at hpair hskip
  have hplain : ¬(c = '#' ∨ c = '\n' ∨ c = '\r') := by
    rintro (rfl | rfl | rfl) <;> revert hc <;> decide
  rw [htext, hcs, List.cons_append, readSections, hskip]
  split
  · next hnil => cases hnil
  · next hbracket =>
      exact absurd (List.cons.inj hbracket).1 (ne_of_kind (by decide) hc)
  · next d ds _ hds =>
      obtain ⟨rfl, rfl⟩ := List.cons.inj hds
      rw [if_neg hplain, nesting, hpair]
      rfl

end Lines

/-- Reading plain lines gathers their sections behind those that are there. -/
theorem readSections_lines {ls : List Line} (hls : ∀ l ∈ ls, l.IsPlain) {bound : Nat}
    (hb : (ls.flatMap Line.text).length < bound) (heading : Heading) (pairs : List (Key × Item))
    (done : List Section) :
    readSections bound heading pairs done (ls.flatMap Line.text) =
      some (done.reverse ++ Line.sections heading pairs.reverse ls) := by
  induction ls generalizing bound heading pairs done with
  | nil =>
      obtain ⟨bound, rfl⟩ := Nat.exists_eq_succ_of_ne_zero (Nat.ne_of_gt (Nat.zero_lt_of_lt hb))
      simp [readSections, skipSpace, closeSection, Line.sections]
  | cons l ls ih =>
      obtain ⟨bound, rfl⟩ := Nat.exists_eq_succ_of_ne_zero (Nat.ne_of_gt (Nat.zero_lt_of_lt hb))
      have hl : l.IsPlain := hls l (List.mem_cons_self ..)
      have hrest : ∀ k ∈ ls, k.IsPlain := fun k hk => hls k (List.mem_cons_of_mem _ hk)
      rw [List.flatMap_cons] at hb ⊢
      rw [List.length_append] at hb
      cases l with
      | blank =>
          have hlt : (ls.flatMap Line.text).length < bound := by
            simp only [Line.text, List.length_cons, List.length_nil] at hb
            omega
          exact (readSections_blank ..).trans (ih hrest hlt ..)
      | header name =>
          have hlt : (ls.flatMap Line.text).length < bound := by
            simp only [Line.text, List.length_cons] at hb
            omega
          rw [readSections_header _ _ _ hl, ih hrest hlt]
          simp [Line.sections, closeSection]
      | pair name item =>
          have hlt : item.spelling.length + 1 + (ls.flatMap Line.text).length ≤ bound := by
            simp only [Line.text, List.length_append, List.length_cons, List.length_nil] at hb
            omega
          rw [readSections_pair _ _ _ hl.1 hl.2 (by omega), ih hrest (by omega)]
          simp [Line.sections]

theorem dropMark_lines {ls : List Line} (hls : ∀ l ∈ ls, l.IsPlain) :
    dropMark (ls.flatMap Line.text) = ls.flatMap Line.text := by
  cases ls with
  | nil => rfl
  | cons l ls =>
      have hl : l.IsPlain := hls l (List.mem_cons_self ..)
      cases l with
      | blank | header name => rfl
      | pair name item =>
          obtain ⟨c, cs, hname, hc⟩ := hl.1.exists_cons
          have hmark : c ≠ '\uFEFF' := ne_of_kind (by decide : isBareChar '\uFEFF' = false) hc
          rw [List.flatMap_cons, Line.text, hname]
          simp only [List.cons_append]
          rw [dropMark]
          rintro ds hds
          exact hmark (List.cons.inj hds).1

/-- A document of plain lines is read as what its sections make. -/
theorem parse_lines {ls : List Line} (hls : ∀ l ∈ ls, l.IsPlain) {t : Table}
    (ht : assemble (Line.sections .document [] ls) = some t) :
    parse (ls.flatMap Line.text) = .ok t := by
  simp only [parse, dropMark_lines hls]
  rw [readSections_lines hls (Nat.lt_succ_self _)]
  simp [ht]

end ExprCheck.Toml
