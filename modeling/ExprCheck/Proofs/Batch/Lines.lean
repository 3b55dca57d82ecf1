import ExprCheck.Batch
import ExprCheck.Proofs.Text.Lines
import ExprCheck.Proofs.Token.Reading

/-!
Batches line by line. The lines that are checked are those of the text that are not blank, each
under its number among all lines, and a line is blank just when a scan finds nothing in it.
-/

namespace ExprCheck

/-- A scan of a text finds only the end if and only if the text is blank. -/
theorem scan_eq_endMarker_iff (text : String) :
    (∃ span, scan text = [.endMarker span]) ↔ ∀ c ∈ text.toList, Text.isBlank c = true := by
  obtain ⟨ps, gap, h⟩ := exists_takenApart text.toList
  rw [scan_takenApart h]
  constructor
  · rintro ⟨span, hscan⟩
    cases ps with
    | nil =>
        have htext : text.toList = gap := by simp [h.text_eq]
        rw [htext]
        exact h.gap_blank
    | cons p ps =>
        have hlength := congrArg List.length hscan
        simp [Piece.tokens] at hlength
  · intro hblank
    cases ps with
    | nil => exact ⟨_, rfl⟩
    | cons p ps =>
        -- The first character of a lexeme is no blank.
        obtain ⟨c, cs, hlexeme⟩ := List.exists_cons_of_ne_nil p.lexeme_ne_nil
        have hc : c ∈ p.lexeme := by simp [hlexeme]
        have hmem : c ∈ text.toList := by
          simp [h.text_eq, Piece.text, hc]
        have hcontra := isBlank_of_isLexeme p.isLexeme c hc
        rw [hblank c hmem] at hcontra
        cases hcontra

namespace Batch

/-- Whether a line has anything to check. -/
def isShown (line : List Char) : Bool :=
  line.any fun c => !Text.isBlank c

theorem isShown_iff (line : List Char) :
    isShown line = true ↔ ∃ c ∈ line, Text.isBlank c = false := by
  simp [isShown]

theorem not_isShown_iff (line : List Char) :
    ¬ isShown line = true ↔ ∀ c ∈ line, Text.isBlank c = true := by
  simp [isShown]

section Expressions

variable (contents : List Char)

theorem expressions_eq :
    expressions contents =
      ((Text.lines contents).mapIdx fun i line => (i + 1, line)).filter (isShown ·.2) := by
  simp only [expressions, isShown, List.not_all_eq_any_not]

theorem mem_expressions {n : Nat} {line : List Char} :
    (n, line) ∈ expressions contents ↔
      ∃ i, n = i + 1 ∧ (Text.lines contents)[i]? = some line ∧ isShown line = true := by
  simp only [expressions_eq, List.mem_filter, List.mem_mapIdx, Prod.mk.injEq,
    List.getElem?_eq_some_iff]
  constructor
  · rintro ⟨⟨i, hi, rfl, rfl⟩, hshown⟩
    exact ⟨i, rfl, ⟨hi, rfl⟩, hshown⟩
  · rintro ⟨i, rfl, ⟨hi, rfl⟩, hshown⟩
    exact ⟨⟨i, hi, rfl, rfl⟩, hshown⟩

theorem pairwise_expressions : (expressions contents).Pairwise (·.1 < ·.1) := by
  refine List.Pairwise.filter _ (List.pairwise_iff_getElem.mpr fun i j hi hj hij => ?_)
  simpa using hij

theorem map_snd_expressions :
    (expressions contents).map Prod.snd = (Text.lines contents).filter isShown := by
  have hlines : ((Text.lines contents).mapIdx fun i line => (i + 1, line)).map Prod.snd =
      Text.lines contents := by
    exact List.ext_getElem (by simp) fun i _ _ => by simp
  conv => rhs; rw [← hlines, List.filter_map]
  rw [expressions_eq]
  rfl

theorem length_expressions :
    (expressions contents).length = (Text.lines contents).countP isShown := by
  rw [List.countP_eq_length_filter, ← map_snd_expressions, List.length_map]

end Expressions

/-- The line that comes of an expression. -/
def checkLine (settings : Settings) (e : Nat × List Char) : Line :=
  ⟨e.1, String.ofList e.2, ExprCheck.check settings (String.ofList e.2)⟩

theorem exists_mem_checkLine {settings : Settings} {es : List (Nat × List Char)} {n : Nat}
    {text : String} :
    (∃ l ∈ es.map (checkLine settings), l.number = n ∧ l.text = text) ↔ (n, text.toList) ∈ es := by
  constructor
  · rintro ⟨l, hl, rfl, rfl⟩
    obtain ⟨e, he, rfl⟩ := List.mem_map.mp hl
    simpa [checkLine] using he
  · intro he
    exact ⟨_, List.mem_map_of_mem he, rfl, by simp [checkLine]⟩

section Check

variable {settings : Settings} {contents : List Char} {checked : List Line}

theorem check_eq (settings : Settings) (contents : List Char) :
    check settings contents =
      let shown := (Text.lines contents).countP isShown
      if shown = 0 then .error .empty
      else if 100000 < shown then .error (.tooManyLines shown 100000)
      else .ok ((expressions contents).map (checkLine settings)) := by
  simp only [← length_expressions, List.length_eq_zero_iff]
  rfl

theorem check_eq_empty_iff :
    check settings contents = .error .empty ↔ (Text.lines contents).countP isShown = 0 := by
  simp only [check_eq]
  split
  · next h => exact iff_of_true rfl h
  · next h =>
      refine iff_of_false (fun hcheck => ?_) h
      split at hcheck <;> cases hcheck

theorem check_eq_tooManyLines_iff {lines limit : Nat} :
    check settings contents = .error (.tooManyLines lines limit) ↔
      100000 < (Text.lines contents).countP isShown ∧
        lines = (Text.lines contents).countP isShown ∧ limit = 100000 := by
  simp only [check_eq]
  split
  · next h => exact iff_of_false (fun hcheck => by cases hcheck) (by omega)
  · split
    · next h =>
        constructor
        · intro hcheck
          cases hcheck
          exact ⟨h, rfl, rfl⟩
        · rintro ⟨_, rfl, rfl⟩
          rfl
    · next h => exact iff_of_false (fun hcheck => by cases hcheck) (by omega)

theorem check_eq_ok_iff :
    check settings contents = .ok checked ↔
      0 < (Text.lines contents).countP isShown ∧
        (Text.lines contents).countP isShown ≤ 100000 ∧
        checked = (expressions contents).map (checkLine settings) := by
  simp only [check_eq]
  split
  · next h => exact iff_of_false (fun hcheck => by cases hcheck) (by omega)
  · split
    · next h => exact iff_of_false (fun hcheck => by cases hcheck) (by omega)
    · next hzero hmany =>
        constructor
        · intro hcheck
          cases hcheck
          exact ⟨by omega, by omega, rfl⟩
        · rintro ⟨_, _, rfl⟩
          rfl

end Check

theorem accepted_add_rejected (ls : List Line) : ls.length = accepted ls + rejected ls := by
  have hle : accepted ls ≤ ls.length := List.countP_le_length
  rw [rejected]
  omega

theorem accepted_append (ls ks : List Line) : accepted (ls ++ ks) = accepted ls + accepted ks :=
  List.countP_append

/-- Lines are counted by their verdicts only. -/
theorem accepted_map {f : Line → Line} (hf : ∀ l, (f l).isAccepted = l.isAccepted)
    (ls : List Line) : accepted (ls.map f) = accepted ls := by
  simp only [accepted, List.countP_map, Function.comp_def, hf]

theorem verdict_eq_accepted_iff (ls : List Line) :
    verdict ls = .accepted ↔ ∀ l ∈ ls, l.isAccepted = true := by
  rw [← List.countP_eq_length]
  change _ ↔ accepted ls = ls.length
  have hle : accepted ls ≤ ls.length := List.countP_le_length
  unfold verdict rejected
  split
  · exact iff_of_true rfl (by omega)
  · exact iff_of_false (by simp) (by omega)

/-- The verdict on a batch is that on all of its texts. -/
theorem verdict_checked_eq_accepted_iff {settings : Settings} {contents : List Char}
    {checked : List Line} (h : check settings contents = .ok checked) :
    verdict checked = .accepted ↔
      ∀ text ∈ ((Text.lines contents).filter isShown).map String.ofList,
        (ExprCheck.check settings text).verdict = .accepted := by
  obtain ⟨-, -, rfl⟩ := check_eq_ok_iff.mp h
  rw [verdict_eq_accepted_iff, ← map_snd_expressions, List.map_map, List.forall_mem_map,
    List.forall_mem_map]
  exact forall₂_congr fun e _ => beq_iff_eq

/-- A batch has the lines of its text that are not blank, in their order and under their numbers
among all lines, each checked by itself, and counts the accepted and the rejected ones. Without
any or with too many, none is checked. A line is left out just when a scan finds nothing in it. -/
theorem check_each_line (settings : Settings) (contents : List Char) (moment : Moment) :
    ∃ ls, (∀ ks, Text.IsLines contents ks ↔ ks = ls) ∧
      let shown := ls.countP fun line => line.any fun c => !Text.isBlank c
      let report := fun l : Line => Report.ofPass moment l.text l.pass
      (check settings contents = .error .empty ↔
        ∀ line ∈ ls, ∀ c ∈ line, Text.isBlank c = true) ∧
      (∀ lines limit, check settings contents = .error (.tooManyLines lines limit) ↔
        100000 < shown ∧ lines = shown ∧ limit = 100000) ∧
      (∀ source f, check settings contents = .error f →
        ∀ n ∈ notices source (check settings contents), n = .emptyBatch source) ∧
      ((∃ checked, check settings contents = .ok checked) ↔ 0 < shown ∧ shown ≤ 100000) ∧
      (∀ checked, check settings contents = .ok checked →
        checked.Pairwise (·.number < ·.number) ∧
        (∀ i text, (∃ l ∈ checked, l.number = i + 1 ∧ l.text = text) ↔
          ls[i]? = some text.toList ∧ ∃ c ∈ text.toList, Text.isBlank c = false) ∧
        (∀ l ∈ checked, 0 < l.number ∧ (report l).input = l.text ∧
          report l = Report.ofPass moment l.text (ExprCheck.check settings l.text)) ∧
        checked.length = accepted checked + rejected checked ∧
        accepted checked = checked.countP (fun l => (report l).isAccepted) ∧
        (verdict checked = .accepted ↔ ∀ l ∈ checked, (report l).isAccepted = true)) ∧
      ∀ line ∈ ls, (∀ c ∈ line, Text.isBlank c = true) ↔
        ∃ span, scan (String.ofList line) = [.endMarker span] := by
  refine ⟨Text.lines contents, fun ks => Text.isLines_iff, ?_⟩
  intro shown report
  refine ⟨?empty, fun _ _ => check_eq_tooManyLines_iff, ?silent, ?ok, ?lines, ?skipped⟩
  case empty =>
    rw [check_eq_empty_iff, List.countP_eq_zero]
    exact forall₂_congr fun line _ => not_isShown_iff line
  case silent =>
    intro source f hf n hn
    rw [hf] at hn
    cases f with
    | empty => exact List.mem_singleton.mp hn
    | tooManyLines _ _ => exact absurd hn List.not_mem_nil
  case ok =>
    constructor
    · rintro ⟨checked, hchecked⟩
      obtain ⟨hpos, hmany, -⟩ := check_eq_ok_iff.mp hchecked
      exact ⟨hpos, hmany⟩
    · rintro ⟨hpos, hmany⟩
      exact ⟨_, check_eq_ok_iff.mpr ⟨hpos, hmany, rfl⟩⟩
  case lines =>
    intro checked hchecked
    obtain ⟨-, -, rfl⟩ := check_eq_ok_iff.mp hchecked
    refine ⟨List.pairwise_map.mpr (pairwise_expressions contents), fun i text => ?_, ?_,
      accepted_add_rejected _, rfl, verdict_eq_accepted_iff _⟩
    · rw [exists_mem_checkLine, mem_expressions, ← isShown_iff]
      simp
    · intro l hl
      obtain ⟨⟨n, line⟩, he, rfl⟩ := List.mem_map.mp hl
      obtain ⟨i, rfl, -⟩ := (mem_expressions contents).mp he
      exact ⟨i.succ_pos, rfl, rfl⟩
  case skipped =>
    intro line _
    simpa using (scan_eq_endMarker_iff (String.ofList line)).symm

/-- A blank line between two that are checked, the second of which ends in a lone return. -/
theorem check_each_line_around_blank :
    let settings := ({} : Overrides).toSettings
    let contents := "1\r\n\u00a0\n(\r".toList
    Text.IsLines contents ["1".toList, "\u00a0".toList, "(\r".toList] ∧
    ∃ checked, check settings contents = .ok checked ∧
      checked.map (fun l => (l.number, l.text)) = [(1, "1"), (3, "(\r")] ∧
      checked.length = accepted checked + rejected checked ∧
      ∀ l ∈ checked, (Report.ofPass {} l.text l.pass).input = l.text := by
  intro settings contents
  obtain ⟨ls, hls, -, -, -, -, hchecked, -⟩ := check_each_line settings contents {}
  have hlines : ls = ["1".toList, "\u00a0".toList, "(\r".toList] := by
    rw [← (hls _).mp (Text.isLines_lines contents)]
    decide
  have hok : check settings contents = .ok ((expressions contents).map (checkLine settings)) := rfl
  obtain ⟨-, -, hreports, hlength, -⟩ := hchecked _ hok
  exact ⟨(hls _).mpr hlines.symm, _, hok, rfl, hlength, fun l hl => (hreports l hl).2.1⟩

end Batch
end ExprCheck
