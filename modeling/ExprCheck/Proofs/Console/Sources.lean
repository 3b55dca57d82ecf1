import ExprCheck.Proofs.Batch.Lines
import ExprCheck.Proofs.Check.Blanks
import ExprCheck.Proofs.Console.Printing
import Mathlib.Data.List.DropRight

/-!
Where a line comes from does not matter to its verdict. What is left out at its end, by other
rules on the standard input than in a file, is blank in each case, and blanks at the end of a
text change no verdict.
-/

namespace ExprCheck

namespace Text

/-- What stands before blanks at the end of a text. -/
def Trims (kept whole : List Char) : Prop :=
  ∃ w, whole = kept ++ w ∧ ∀ c ∈ w, isBlank c = true

theorem trims_self (cs : List Char) : Trims cs cs :=
  ⟨[], by simp, by simp⟩

theorem trims_trimEnd {p : Char → Bool} (hp : ∀ c, p c = true → isBlank c = true)
    (cs : List Char) : Trims (trimEnd p cs) cs :=
  ⟨cs.rtakeWhile p, List.rdropWhile_append_rtakeWhile.symm,
    fun c hc => hp c (List.mem_rtakeWhile_imp hc)⟩

theorem trimEnd_append {p : Char → Bool} {w : List Char} (hw : ∀ c ∈ w, p c = true)
    (cs : List Char) : trimEnd p (cs ++ w) = trimEnd p cs := by
  rw [trimEnd, List.reverse_append, List.dropWhile_append_of_pos (by simpa using hw), trimEnd]

theorem trims_dropReturn (cs : List Char) : Trims (dropReturn cs) cs := by
  by_cases hlast : cs.getLast? = some '\r'
  · obtain ⟨kept, rfl⟩ := List.getLast?_eq_some_iff.mp hlast
    rw [dropReturn_append]
    exact ⟨['\r'], rfl, List.forall_mem_singleton.mpr rfl⟩
  · rw [dropReturn_of_getLast? hlast]
    exact trims_self cs

theorem Trims.exists_shown {kept whole : List Char} (h : Trims kept whole)
    (hshown : ∃ c ∈ whole, isBlank c = false) : ∃ c ∈ kept, isBlank c = false := by
  obtain ⟨w, rfl, hw⟩ := h
  obtain ⟨c, hc, hblank⟩ := hshown
  refine ⟨c, (List.mem_append.mp hc).resolve_right fun hcw => ?_, hblank⟩
  rw [hw c hcw] at hblank
  cases hblank

/-- The ends that a single line may have. -/
def lineEnds : List (List Char) :=
  [[], ['\n'], ['\r', '\n']]

theorem mem_lineEnds {e : List Char} :
    e ∈ lineEnds ↔ e = [] ∨ e = ['\n'] ∨ e = ['\r', '\n'] := by
  simp [lineEnds]

section OneLine

variable {line e : List Char} (hline : '\n' ∉ line) (he : e ∈ lineEnds)
include hline he

theorem firstLine_append_end : firstLine (line ++ e) = line ++ e := by
  have hall : ∀ c ∈ line, (c ≠ '\n' : Bool) = true := fun c hc => by
    simpa using fun h : c = '\n' => hline (h ▸ hc)
  simp only [firstLine, List.takeWhile_append_of_pos hall, List.dropWhile_append_of_pos hall,
    List.append_assoc]
  congr 1
  obtain rfl | rfl | rfl := mem_lineEnds.mp he <;> rfl

/-- Only a return that belongs to the end is lost with it, or a last one of the line. -/
theorem exists_lines_append_end (hne : line ≠ []) :
    ∃ kept, lines (line ++ e) = [kept] ∧ Trims kept line := by
  obtain rfl | rfl | rfl := mem_lineEnds.mp he
  · rw [List.append_nil, lines_of_not_mem hline hne]
    exact ⟨line, rfl, trims_self line⟩
  · rw [lines_append_newline hline]
    exact ⟨dropReturn line, rfl, trims_dropReturn line⟩
  · have hreturn : '\n' ∉ line ++ ['\r'] := by simp [hline]
    have hlines := lines_append_newline hreturn []
    rw [dropReturn_append, List.append_assoc, List.singleton_append] at hlines
    exact ⟨line, hlines, trims_self line⟩

end OneLine

end Text

open Text (Trims)

theorem SameUpToBlanks.verdict_eq {p q : Pass} (h : SameUpToBlanks p.outcome q.outcome) :
    p.verdict = q.verdict := by
  unfold Pass.verdict
  generalize p.outcome = a at h ⊢
  generalize q.outcome = b at h ⊢
  cases h with
  | accepted | rejected => rfl

theorem unplaced_scan_append_blanks (text : String) {w : String}
    (hw : ∀ c ∈ w.toList, Text.isBlank c = true) :
    (scan (text ++ w)).map Token.unplaced = (scan text).map Token.unplaced := by
  have hapart : ¬ DigitsMeet text.toList "".toList := by simp [DigitsMeet]
  have hblanks := unplaced_scan_append (u := text) (v := "") hw (.inr hapart)
  have hplain := unplaced_scan_append (u := text) (v := "") (x := "") (by simp) (.inr hapart)
  simp only [String.append_empty] at hblanks hplain
  exact hblanks.trans hplain.symm

section Trimmed

variable {settings : Settings} {text : String} {kept : List Char}

theorem verdict_of_trims (h : Trims kept text.toList)
    (hlimit : Text.byteLength text.toList ≤ settings.scanning.inputLimit) :
    (check settings (String.ofList kept)).verdict = (check settings text).verdict := by
  obtain ⟨w, htext, hw⟩ := h
  have hshort : Text.byteLength (String.ofList kept).toList ≤ settings.scanning.inputLimit := by
    rw [htext, Text.byteLength_append] at hlimit
    rw [String.toList_ofList]
    omega
  have hsplit : text = String.ofList kept ++ String.ofList w := by
    rw [← String.ofList_append, ← htext, String.ofList_toList]
  have hscan := unplaced_scan_append_blanks (String.ofList kept) (w := String.ofList w)
    (by simpa using hw)
  rw [← hsplit] at hscan
  refine (SameUpToBlanks.verdict_eq ?_).symm
  rw [check_outcome hlimit, check_outcome hshort]
  refine sameUpToBlanks_of_unplaced hscan ?_
  rw [← Grammar.Progress.run_unplaced, hscan, Grammar.Progress.run_unplaced]

namespace Batch

theorem check_of_one_line {contents : List Char} (hlines : Text.lines contents = [kept])
    (hshown : ∃ c ∈ kept, Text.isBlank c = false) :
    check settings contents = .ok [checkLine settings (1, kept)] := by
  have hkept : isShown kept = true := (isShown_iff kept).mpr hshown
  have hexpressions : expressions contents = [(1, kept)] := by
    simp [expressions_eq, hlines, hkept]
  refine check_eq_ok_iff.mpr ?_
  rw [hlines, hexpressions]
  simp [hkept]

theorem verdict_singleton (l : Line) : verdict [l] = l.pass.verdict := by
  cases h : l.pass.verdict <;> simp [verdict, rejected, accepted, Line.isAccepted, h]

end Batch

end Trimmed

namespace Console
open Output (outText)

/-- A line that is not blank gets one verdict as an argument, on the standard input and in a
file, and with each end that it may have there. -/
theorem same_verdict_from_each_source {i : Invocation} {s : Surroundings} {settings : Settings}
    (hsettings : i.settings s = .ok settings) {text : String} (hline : '\n' ∉ text.toList)
    (hshown : ∃ c ∈ text.toList, Text.isBlank c = false)
    (hlimit : Text.byteLength text.toList ≤ settings.scanning.inputLimit) :
    let v := (check settings text).verdict
    ∀ path unread,
      let given := perform { i with expression := some text, file := none } s unread
      (given.status = Answer.statusOf v ∧
        (i.json = false → ∀ moment, outText (given.outputs moment) = v.message ++ "\n")) ∧
      ∀ e ∈ Text.lineEnds,
        let typed := perform { i with expression := none, file := none } s
          (.ok (Text.firstLine (text.toList ++ e)))
        let filed := perform { i with expression := none, file := some path } s unread
        (typed.status = Answer.statusOf v ∧
          (i.json = false → ∀ moment,
            outText (typed.outputs moment) = "> " ++ (v.message ++ "\n"))) ∧
        (s.file path = .ok (text.toList ++ e) →
          filed.status = Answer.statusOf v ∧
          (i.json = false → ∀ moment, ∃ counts,
            outText (filed.outputs moment) = s!"1: {v.message}\n" ++ counts)) := by
  refine fun path unread => ⟨?given, fun e he => ⟨?typed, ?filed⟩⟩
  case given =>
    exact perform_argument (i := { i with expression := some text, file := none }) hsettings rfl
      unread
  case typed =>
    have hend : ∀ c ∈ e, (c == '\r' || c == '\n') = true := by
      rw [← List.all_eq_true]
      obtain rfl | rfl | rfl := Text.mem_lineEnds.mp he <;> rfl
    have hblank (c : Char) (hc : (c == '\r' || c == '\n') = true) : Text.isBlank c = true := by
      rw [Bool.or_eq_true, beq_iff_eq, beq_iff_eq] at hc
      obtain rfl | rfl := hc <;> decide
    have hverdict := verdict_of_trims (Text.trims_trimEnd hblank text.toList) hlimit
    have htyped := perform_stdin (i := { i with expression := none, file := none }) hsettings rfl
      (text.toList ++ e)
    dsimp only at htyped
    rw [Text.trimEnd_append hend, hverdict] at htyped
    rw [Text.firstLine_append_end hline he]
    exact htyped
  case filed =>
    intro hfile
    have hne : text.toList ≠ [] := by
      rintro hnil
      simp [hnil] at hshown
    obtain ⟨kept, hlines, htrims⟩ := Text.exists_lines_append_end hline he hne
    have hcheck : Batch.check settings (text.toList ++ e) =
        .ok [Batch.checkLine settings (1, kept)] :=
      Batch.check_of_one_line hlines (htrims.exists_shown hshown)
    have hverdict := verdict_of_trims htrims hlimit
    have hfiled := perform_file (i := { i with expression := none, file := some path }) hsettings
      rfl hfile hcheck unread
    have hprinted : String.join ([Batch.checkLine settings (1, kept)].map fun l =>
        s!"{l.number}: {l.pass.verdict.message}\n") =
        s!"1: {(check settings text).verdict.message}\n" := by
      simp [Batch.checkLine, hverdict]
      rfl
    rw [Batch.verdict_singleton, hprinted] at hfiled
    exact ⟨hfiled.1.trans (congrArg Answer.statusOf hverdict),
      fun hjson moment => ⟨_, hfiled.2 hjson moment⟩⟩

/-- A line that ends in a lone return: in the file it belongs to the end of the line. -/
theorem same_verdict_from_each_source_return :
    let text := "(1)\r"
    let s : Surroundings :=
      { environment := fun _ => none
        file := fun _ => .ok (text.toList ++ ['\n']) }
    let settings := ({} : Overrides).toSettings
    (({} : Invocation).settings s = .ok settings ∧ '\n' ∉ text.toList ∧
      (∃ c ∈ text.toList, Text.isBlank c = false) ∧
      Text.byteLength text.toList ≤ settings.scanning.inputLimit) ∧
    let given := perform { expression := some text } s (.error .notText)
    let typed := perform {} s (.ok (Text.firstLine (text.toList ++ ['\n'])))
    let filed := perform { file := some "sums" } s (.error .notText)
    (given.status = 0 ∧ typed.status = 0 ∧ filed.status = 0) ∧
    outText (given.outputs {}) = "Syntax OK!\n" ∧ outText (typed.outputs {}) = "> Syntax OK!\n" ∧
    ∃ counts, outText (filed.outputs {}) = "1: Syntax OK!\n" ++ counts := by
  intro text s settings
  have hsettings : ({} : Invocation).settings s = .ok settings := rfl
  have hline : '\n' ∉ text.toList := by decide
  have hshown : ∃ c ∈ text.toList, Text.isBlank c = false := ⟨'1', by decide, by decide⟩
  have hlimit : Text.byteLength text.toList ≤ settings.scanning.inputLimit := by decide
  have hscan : scan text =
      [⟨.openParen, some "(", ⟨⟨0, 1, 1⟩, ⟨1, 1, 2⟩⟩⟩, ⟨.integer, some "1", ⟨⟨1, 1, 2⟩, ⟨2, 1, 3⟩⟩⟩,
       ⟨.closeParen, some ")", ⟨⟨2, 1, 3⟩, ⟨3, 1, 4⟩⟩⟩, .endMarker (.emptyAt ⟨4, 1, 5⟩)] := by
    decide
  have hverdict : (check settings text).verdict = .accepted := by
    rw [Pass.verdict, check_outcome hlimit, hscan]
    rfl
  have hall := same_verdict_from_each_source hsettings hline hshown hlimit
  rw [hverdict] at hall
  obtain ⟨hgiven, hends⟩ := hall "sums" (.error .notText)
  obtain ⟨htyped, hfiled⟩ := hends ['\n'] (by decide)
  have hfile := hfiled rfl
  have hprinted : s!"1: {Verdict.accepted.message}\n" = "1: Syntax OK!\n" := by decide
  rw [hprinted] at hfile
  obtain ⟨counts, hcounts⟩ := hfile.2 rfl {}
  refine ⟨⟨hsettings, hline, hshown, hlimit⟩, ⟨hgiven.1, htyped.1, hfile.1⟩,
    hgiven.2 rfl {}, htyped.2 rfl {}, counts, ?_⟩
  rw [hcounts]

end Console
end ExprCheck
