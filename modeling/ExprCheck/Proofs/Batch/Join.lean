import ExprCheck.Proofs.Batch.Lines
import Mathlib.Data.List.Basic

/-!
Batches put together. A line is checked alike wherever it stands, so a batch
below another keeps its lines and only has them numbered on, and how lines are
terminated makes no difference to it.
-/

namespace ExprCheck.Batch

/-- A line with `above` lines put before its text. -/
def Line.below (above : Nat) (l : Line) : Line :=
  { l with number := l.number + above }

theorem Line.isAccepted_below (above : Nat) (l : Line) :
    (l.below above).isAccepted = l.isAccepted := rfl

theorem expressions_append (contents rest : List Char) :
    expressions (contents ++ '\n' :: rest) =
      expressions (contents ++ ['\n']) ++
        (expressions rest).map fun e => (e.1 + (1 + contents.count '\n'), e.2) := by
  let numberOn (e : Nat × List Char) := (e.1 + (1 + contents.count '\n'), e.2)
  have hnumbers :
      ((Text.lines rest).mapIdx fun i line => (i + (1 + contents.count '\n') + 1, line)) =
        ((Text.lines rest).mapIdx fun i line => (i + 1, line)).map numberOn :=
    List.ext_getElem (by simp) fun i _ _ => by simp [numberOn, Nat.add_right_comm]
  rw [expressions_eq (contents ++ '\n' :: rest), Text.lines_append, List.mapIdx_append,
    Text.length_lines_append_newline, hnumbers, List.filter_append, List.filter_map,
    ← expressions_eq, expressions_eq rest]
  rfl

section Join

variable {settings : Settings} {contents rest : List Char} {first second joined : List Line}

theorem checked_append
    (hfirst : check settings (contents ++ ['\n']) = .ok first)
    (hsecond : check settings rest = .ok second)
    (hjoined : check settings (contents ++ '\n' :: rest) = .ok joined) :
    joined = first ++ second.map (Line.below (1 + contents.count '\n')) := by
  obtain ⟨-, -, rfl⟩ := check_eq_ok_iff.mp hfirst
  obtain ⟨-, -, rfl⟩ := check_eq_ok_iff.mp hsecond
  obtain ⟨-, -, rfl⟩ := check_eq_ok_iff.mp hjoined
  rw [expressions_append, List.map_append, List.map_map, List.map_map]
  rfl

theorem check_withReturns (settings : Settings) (h : '\r' ∉ contents) :
    check settings (Text.withReturns contents) = check settings contents := by
  rw [check, check, expressions, expressions, Text.lines_withReturns h]

/-- The lines of a batch below another are those of both, the lower ones numbered on, and its
counts are the sums of theirs. Returns before the newlines of a text without any change nothing. -/
theorem check_joined (settings : Settings) (contents rest : List Char) :
    (∀ first second joined,
      check settings (contents ++ ['\n']) = .ok first → check settings rest = .ok second →
      check settings (contents ++ '\n' :: rest) = .ok joined →
        joined = first ++ second.map (fun l =>
          { l with number := l.number + (1 + contents.count '\n') }) ∧
        joined.length = first.length + second.length ∧
        accepted joined = accepted first + accepted second ∧
        rejected joined = rejected first + rejected second) ∧
    ('\r' ∉ contents →
      check settings (contents.flatMap fun c => if c = '\n' then ['\r', '\n'] else [c]) =
        check settings contents) := by
  refine ⟨fun first second joined hfirst hsecond hjoined => ?_, check_withReturns settings⟩
  have hlines := checked_append hfirst hsecond hjoined
  have hlength : joined.length = first.length + second.length := by
    rw [hlines, List.length_append, List.length_map]
  have haccepted : accepted joined = accepted first + accepted second := by
    rw [hlines, accepted_append, accepted_map (Line.isAccepted_below _)]
  refine ⟨hlines, hlength, haccepted, ?_⟩
  have := accepted_add_rejected first
  have := accepted_add_rejected second
  have := accepted_add_rejected joined
  omega

end Join

/-- Two lines below a line with a return and a blank one. -/
theorem check_joined_below_blank :
    let settings := ({} : Overrides).toSettings
    let contents := "1\r\n\u00a0".toList
    let rest := "(\n2+3".toList
    (∃ first second joined,
      check settings (contents ++ ['\n']) = .ok first ∧ check settings rest = .ok second ∧
      check settings (contents ++ '\n' :: rest) = .ok joined ∧
      first.map (fun l => (l.number, l.text)) = [(1, "1")] ∧
      second.map (fun l => (l.number, l.text)) = [(1, "("), (2, "2+3")] ∧
      joined = first ++ second.map (fun l => { l with number := l.number + 2 }) ∧
      rejected joined = rejected first + rejected second) ∧
    '\r' ∉ rest ∧
    check settings "(\r\n2+3".toList = check settings rest := by
  intro settings contents rest
  have hrest : '\r' ∉ rest := by decide
  refine ⟨⟨_, _, _, rfl, rfl, rfl, rfl, rfl, ?_⟩, hrest, (check_joined settings rest []).2 hrest⟩
  obtain ⟨hlines, -, -, hrejected⟩ := (check_joined settings contents rest).1 _ _ _ rfl rfl rfl
  exact ⟨hlines, hrejected⟩

end ExprCheck.Batch
