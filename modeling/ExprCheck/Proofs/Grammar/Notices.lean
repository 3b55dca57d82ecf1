import ExprCheck.Proofs.Grammar.Lookahead

/-!
What recognition says. While it runs it says at most which production begins, and that an end
marker is missing; at the end it says once what has come of it.
-/

namespace ExprCheck.Grammar
namespace Recognizer

/-- Nothing has been said yet of what the tokens are. -/
def Quiet (r : Recognizer) : Prop :=
  ∀ n ∈ r.notices, n.level = .debug ∨ n = .missingEnd

variable {r : Recognizer}

theorem quiet_ofTokens (settings : GrammarSettings) (ts : List Token) :
    (ofTokens settings ts).Quiet := by
  cases ts with
  | nil => exact fun n hn => .inr (List.mem_singleton.mp hn)
  | cons t ts => exact fun n hn => absurd hn (List.not_mem_nil)

theorem Quiet.say {n : Notice} (h : r.Quiet) (hn : n.level = .debug ∨ n = .missingEnd) :
    (r.say n).Quiet := by
  intro m hm
  rcases List.mem_cons.mp hm with rfl | hm
  · exact hn
  · exact h m hm

theorem Quiet.step (h : r.Quiet) : r.step.Quiet := by
  cases he : r.lookahead.isEnd with
  | true =>
      rw [r.step_of_isEnd he]
      exact h
  | false =>
      cases hs : r.source with
      | nil =>
          rw [r.step_of_nil he hs]
          exact h.say (.inr rfl)
      | cons t ts =>
          rw [r.step_of_cons he hs]
          exact h

theorem Quiet.entered (h : r.Quiet) (production : Production) : (r.entered production).Quiet := by
  unfold Recognizer.entered
  split
  · exact h.say (.inl rfl)
  · exact h

end Recognizer

namespace Descent
open Recognizer

variable {r : Recognizer} {rest : List Task}

theorem quiet_again {separator : Category} {item loop : Task} (h : r.Quiet) :
    (again separator item loop rest r).recognizer.Quiet := by
  unfold again
  split
  · exact h.step
  · exact h

theorem quiet_startFactor (h : r.Quiet) : (startFactor rest r).recognizer.Quiet := by
  unfold startFactor
  split
  · exact h.step
  · dsimp only
    split <;> exact h.step
  · exact h

theorem quiet_endProgram (h : r.Quiet) : (endProgram rest r).recognizer.Quiet := by
  unfold endProgram
  split
  · split <;> exact h.step
  · exact h

theorem quiet_perform (task : Task) (h : r.Quiet) : (perform rest r task).recognizer.Quiet := by
  cases task with
  | program | expression | term => exact h.entered _
  | factor => exact quiet_startFactor (h.entered _)
  | moreTerms | moreFactors => exact quiet_again h
  | closing =>
      rw [perform]
      split
      · exact h.step
      · exact h
  | ending => exact quiet_endProgram h

theorem Runs.quiet {c d : Descent} (h : Runs c d) (hc : c.recognizer.Quiet) :
    d.recognizer.Quiet :=
  h.keeps (P := fun d => d.recognizer.Quiet) hc fun task _ _ => quiet_perform task

end Descent

namespace Recognizer
open Descent

/-- What is said last, when recognition has come to a result. -/
def conclusion (result : Except Fault Unit) (r : Recognizer) : Notice :=
  match result with
  | .ok _ => .recognized r.consumed r.maxDepthSeen
  | .error f => .stopped f r.consumed

theorem debug_of_runs (settings : GrammarSettings) {ts : List Token}
    (hend : ts.any Token.isEnd = true) {d : Descent}
    (h : Runs (.busy [.program] (ofTokens settings ts)) d) :
    ∀ n ∈ d.recognizer.notices, n.level = .debug := by
  intro n hn
  rcases h.quiet (quiet_ofTokens settings ts) n hn with hn' | rfl
  · exact hn'
  · -- A missing end marker would have been counted.
    have hstands : d.recognizer.StandsIn ts :=
      h.changes.keeps (standsIn_ofTokens settings ts) StandsIn.change
    have hcount := hstands.missed_eq
    rw [if_neg (by simp [hend]), List.count_eq_zero] at hcount
    exact absurd hn hcount

/-- Of tokens with an end marker no more is said than what has come of them, and before that
what is for debugging. -/
theorem recognize_notices (settings : GrammarSettings) {ts : List Token}
    (hend : ts.any Token.isEnd = true) :
    let (result, r) := (ofTokens settings ts).recognize
    ∃ traces, r.notices = conclusion result r :: traces ∧ ∀ n ∈ traces, n.level = .debug := by
  obtain ⟨s, hs, hr⟩ | ⟨f, s, hs, hr⟩ := (ofTokens settings ts).recognize_cases
  · rw [hs]
    exact ⟨s.notices, rfl, debug_of_runs settings hend hr⟩
  · rw [hs]
    exact ⟨s.notices, rfl, debug_of_runs settings hend hr⟩

end Recognizer
end ExprCheck.Grammar
