import ExprCheck.Proofs.Grammar.Tasks

/-!
Recognizers that are asked for programs and tokens, any number of times and
whatever the answers. `Change` lists what can happen to a recognizer at all;
what survives every change survives every sequence of requests.
-/

namespace ExprCheck.Grammar

inductive Change : Recognizer → Recognizer → Prop where
  | spoken {r : Recognizer} {n : Notice} : n ≠ .missingEnd → Change r (r.say n)
  | stepped {r : Recognizer} : Change r r.step
  | opened {r : Recognizer} : r.depth < r.maxDepth →
      Change r
        { r.step with
          depth := r.step.depth + 1
          maxDepthSeen := max r.step.maxDepthSeen (r.step.depth + 1) }
  /-- A parenthesis that is one too many is counted all the same. -/
  | refused {r : Recognizer} : Change r { r.step with depth := r.step.depth + 1 }
  | closed {r : Recognizer} : Change r { r.step with depth := r.step.depth - 1 }
  /-- The source is looked into behind an end marker. -/
  | pulled {r : Recognizer} {source : List Token} :
      r.lookahead.isEnd = true → Change r { r with source }

def Changes : Recognizer → Recognizer → Prop :=
  Relation.ReflTransGen Change

theorem Change.changes {r s : Recognizer} (h : Change r s) : Changes r s :=
  .single h

theorem Changes.trans {r s t : Recognizer} (h : Changes r s) (k : Changes s t) : Changes r t :=
  Relation.ReflTransGen.trans h k

/-- What every change keeps is kept for ever. -/
theorem Changes.keeps {P : Recognizer → Prop} {r s : Recognizer} (h : Changes r s) (hr : P r)
    (hchange : ∀ {r s}, Change r s → P r → P s) : P s := by
  induction h with
  | refl => exact hr
  | tail _ hc ih => exact hchange hc ih

namespace Recognizer

theorem entered_changes (r : Recognizer) (production : Production) :
    Changes r (r.entered production) := by
  unfold entered
  split
  · exact (Change.spoken (by simp)).changes
  · exact .refl

end Recognizer

namespace Descent

theorem again_changes (separator : Category) (item loop : Task) (rest : List Task)
    (r : Recognizer) : Changes r (again separator item loop rest r).recognizer := by
  unfold again
  split
  · exact Change.stepped.changes
  · exact .refl

theorem startFactor_changes (rest : List Task) (r : Recognizer) :
    Changes r (startFactor rest r).recognizer := by
  unfold startFactor
  split
  · exact Change.stepped.changes
  · dsimp only
    split
    · exact Change.refused.changes
    · next h =>
        refine (Change.opened ?_).changes
        simp only [Recognizer.step_depth, Recognizer.step_maxDepth] at h
        omega
  · exact .refl

theorem endProgram_changes (rest : List Task) (r : Recognizer) :
    Changes r (endProgram rest r).recognizer := by
  unfold endProgram
  split
  · next he =>
      have hend : r.step.lookahead.isEnd = true := by
        rw [r.step_of_isEnd (by simp [Token.isEnd, he])]
        simp [Token.isEnd, he]
      split
      · exact Change.stepped.changes
      · exact Change.stepped.changes.trans (Change.pulled hend).changes
  · exact .refl

theorem perform_changes (task : Task) (rest : List Task) (r : Recognizer) :
    Changes r (perform rest r task).recognizer := by
  cases task with
  | program | expression | term => exact r.entered_changes _
  | factor => exact (r.entered_changes _).trans (startFactor_changes rest _)
  | moreTerms | moreFactors => exact again_changes ..
  | closing =>
      rw [perform]
      split
      · exact Change.closed.changes
      · exact .refl
  | ending => exact endProgram_changes rest r

theorem Runs.changes {c d : Descent} (h : Runs c d) : Changes c.recognizer d.recognizer := by
  refine h.keeps (P := fun d => Changes c.recognizer d.recognizer) .refl ?_
  exact fun task rest r hr => hr.trans (perform_changes task rest r)

end Descent

/-- What a recognizer can be asked for. -/
inductive Request where
  | program
  | expect (c : Category)
deriving DecidableEq, Repr

namespace Recognizer
open Descent

def after (r : Recognizer) : Request → Recognizer
  | .program => r.recognize.2
  | .expect c => (r.expect c).2

def afterAll (r : Recognizer) (requests : List Request) : Recognizer :=
  requests.foldl after r

theorem recognize_cases (r : Recognizer) :
    (∃ s, r.recognize = (.ok (), s.say (.recognized s.consumed s.maxDepthSeen)) ∧
      Runs (.busy [.program] r) (.busy [] s)) ∨
    ∃ f s, r.recognize = (.error f, s.say (.stopped f s.consumed)) ∧
      Runs (.busy [.program] r) (.stopped f s) := by
  have h := Recognition.program_performs r
  unfold Recognition.Meets at h
  cases hp : Recognition.program r with
  | ok _ s =>
      rw [hp] at h
      refine .inl ⟨s, ?_, h⟩
      simp [recognize, EStateM.run, hp]
  | error f s =>
      rw [hp] at h
      refine .inr ⟨f, s, ?_, h⟩
      simp [recognize, EStateM.run, hp]

theorem expect_cases (r : Recognizer) (c : Category) :
    (r.lookahead.category = c ∧ r.expect c = (.ok r.lookahead, r.step)) ∨
    (r.lookahead.category ≠ c ∧ r.expect c = (.error (.ofToken [c] r.lookahead), r)) := by
  have h : (Recognition.expect c).Meets r
      (fun t s => r.lookahead.category = c ∧ t = r.lookahead ∧ s = r.step)
      (fun f s => r.lookahead.category ≠ c ∧ f = .ofToken [c] r.lookahead ∧ s = r) :=
    Recognition.meets_expect (fun hc => ⟨hc, rfl, rfl⟩) (fun hc => ⟨hc, rfl, rfl⟩)
  unfold Recognition.Meets at h
  cases he : Recognition.expect c r with
  | ok t s =>
      rw [he] at h
      obtain ⟨hc, rfl, rfl⟩ := h
      exact .inl ⟨hc, by simp [expect, EStateM.run, he]⟩
  | error f s =>
      rw [he] at h
      obtain ⟨hc, rfl, rfl⟩ := h
      exact .inr ⟨hc, by simp [expect, EStateM.run, he]⟩

theorem after_changes (r : Recognizer) (q : Request) : Changes r (r.after q) := by
  cases q with
  | program =>
      obtain ⟨s, hs, hr⟩ | ⟨f, s, hs, hr⟩ := r.recognize_cases
      · rw [after, hs]
        exact hr.changes.trans (Change.spoken (by simp)).changes
      · rw [after, hs]
        exact hr.changes.trans (Change.spoken (by simp)).changes
  | expect c =>
      obtain ⟨_, hs⟩ | ⟨_, hs⟩ := r.expect_cases c
      · rw [after, hs]
        exact Change.stepped.changes
      · rw [after, hs]
        exact .refl

theorem afterAll_changes (r : Recognizer) (requests : List Request) :
    Changes r (r.afterAll requests) := by
  induction requests generalizing r with
  | nil => exact .refl
  | cons q qs ih => exact (r.after_changes q).trans (ih (r.after q))

end Recognizer
end ExprCheck.Grammar
