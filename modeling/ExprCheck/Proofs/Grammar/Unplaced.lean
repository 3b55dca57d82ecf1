import ExprCheck.Proofs.Grammar.TextProgram
import ExprCheck.Proofs.Token.Reading

/-!
Recognition does not look at where tokens stand. Without spans the tokens have
the same outcome, and a fault in it lacks nothing but its span.
-/

namespace ExprCheck.Grammar

/-- A fault as if its token stood in no text. -/
def Fault.unplaced : Fault → Fault
  | unexpected expected found lexeme _ => .unexpected expected found lexeme .dummy
  | nestingTooDeep depth limit _ => .nestingTooDeep depth limit .dummy

theorem Fault.code_unplaced (f : Fault) : f.unplaced.code = f.code := by
  cases f <;> rfl

def Move.unplaced : Move → Move
  | on next => .on next
  | stop fault last => .stop fault.unplaced last

def Outcome.unplaced (o : Outcome) : Outcome :=
  { o with result := o.result.mapError Fault.unplaced }

namespace Progress

theorem move_unplaced (limit : Nat) (p : Progress) (t : Token) :
    p.move limit t.unplaced = (p.move limit t).unplaced := by
  have hc : t.unplaced.category = t.category := rfl
  unfold move
  rw [hc]
  split
  case h_1 | h_3 | h_4 | h_6 => rfl
  case h_2 | h_5 => split <;> rfl

theorem finish_unplaced (p : Progress) (t : Token) (rest : List Token) :
    p.finish t.unplaced (rest.map Token.unplaced) = (p.finish t rest).unplaced := by
  unfold finish
  split
  · cases rest <;> rfl
  · rfl

theorem run_unplaced (limit : Nat) (p : Progress) (ts : List Token) :
    p.run limit (ts.map Token.unplaced) = (p.run limit ts).unplaced := by
  induction ts generalizing p with
  | nil => exact p.finish_unplaced Recognizer.missingEnd []
  | cons t ts ih =>
      have he : t.unplaced.isEnd = t.isEnd := rfl
      rw [List.map_cons, run, run, he, move_unplaced]
      split
      · exact p.finish_unplaced t ts
      · cases p.move limit t with
        | on q => exact ih q
        | stop f q => rfl

end Progress

/-- Accepted tokens have no two integers in a row. -/
theorem integers_apart_of_accepted {limit : Nat} {ts : List Token}
    (h : (({} : Progress).run limit ts).result = .ok ()) :
    (Token.categories ts).IsChain fun c d => c = .integer → d ≠ .integer := by
  obtain ⟨w, q, hr, _, rfl | ⟨e, he, rfl⟩⟩ := (Progress.run_ok_iff ..).mp h
  · exact hr.isChain
  · have hc : e.category = .endOfInput := by simpa [Token.isEnd] using he
    rw [Token.categories, List.map_append]
    refine List.isChain_append.mpr ⟨hr.isChain, List.isChain_singleton _, ?_⟩
    intro c _ d hd _
    obtain rfl : e.category = d := by simpa using hd
    simp [hc]

end ExprCheck.Grammar
