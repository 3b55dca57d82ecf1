import ExprCheck.Proofs.Grammar.Descent

/-!
A fault is found at the first token that no program could have in its place.
The tokens before it are the beginning of some program, since what is open can
always be closed; and no tokens behind it can mend it.
-/

namespace ExprCheck.Grammar
namespace Fault

/-- Which token a fault is about, by the number of those consumed. The
parenthesis that is too many has been consumed, an unexpected token has not. -/
def index (consumed : Nat) : Fault → Nat
  | unexpected .. => consumed
  | nestingTooDeep .. => consumed - 1

def Blames (t : Token) : Fault → Prop
  | unexpected _ found lexeme span => found = t.category ∧ lexeme = t.lexeme ∧ span = t.span
  | nestingTooDeep _ _ span => t.category = .openParen ∧ span = t.span

theorem ofToken_blames (expected : List Category) (t : Token) :
    (ofToken expected t).Blames t :=
  ⟨rfl, rfl, rfl⟩

end Fault

namespace Progress

theorem reaches_of_closing {limit : Nat} {p : Progress} {cs : List Token}
    (hn : p.needsOperand = false) (hl : cs.length = p.opened)
    (hc : ∀ t ∈ cs, t.category = .closeParen) : ∃ q, Reaches limit p cs q ∧ q.Complete := by
  induction cs generalizing p with
  | nil => exact ⟨p, .refl p, hn, hl.symm⟩
  | cons t cs ih =>
      rw [List.length_cons] at hl
      have hm : p.move limit t = .on p.closeGroup := by
        have h0 : p.opened ≠ 0 := by omega
        simp [move, hn, hc t, h0]
      have hl' : cs.length = p.closeGroup.opened := by
        rw [closeGroup_opened]
        omega
      obtain ⟨q, hq, hqc⟩ := ih (p := p.closeGroup) hn hl' (fun u hu => hc u (.tail t hu))
      exact ⟨q, .move hm hq, hqc⟩

/-- Wherever a reading is, some tokens complete the program. -/
theorem exists_completion (limit : Nat) (p : Progress) :
    ∃ c q, Reaches limit p c q ∧ q.Complete := by
  let close (n : Nat) : List Token := .replicate n ⟨.closeParen, some ")", .dummy⟩
  have hclose (n : Nat) : ∀ t ∈ close n, t.category = .closeParen := by
    intro t ht
    rw [List.eq_of_mem_replicate ht]
  cases hn : p.needsOperand with
  | false =>
      obtain ⟨q, hq⟩ := reaches_of_closing hn List.length_replicate (hclose p.opened)
      exact ⟨_, q, hq⟩
  | true =>
      let one : Token := ⟨.integer, some "1", .dummy⟩
      have hm : p.move limit one = .on p.takeInteger := by simp [move, hn, one]
      obtain ⟨q, hq, hqc⟩ := reaches_of_closing p.takeInteger_needsOperand
        List.length_replicate (hclose p.takeInteger.opened)
      exact ⟨one :: close p.takeInteger.opened, q, .move hm hq, hqc⟩

theorem Reaches.viable {limit : Nat} {p q : Progress} {w : List Token}
    (h : Reaches limit p w q) : ∃ c, (p.run limit (w ++ c)).result = .ok () := by
  obtain ⟨c, s, hs, hc⟩ := exists_completion limit q
  exact ⟨c, (run_ok_iff ..).mpr ⟨w ++ c, s, h.trans hs, hc, .inl rfl⟩⟩

/-- Behind the viable tokens `w` the token `t` is at fault, whatever follows. -/
structure Breaks (limit : Nat) (p : Progress) (w : List Token) (t : Token) (f : Fault) :
    Prop where
  blames : f.Blames t
  viable : ∃ c, (p.run limit (w ++ c)).result = .ok ()
  certain : ∀ rest, (p.run limit (w ++ t :: rest)).result = .error f

theorem Reaches.breaks {limit : Nat} {p q : Progress} {w : List Token} {t : Token} {f : Fault}
    (h : Reaches limit p w q) (hb : f.Blames t)
    (hs : ∀ rest, (q.run limit (t :: rest)).result = .error f) : Breaks limit p w t f := by
  refine ⟨hb, h.viable, fun rest => ?_⟩
  rw [h.run_append]
  exact hs rest

theorem Reaches.breaks_behind_end {limit : Nat} {p q : Progress} {w : List Token} {e : Token}
    (h : Reaches limit p w q) (hc : q.Complete) (he : e.isEnd = true) (t : Token) :
    Breaks limit p (w ++ [e]) t (.ofToken [] t) := by
  refine ⟨Fault.ofToken_blames .., ⟨[], ?_⟩, fun rest => ?_⟩
  · exact (run_ok_iff ..).mpr ⟨w, q, h, hc, .inr ⟨e, he, by simp⟩⟩
  · rw [List.append_assoc, h.run_append, List.singleton_append, (Settles.ended he).run_eq]
    simp [finish, hc]

theorem finish_of_not_complete {p : Progress} (h : ¬ p.Complete) (t : Token)
    (rest : List Token) :
    p.finish t rest = ⟨.error (.ofToken p.expected t), p.consumed, p.deepest⟩ := by
  simp [finish, h]

/-- A run that fails has run out of tokens, or has found the one that breaks it. -/
theorem run_error_splits {limit : Nat} {p : Progress} {ts : List Token} {f : Fault}
    (h : (p.run limit ts).result = .error f) :
    ((∃ c, (p.run limit (ts ++ c)).result = .ok ()) ∧ f.Blames Recognizer.missingEnd ∧
      f.index (p.run limit ts).consumed = p.consumed + ts.length) ∨
    ∃ w t rest, ts = w ++ t :: rest ∧ Breaks limit p w t f ∧
      f.index (p.run limit ts).consumed = p.consumed + w.length := by
  obtain ⟨w, q, rest, rfl, hr, hs⟩ := run_splits limit p ts
  have hq := hr.consumed
  generalize p.run limit (w ++ rest) = o at h hs
  cases hs with
  | ranOut =>
      have hc : ¬ q.Complete := fun hc => by simp [finish, hc] at h
      rw [finish_of_not_complete hc] at h ⊢
      cases h
      refine .inl ⟨by simpa using hr.viable, Fault.ofToken_blames .., ?_⟩
      simp [Fault.index, Fault.ofToken, hq]
  | @ended t rest he =>
      by_cases hc : q.Complete
      · -- The end marker is in its place, so the token behind it is at fault.
        cases rest with
        | nil => simp [finish, hc] at h
        | cons x rest =>
            simp only [finish, hc, ite_true] at h ⊢
            cases h
            refine .inr ⟨w ++ [t], x, rest, by simp, hr.breaks_behind_end hc he x, ?_⟩
            simp [Fault.index, Fault.ofToken, hq, Nat.add_assoc]
      · rw [finish_of_not_complete hc] at h ⊢
        cases h
        refine .inr ⟨w, t, rest, rfl, hr.breaks (Fault.ofToken_blames ..) ?_, ?_⟩
        · intro rest
          rw [(Settles.ended he).run_eq, finish_of_not_complete hc]
        · simp [Fault.index, Fault.ofToken, hq]
  | @stopped t rest _ s he hm =>
      cases h
      have hstop (rest : List Token) : (q.run limit (t :: rest)).result = .error f := by
        rw [(Settles.stopped he hm).run_eq]
      obtain ⟨rfl, rfl⟩ | ⟨_, ht, _, rfl, rfl⟩ := move_stop_cases hm
      · refine .inr ⟨w, t, rest, rfl, hr.breaks (Fault.ofToken_blames ..) hstop, ?_⟩
        simp [Fault.index, Fault.ofToken, hq]
      · refine .inr ⟨w, t, rest, rfl, hr.breaks ⟨ht, rfl⟩ hstop, ?_⟩
        simp [Fault.index, hq]

end Progress

theorem exists_append_of_take_eq {us w : List Token} {t : Token}
    (h : us.take (w.length + 1) = w ++ [t]) : ∃ rest, us = w ++ t :: rest := by
  refine ⟨us.drop (w.length + 1), ?_⟩
  calc us = us.take (w.length + 1) ++ us.drop (w.length + 1) := (List.take_append_drop ..).symm
    _ = w ++ t :: us.drop (w.length + 1) := by rw [h, List.append_assoc, List.singleton_append]

/-- Let `j` be the place of the token that a fault is about, or the end if it is
the missing end marker. What stands before it can be completed to a program, and
whatever has the same tokens up to it has the same fault. -/
theorem fault_at_first_impossible_token (settings : GrammarSettings) (ts : List Token)
    (f : Fault) (h : recognize settings ts = .error f) :
    let j := f.index (Recognizer.ofTokens settings ts).recognize.2.consumed
    j ≤ ts.length ∧ f.Blames (ts[j]?.getD Recognizer.missingEnd) ∧
      (∃ c, recognize settings (ts.take j ++ c) = .ok ()) ∧
      (j < ts.length → ∀ us : List Token, us.take (j + 1) = ts.take (j + 1) →
        recognize settings us = .error f) := by
  intro j
  have hj : j = f.index (({} : Progress).run settings.depthLimit ts).consumed :=
    congrArg (fun o : Outcome => f.index o.consumed) (Recognizer.outcome_ofTokens settings ts)
  simp only [recognize_eq_result] at h ⊢
  obtain ⟨hv, hb, hi⟩ | ⟨w, t, rest, rfl, hb, hi⟩ := Progress.run_error_splits h
  · have hjl : j = ts.length := by rw [hj, hi, Nat.zero_add]
    refine ⟨by omega, ?_, ?_, by omega⟩
    · simpa [hjl] using hb
    · simpa [hjl] using hv
  · have hjl : j = w.length := by rw [hj, hi, Nat.zero_add]
    refine ⟨by simp [hjl], ?_, ?_, fun _ us hu => ?_⟩
    · simpa [hjl] using hb.blames
    · simpa [hjl] using hb.viable
    · have hw : us.take (w.length + 1) = w ++ [t] := by
        simpa [hjl, List.take_append, List.take_of_length_le] using hu
      obtain ⟨rest', rfl⟩ := exists_append_of_take_eq hw
      exact hb.certain rest'

/-- A second parenthesis where one may be open: the first alone is viable, and
no tokens behind the second are read. -/
theorem fault_at_second_parenthesis :
    let settings : GrammarSettings := ⟨1, false⟩
    let t : Token := ⟨.openParen, some "(", .dummy⟩
    recognize settings [t, t] = .error (.nestingTooDeep 2 1 .dummy) ∧
      (∃ c, recognize settings ([t] ++ c) = .ok ()) ∧
      ∀ us : List Token, us.take 2 = [t, t] →
        recognize settings us = .error (.nestingTooDeep 2 1 .dummy) := by
  intro settings t
  have h : recognize settings [t, t] = .error (.nestingTooDeep 2 1 .dummy) := rfl
  have hj : (Recognizer.ofTokens settings [t, t]).recognize.2.consumed = 2 := rfl
  have hall := fault_at_first_impossible_token settings [t, t] _ h
  simp only [hj] at hall
  obtain ⟨_, _, hv, hc⟩ := hall
  exact ⟨h, hv, hc (by decide)⟩

end ExprCheck.Grammar
