import ExprCheck.Notice.Event
import ExprCheck.Proofs.Grammar.Requests

/-!
Where a recognizer stands in its tokens, whatever it has been asked for. The
count of consumed tokens tells the lookahead, since the first end marker stays
ahead for ever, and it tells whether an end marker was missed.
-/

namespace ExprCheck

/-- Whether an event warns and carries the code. -/
def Event.warnsOf (c : Code) (e : Event) : Bool :=
  e.level == .warning && e.code == c.id

theorem Notice.warnsOf_missingEnd_iff (elapsed : Duration) (n : Notice) :
    (n.describe elapsed).warnsOf .missingEnd = true ↔ n = .missingEnd := by
  cases n with
  | missingEnd => exact iff_of_true rfl rfl
  | _ => exact iff_of_false (Bool.eq_false_iff.mp rfl) (by simp)

namespace Grammar

/-- The tokens before the first end marker, and behind them that marker over and over. -/
def endless (ts : List Token) (k : Nat) : Token :=
  (ts.takeWhile (!·.isEnd))[k]?.getD ((ts.find? (·.isEnd)).getD Recognizer.missingEnd)

theorem endless_behind {done : List Token} (h : ∀ t ∈ done, t.isEnd = false) (rest : List Token)
    (k : Nat) : endless (done ++ rest) (done.length + k) = endless rest k := by
  have hwhile : ∀ t ∈ done, (!t.isEnd) = true := fun t ht => by simp [h t ht]
  have hfind : done.find? (·.isEnd) = none := by simpa using h
  simp [endless, List.takeWhile_append_of_pos hwhile, List.getElem?_append_right,
    List.find?_append, hfind]

theorem endless_zero (t : Token) (rest : List Token) : endless (t :: rest) 0 = t := by
  cases h : t.isEnd <;> simp [endless, h]

theorem endless_end {t : Token} (h : t.isEnd = true) (rest : List Token) (k : Nat) :
    endless (t :: rest) k = t := by
  simp [endless, h]

namespace Recognizer

/-- Where a recognizer can stand in the tokens it was made for. -/
inductive StandsIn (ts : List Token) (r : Recognizer) : Prop where
  | within (done : List Token) : ts = done ++ r.lookahead :: r.source →
      (∀ t ∈ done, t.isEnd = false) → r.lookahead.isEnd = false → r.consumed = done.length →
      r.notices.count .missingEnd = 0 → StandsIn ts r
  | atEnd (done rest : List Token) : ts = done ++ r.lookahead :: rest →
      (∀ t ∈ done, t.isEnd = false) → r.lookahead.isEnd = true → done.length ≤ r.consumed →
      r.notices.count .missingEnd = 0 → StandsIn ts r
  | ranOut : (∀ t ∈ ts, t.isEnd = false) → r.lookahead = missingEnd →
      ts.length ≤ r.consumed → r.notices.count .missingEnd = 1 → StandsIn ts r

theorem standsIn_ofTokens (settings : GrammarSettings) (ts : List Token) :
    (ofTokens settings ts).StandsIn ts := by
  cases ts with
  | nil => exact .ranOut (by simp) rfl (Nat.le_refl 0) rfl
  | cons t rest =>
      cases ht : t.isEnd with
      | true => exact .atEnd [] rest rfl (by simp) ht (Nat.le_refl 0) rfl
      | false => exact .within [] rfl (by simp) ht rfl rfl

namespace StandsIn

variable {ts : List Token} {r s : Recognizer}

theorem lookahead_eq (h : r.StandsIn ts) : r.lookahead = endless ts r.consumed := by
  cases h with
  | within done hts hdone _ hn _ =>
      have hahead := endless_behind hdone (r.lookahead :: r.source) 0
      rw [hts, hn]
      exact (hahead.trans (endless_zero ..)).symm
  | atEnd done rest hts hdone ht hn _ =>
      obtain ⟨k, hk⟩ := Nat.exists_eq_add_of_le hn
      rw [hts, hk, endless_behind hdone, endless_end ht]
  | ranOut hts hl hn _ =>
      obtain ⟨k, hk⟩ := Nat.exists_eq_add_of_le hn
      have hahead := endless_behind hts [] k
      rw [List.append_nil] at hahead
      rw [hk, hahead, hl]
      rfl

theorem missed_eq (h : r.StandsIn ts) :
    r.notices.count .missingEnd =
      if ts.any Token.isEnd = false ∧ ts.length ≤ r.consumed then 1 else 0 := by
  cases h with
  | within done hts _ _ hn hm => simp [hm, hts, hn]
  | atEnd done rest hts _ ht _ hm => simp [hm, hts, ht]
  | ranOut hts _ hn hm =>
      have hany : ts.any Token.isEnd = false := by simpa using hts
      simp [hm, hany, hn]

theorem step (h : r.StandsIn ts) : r.step.StandsIn ts := by
  cases h with
  | within done hts hdone ht hn hm =>
      have hdone' : ∀ t ∈ done ++ [r.lookahead], t.isEnd = false := by
        intro t hmem
        rcases List.mem_append.mp hmem with hmem | hmem
        · exact hdone t hmem
        · exact List.mem_singleton.mp hmem ▸ ht
      cases hsrc : r.source with
      | nil =>
          rw [r.step_of_nil ht hsrc]
          rw [hsrc] at hts
          refine .ranOut (hts ▸ hdone') rfl ?_ ?_
          · simp [hts, hn]
          · simp [hm]
      | cons u rest =>
          rw [r.step_of_cons ht hsrc]
          have hts' : ts = (done ++ [r.lookahead]) ++ u :: rest := by simp [hts, hsrc]
          cases hu : u.isEnd with
          | true => exact .atEnd _ rest hts' hdone' hu (by simp [hn]) hm
          | false => exact .within _ hts' hdone' hu (by simp [hn]) hm
  | atEnd done rest hts hdone ht hn hm =>
      rw [r.step_of_isEnd ht]
      exact .atEnd done rest hts hdone ht (Nat.le_succ_of_le hn) hm
  | ranOut hts hl hn hm =>
      rw [r.step_of_isEnd (hl ▸ missingEnd_isEnd)]
      exact .ranOut hts hl (Nat.le_succ_of_le hn) hm

theorem of_same (h : r.StandsIn ts) (hl : s.lookahead = r.lookahead)
    (hs : r.lookahead.isEnd = false → s.source = r.source) (hn : s.consumed = r.consumed)
    (hm : s.notices.count .missingEnd = r.notices.count .missingEnd) : s.StandsIn ts := by
  cases h with
  | within done hts hdone ht hr hc =>
      rw [← hl, ← hs ht] at hts
      exact .within done hts hdone (hl ▸ ht) (hn.trans hr) (hm.trans hc)
  | atEnd done rest hts hdone ht hr hc =>
      rw [← hl] at hts
      exact .atEnd done rest hts hdone (hl ▸ ht) (hn ▸ hr) (hm.trans hc)
  | ranOut hts ht hr hc => exact .ranOut hts (hl.trans ht) (hn ▸ hr) (hm.trans hc)

theorem change (hc : Change r s) (h : r.StandsIn ts) : s.StandsIn ts := by
  cases hc with
  | spoken hn => exact h.of_same rfl (fun _ => rfl) rfl (List.count_cons_of_ne hn)
  | stepped => exact h.step
  | opened _ | refused | closed => exact h.step.of_same rfl (fun _ => rfl) rfl rfl
  | pulled he =>
      refine h.of_same rfl (fun hno => ?_) rfl rfl
      rw [he] at hno
      cases hno

end StandsIn

/-- Whatever a recognizer has been asked for, ahead is the token that its count of consumed
tokens stands for. An expected token that is there is consumed, one that is not changes
nothing, and a warning was given if and only if the tokens ran out without an end marker. -/
theorem lookahead_at_consumed (settings : GrammarSettings) (ts : List Token)
    (requests : List Request) :
    let r := (ofTokens settings ts).afterAll requests
    r.lookahead = endless ts r.consumed ∧
    (∀ c, match r.expect c with
      | (.ok t, s) => t = endless ts r.consumed ∧ s.consumed = r.consumed + 1
      | (.error _, s) => s = r) ∧
    ∀ elapsed, r.notices.countP (fun n => (n.describe elapsed).warnsOf .missingEnd) =
      if ts.any Token.isEnd = false ∧ ts.length ≤ r.consumed then 1 else 0 := by
  intro r
  have h : r.StandsIn ts :=
    (afterAll_changes _ requests).keeps (standsIn_ofTokens settings ts) StandsIn.change
  refine ⟨h.lookahead_eq, fun c => ?_, fun elapsed => ?_⟩
  · obtain ⟨_, he⟩ | ⟨_, he⟩ := r.expect_cases c
    · rw [he]
      exact ⟨h.lookahead_eq, r.step_consumed⟩
    · rw [he]
  · rw [← h.missed_eq, List.count]
    refine List.countP_congr fun n _ => ?_
    rw [Notice.warnsOf_missingEnd_iff, beq_iff_eq]

end Recognizer
end Grammar
end ExprCheck
