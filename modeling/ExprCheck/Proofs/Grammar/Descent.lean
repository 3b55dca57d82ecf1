import ExprCheck.Proofs.Grammar.OnePass
import ExprCheck.Proofs.Grammar.Recognition

/-!
The descent of the recognizer is the one-pass reading. Each production keeps
what the pass will say of the tokens ahead: where the production succeeds, the
pass goes on behind it, and where it stops, the pass stops with the same fault
and the same counts.
-/

namespace ExprCheck.Grammar
namespace Recognizer

/-- The reading that a recognizer has come to. -/
def progress (r : Recognizer) (needsOperand : Bool) : Progress :=
  ⟨needsOperand, r.depth, r.consumed, r.maxDepthSeen⟩

/-- What one pass over the tokens ahead comes to. -/
def outlook (r : Recognizer) (needsOperand : Bool) : Outcome :=
  (r.progress needsOperand).run r.maxDepth (r.lookahead :: r.source)

/-- Behind a step the pass finds what it would find behind the lookahead. -/
theorem run_step (r : Recognizer) (h : r.lookahead.isEnd = false) (limit : Nat) (p : Progress) :
    p.run limit (r.step.lookahead :: r.step.source) = p.run limit r.source := by
  cases hs : r.source with
  | nil =>
      rw [r.step_of_nil h hs]
      simp only [hs]
      exact p.run_missingEnd limit
  | cons t ts => rw [r.step_of_cons h hs]

/-- A recognizer that has stepped over the lookahead, and counts as the pass
does, looks at the same outcome. -/
theorem outlook_of_on {r s : Recognizer} {needs needs' : Bool}
    (hm : (r.progress needs).move r.maxDepth r.lookahead = .on (s.progress needs'))
    (hd : s.maxDepth = r.maxDepth) (hl : s.lookahead = r.step.lookahead)
    (hs : s.source = r.step.source) : s.outlook needs' = r.outlook needs := by
  have he := Progress.isEnd_of_move_on hm
  calc s.outlook needs'
      = (s.progress needs').run r.maxDepth (r.step.lookahead :: r.step.source) := by
        rw [outlook, hd, hl, hs]
    _ = (s.progress needs').run r.maxDepth r.source := r.run_step he _ _
    _ = r.outlook needs := by
        simp only [outlook, Progress.run, he, hm, Bool.false_eq_true, ite_false]

theorem outlook_integer (r : Recognizer) (h : r.lookahead.category = .integer) :
    r.step.outlook false = r.outlook true := by
  apply outlook_of_on <;> simp [progress, Progress.move, Progress.takeInteger, h]

theorem outlook_operator (r : Recognizer)
    (h : r.lookahead.category = .plus ∨ r.lookahead.category = .times) :
    r.step.outlook true = r.outlook false := by
  apply outlook_of_on <;> rcases h with h | h <;>
    simp [progress, Progress.move, Progress.takeOperator, h]

theorem outlook_openParen (r : Recognizer) (h : r.lookahead.category = .openParen)
    (hd : r.depth < r.maxDepth) :
    { r.step with
      depth := r.step.depth + 1
      maxDepthSeen := max r.step.maxDepthSeen (r.step.depth + 1) : Recognizer }.outlook true =
      r.outlook true := by
  apply outlook_of_on <;> simp [progress, Progress.move, Progress.openGroup, h, hd]

theorem outlook_closeParen (r : Recognizer) (h : r.lookahead.category = .closeParen)
    (hd : r.depth ≠ 0) :
    { r.step with depth := r.step.depth - 1 : Recognizer }.outlook false = r.outlook false := by
  apply outlook_of_on <;> simp [progress, Progress.move, Progress.closeGroup, h, hd]

theorem outlook_tooDeep (r : Recognizer) (h : r.lookahead.category = .openParen)
    (hd : r.maxDepth ≤ r.depth) :
    r.outlook true =
      ⟨.error (.nestingTooDeep (r.depth + 1) r.maxDepth r.lookahead.span),
        r.consumed + 1, r.maxDepthSeen⟩ := by
  have he : r.lookahead.isEnd = false := by simp [Token.isEnd, h]
  have hm : (r.progress true).move r.maxDepth r.lookahead =
      .stop (.nestingTooDeep (r.depth + 1) r.maxDepth r.lookahead.span)
        { r.progress true with consumed := r.consumed + 1 } := by
    simp [progress, Progress.move, h, Nat.not_lt.mpr hd]
  exact (Progress.Settles.stopped he hm).run_eq

theorem outlook_unexpected (r : Recognizer) {c : Category}
    (hx : (r.progress false).expected = [c]) (ha : r.lookahead.category ∉ [.plus, .times])
    (hc : r.lookahead.category ≠ c) :
    r.outlook false = ⟨.error (.ofToken [c] r.lookahead), r.consumed, r.maxDepthSeen⟩ := by
  have hn : r.lookahead.category ∉ (r.progress false).expected := by simp [hx, hc]
  rw [outlook, Progress.run_of_unexpected hn (fun _ => by simpa using ha), hx]
  rfl

/-- From `r` to `s` an operand has been stepped over, with none of `stops`
behind it. -/
structure Passes (stops : List Category) (r s : Recognizer) : Prop where
  outlook : s.outlook false = r.outlook true
  depth : s.depth = r.depth
  maxDepth : s.maxDepth = r.maxDepth
  pending : s.pending < r.pending
  ahead : s.lookahead.category ∉ stops

theorem Passes.of_notices {stops : List Category} {r s : Recognizer} {notices : List Notice}
    (h : Passes stops { r with notices } s) : Passes stops r s :=
  ⟨h.outlook, h.depth, h.maxDepth, h.pending, h.ahead⟩

/-- The pass stops with the fault, and with the counts of `s`. -/
def Halts (r : Recognizer) (f : Fault) (s : Recognizer) : Prop :=
  r.outlook true = ⟨.error f, s.consumed, s.maxDepthSeen⟩

end Recognizer

namespace Recognition
open Recognizer

variable {limit depth bound : Nat} {stops : List Category} {m : Recognition Unit}

/-- At a depth, and with at most `bound` tokens pending, a production goes the
way of the pass. -/
def Descends (limit depth bound : Nat) (stops : List Category) (m : Recognition Unit) : Prop :=
  ∀ r : Recognizer, r.maxDepth = limit → r.depth = depth → r.pending ≤ bound →
    m.Meets r (fun _ => Passes stops r) (Halts r)

theorem enter_descends (production : Production) (h : Descends limit depth bound stops m) :
    Descends limit depth bound stops (do enter production; m) := by
  intro r hl hd hb
  apply Meets.bind
  apply meets_enter
  obtain ⟨notices, hr⟩ := r.entered_frame production
  rw [hr]
  exact (h { r with notices } hl hd hb).mono (fun _ _ => Passes.of_notices) (fun _ _ => id)

theorem separated_descends {separator : Category} {item : Recognition Unit}
    (hs : separator = .plus ∨ separator = .times) (hb : 0 < bound)
    (h : Descends limit depth bound stops item) :
    Descends limit depth bound (separator :: stops) (separated separator item bound) := by
  -- Each round takes an item and a separator, so the rounds left suffice for the
  -- tokens pending.
  have rounds (n : Nat) : 0 < n → n ≤ bound → ∀ r : Recognizer, r.maxDepth = limit →
      r.depth = depth → r.pending ≤ n →
      (separated separator item n).Meets r (fun _ => Passes (separator :: stops) r) (Halts r) := by
    induction n with
    | zero => intro h0; omega
    | succ n ih =>
        intro _ hn r hl hd hp
        apply meets_separated
        refine (h r hl hd (by omega)).mono (fun _ s hr => ⟨?_, ?_⟩) (fun _ _ => id)
        · intro hc
          have hop : s.step.outlook true = r.outlook true := by
            rw [s.outlook_operator (by rwa [hc]), hr.outlook]
          have hlt := s.pending_step (by rcases hs with rfl | rfl <;> simp [Token.isEnd, hc])
          have hpr := hr.pending
          refine (ih (by omega) (by omega) s.step (by simp [hr.maxDepth, hl])
            (by simp [hr.depth, hd]) (by omega)).mono (fun _ u hu => ?_) (fun f u hu => ?_)
          · exact
              { outlook := hu.outlook.trans hop
                depth := by simp [hu.depth, hr.depth]
                maxDepth := by simp [hu.maxDepth, hr.maxDepth]
                pending := by have := hu.pending; omega
                ahead := hu.ahead }
          · exact hop.symm.trans hu
        · intro hc
          exact { hr with ahead := by simp [hc, hr.ahead] }
  exact fun r hl hd hp => rounds bound hb (Nat.le_refl _) r hl hd hp

theorem term_descends {factor : Recognition Unit} (hb : 0 < bound)
    (h : Descends limit depth bound [] factor) :
    Descends limit depth bound [.times] (term bound factor) :=
  enter_descends .term (separated_descends (.inr rfl) hb h)

theorem expression_descends {factor : Recognition Unit} (hb : 0 < bound)
    (h : Descends limit depth bound [] factor) :
    Descends limit depth bound [.plus, .times] (expression bound factor) :=
  enter_descends .expression (separated_descends (.inl rfl) hb (term_descends hb h))

theorem factorWith_descends {group : Span → Recognition Unit}
    (h : ∀ r : Recognizer, r.maxDepth = limit → r.depth = depth → r.pending ≤ bound →
      r.lookahead.category = .openParen →
      (group r.lookahead.span).Meets r.step (fun _ => Passes [] r) (Halts r)) :
    Descends limit depth bound [] (factorWith group) := by
  intro r hl hd hb
  obtain ⟨notices, hr⟩ := r.entered_frame .factor
  apply meets_factorWith <;> rw [hr]
  · intro hc
    exact
      { outlook := outlook_integer { r with notices } hc
        depth := by simp
        maxDepth := by simp
        pending := pending_step { r with notices } (by simp [Token.isEnd, hc])
        ahead := by simp }
  · intro hc
    exact (h { r with notices } hl hd hb hc).mono (fun _ _ => Passes.of_notices)
      (fun _ _ => id)
  · intro hni hno
    exact Progress.run_of_unexpected (by simp [Progress.expected, progress, hni, hno])
      (by simp [progress]) _

theorem group_descends {inside : Recognition Unit}
    (h : Descends limit (depth + 1) bound [.plus, .times] inside) {r : Recognizer}
    (hl : r.maxDepth = limit) (hd : r.depth = depth) (hp : r.pending ≤ bound)
    (hc : r.lookahead.category = .openParen) (hroom : depth < limit) :
    Meets (do
        modify fun r =>
          { r with depth := r.depth + 1, maxDepthSeen := max r.maxDepthSeen (r.depth + 1) }
        inside
        let _ ← expect .closeParen
        modify fun r => { r with depth := r.depth - 1 })
      r.step (fun _ => Passes [] r) (Halts r) := by
  have hlt := r.pending_step (by simp [Token.isEnd, hc])
  have hopen := r.outlook_openParen hc (by omega)
  apply Meets.bind
  -- The recognizer inside the group.
  let g : Recognizer :=
    { r.step with
      depth := r.step.depth + 1
      maxDepthSeen := max r.step.maxDepthSeen (r.step.depth + 1) }
  change Meets _ g _ _
  have hgp : g.pending = r.step.pending := rfl
  apply Meets.bind
  refine (h g (by simp [g, hl]) (by simp [g, hd]) (by omega)).mono
    (fun _ s hs => ?_) (fun f s hs => hopen.symm.trans hs)
  have hsd : s.depth = r.depth + 1 := by simp [hs.depth, g]
  have hsp := hs.pending
  have hso : s.outlook false = r.outlook true := hs.outlook.trans hopen
  apply Meets.bind
  apply meets_expect
  · intro hcl
    have hslt := s.pending_step (by simp [Token.isEnd, hcl])
    exact
      { outlook := (s.outlook_closeParen hcl (by omega)).trans hso
        depth := by simp [hsd]
        maxDepth := by simp [hs.maxDepth, g]
        pending := by
          change s.step.pending < r.pending
          omega
        ahead := by simp }
  · intro hcl
    have hx : (s.progress false).expected = [.closeParen] := by
      simp [Progress.expected, progress, hsd]
    exact hso.symm.trans (s.outlook_unexpected hx hs.ahead hcl)

theorem factor_descends (hb : 0 < bound) (room : Nat) (hr : limit - depth = room) :
    Descends limit depth bound [] (factor bound room) := by
  induction room generalizing depth with
  | zero =>
      rw [factor]
      apply factorWith_descends
      intro r hl hd _ hc
      change Halts r (.nestingTooDeep (r.step.depth + 1) r.step.maxDepth r.lookahead.span)
        { r.step with depth := r.step.depth + 1 }
      simpa [Halts] using r.outlook_tooDeep hc (by omega)
  | succ room ih =>
      rw [factor]
      apply factorWith_descends
      intro r hl hd hp hc
      have hf : Descends limit (depth + 1) bound [] (factor bound room) := ih (by omega)
      exact group_descends (expression_descends hb hf) hl hd hp hc (by omega)

theorem program_descends (r : Recognizer) (hd : r.depth = 0) :
    program.Meets r (fun _ s => r.outlook true = ⟨.ok (), s.consumed, s.maxDepthSeen⟩)
      (Halts r) := by
  rw [program]
  apply Meets.bind
  apply meets_enter
  obtain ⟨notices, hr⟩ := r.entered_frame .program
  rw [hr]
  apply Meets.bind
  have hb := Nat.succ_pos r.source.length
  have hf : Descends r.maxDepth 0 (r.source.length + 1) []
      (factor (r.source.length + 1) (r.maxDepth - r.depth)) :=
    factor_descends hb _ (by omega)
  apply Meets.bind
  refine (expression_descends hb hf { r with notices } rfl hd (pending_le _)).mono
    (fun _ s hs => ?_) (fun _ _ => id)
  have hso : s.outlook false = r.outlook true := hs.outlook
  have hsd : s.depth = 0 := hs.depth.trans hd
  apply Meets.bind
  apply meets_expect
  · intro he
    have hend : s.lookahead.isEnd = true := by simp [Token.isEnd, he]
    have hf : s.outlook false = (s.progress false).finish s.lookahead s.source :=
      (Progress.Settles.ended hend).run_eq
    rw [s.step_of_isEnd hend]
    apply Meets.bind
    apply meets_get
    rw [hso] at hf
    cases hsrc : s.source with
    | nil =>
        change r.outlook true = _
        simp [hf, Progress.finish, Progress.Complete, progress, hsd, hsrc]
    | cons t source =>
        change Halts r _ _
        simp [Halts, hf, Progress.finish, Progress.Complete, progress, hsd, hsrc]
  · intro he
    have hx : (s.progress false).expected = [.endOfInput] := by
      simp [Progress.expected, progress, hsd]
    exact hso.symm.trans (s.outlook_unexpected hx hs.ahead he)

end Recognition

namespace Recognizer

/-- What a recognizer tells of a program: the result and the two counts. -/
def outcome (r : Recognizer) : Outcome :=
  ⟨r.recognize.1, r.recognize.2.consumed, r.recognize.2.maxDepthSeen⟩

theorem outcome_eq_outlook (r : Recognizer) (hd : r.depth = 0) : r.outcome = r.outlook true := by
  have h := Recognition.program_descends r hd
  unfold Recognition.Meets at h
  cases hp : Recognition.program r with
  | ok _ s =>
      rw [hp] at h
      simpa [outcome, recognize, EStateM.run, hp, say] using h.symm
  | error f s =>
      rw [hp] at h
      simpa [outcome, recognize, EStateM.run, hp, say] using h.symm

theorem outcome_ofTokens (settings : GrammarSettings) (tokens : List Token) :
    (ofTokens settings tokens).outcome = ({} : Progress).run settings.depthLimit tokens := by
  rw [outcome_eq_outlook _ rfl]
  cases tokens with
  | nil => exact Progress.run_missingEnd _ _
  | cons t ts => rfl

end Recognizer

theorem recognize_eq_result (settings : GrammarSettings) (tokens : List Token) :
    recognize settings tokens = (({} : Progress).run settings.depthLimit tokens).result :=
  congrArg Outcome.result (Recognizer.outcome_ofTokens settings tokens)

/-- A new recognizer tells of any tokens what the one-pass reading tells: the
same result with the same fault, and the same counts of tokens and of depth. -/
theorem recognize_is_onePass (settings : GrammarSettings) (tokens : List Token) :
    let after := (Recognizer.ofTokens settings tokens).recognize
    let pass := ({ needsOperand := true, opened := 0, consumed := 0, deepest := 0 } :
      Progress).run settings.depthLimit tokens
    after.1 = pass.result ∧ after.2.consumed = pass.consumed ∧
      after.2.maxDepthSeen = pass.deepest := by
  have h := Recognizer.outcome_ofTokens settings tokens
  exact ⟨congrArg Outcome.result h, congrArg Outcome.consumed h, congrArg Outcome.deepest h⟩

end ExprCheck.Grammar
