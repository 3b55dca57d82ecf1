import ExprCheck.Proofs.Grammar.Descent
import Mathlib.Logic.Relation

/-!
The descent as a machine. What is still to be done is a list of tasks, the next
one first, where the productions wait for each other. The machine has no bound on
rounds or levels, checks the depth where a group begins, and comes from every
recognizer to the end that recognizing a program comes to.
-/

namespace ExprCheck.Grammar

inductive Task where
  | program
  | expression
  | term
  | factor
  /-- Terms may follow, each behind a plus. -/
  | moreTerms
  /-- Factors may follow, each behind a times. -/
  | moreFactors
  /-- A group has to be closed. -/
  | closing
  /-- The program has to end. -/
  | ending
deriving DecidableEq, Repr

inductive Descent where
  | busy (tasks : List Task) (r : Recognizer)
  | stopped (fault : Fault) (r : Recognizer)

namespace Descent

def recognizer : Descent → Recognizer
  | busy _ r | stopped _ r => r

/-- Goes another round if the separator is ahead. -/
def again (separator : Category) (item loop : Task) (rest : List Task) (r : Recognizer) :
    Descent :=
  if r.lookahead.category = separator then busy (item :: loop :: rest) r.step else busy rest r

def startFactor (rest : List Task) (r : Recognizer) : Descent :=
  match r.lookahead.category with
  | .integer => busy rest r.step
  | .openParen =>
    let s := { r.step with depth := r.step.depth + 1 }
    if s.maxDepth < s.depth then
      stopped (.nestingTooDeep s.depth s.maxDepth r.lookahead.span) s
    else
      busy (.expression :: .closing :: rest)
        { s with maxDepthSeen := max s.maxDepthSeen s.depth }
  | _ => stopped (.ofToken [.integer, .openParen] r.lookahead) r

def endProgram (rest : List Task) (r : Recognizer) : Descent :=
  if r.lookahead.category = .endOfInput then
    match r.step.source with
    | [] => busy rest r.step
    | t :: source => stopped (.ofToken [] t) { r.step with source }
  else stopped (.ofToken [.endOfInput] r.lookahead) r

def perform (rest : List Task) (r : Recognizer) : Task → Descent
  | .program => busy (.expression :: .ending :: rest) (r.entered .program)
  | .expression => busy (.term :: .moreTerms :: rest) (r.entered .expression)
  | .term => busy (.factor :: .moreFactors :: rest) (r.entered .term)
  | .factor => startFactor rest (r.entered .factor)
  | .moreTerms => again .plus .term .moreTerms rest r
  | .moreFactors => again .times .factor .moreFactors rest r
  | .closing =>
    if r.lookahead.category = .closeParen then
      busy rest { r.step with depth := r.step.depth - 1 }
    else stopped (.ofToken [.closeParen] r.lookahead) r
  | .ending => endProgram rest r

/-- Where the next task leads; there is none at an end or behind a fault. -/
def next : Descent → Option Descent
  | busy (task :: rest) r => some (perform rest r task)
  | busy [] _ | stopped .. => none

def Runs : Descent → Descent → Prop :=
  Relation.ReflTransGen fun c d => c.next = some d

theorem runs_perform {task : Task} {rest : List Task} {r : Recognizer} {d : Descent}
    (h : Runs (perform rest r task) d) : Runs (busy (task :: rest) r) d :=
  Relation.ReflTransGen.head rfl h

theorem Runs.trans {c d e : Descent} (h : Runs c d) (k : Runs d e) : Runs c e :=
  Relation.ReflTransGen.trans h k

/-- What holds at the start and is kept by every step holds wherever a run leads. -/
theorem Runs.keeps {P : Descent → Prop} {c d : Descent} (h : Runs c d) (hc : P c)
    (hstep : ∀ task rest r, P (busy (task :: rest) r) → P (perform rest r task)) : P d := by
  induction h with
  | refl => exact hc
  | @tail e d _ hn ih =>
      cases e with
      | busy tasks r =>
          cases tasks with
          | nil => cases hn
          | cons task rest =>
              obtain rfl := Option.some.inj hn
              exact hstep task rest r ih
      | stopped f r => cases hn

end Descent

namespace Recognition
open Recognizer Descent

variable {limit depth bound : Nat} {stops : List Category} {m : Recognition Unit}
  {tasks : List Task}

/-- At a depth, and with at most `bound` tokens pending, a production does what
the machine does with some tasks. -/
def Performs (limit depth bound : Nat) (tasks : List Task) (m : Recognition Unit) : Prop :=
  ∀ r : Recognizer, r.maxDepth = limit → r.depth = depth → r.pending ≤ bound → ∀ rest,
    m.Meets r (fun _ s => Runs (.busy (tasks ++ rest) r) (.busy rest s))
      (fun f s => Runs (.busy (tasks ++ rest) r) (.stopped f s))

theorem enter_performs {production : Production} {task : Task}
    (ht : ∀ rest r, perform rest r task = .busy (tasks ++ rest) (r.entered production))
    (h : Performs limit depth bound tasks m) :
    Performs limit depth bound [task] (do enter production; m) := by
  intro r hl hd hb rest
  apply Meets.bind
  apply meets_enter
  have hrun {d : Descent} (hd : Runs (.busy (tasks ++ rest) (r.entered production)) d) :
      Runs (.busy (task :: rest) r) d := by
    apply runs_perform
    rw [ht]
    exact hd
  obtain ⟨notices, hr⟩ := r.entered_frame production
  rw [hr] at hrun ⊢
  exact (h { r with notices } hl hd hb rest).mono (fun _ _ => hrun) (fun _ _ => hrun)

theorem separated_performs {separator : Category} {item loop : Task} (hb : 0 < bound)
    (hs : separator = .plus ∨ separator = .times)
    (hloop : ∀ rest r, perform rest r loop = again separator item loop rest r)
    (hd : Descends limit depth bound stops m) (h : Performs limit depth bound [item] m) :
    Performs limit depth bound [item, loop] (separated separator m bound) := by
  -- As for `Descends`, the rounds left suffice for the tokens pending.
  have rounds (n : Nat) : 0 < n → n ≤ bound → ∀ r : Recognizer, r.maxDepth = limit →
      r.depth = depth → r.pending ≤ n → ∀ rest,
      (separated separator m n).Meets r
        (fun _ s => Runs (.busy (item :: loop :: rest) r) (.busy rest s))
        (fun f s => Runs (.busy (item :: loop :: rest) r) (.stopped f s)) := by
    induction n with
    | zero => intro h0; omega
    | succ n ih =>
        intro _ hn r hl hdr hp rest
        apply meets_separated
        have hboth := (hd r hl hdr (by omega)).and (h r hl hdr (by omega) (loop :: rest))
        refine hboth.mono (fun _ s hr => ⟨?_, ?_⟩) (fun _ _ hr => hr.2)
        · intro hc
          obtain ⟨hpass, hrun⟩ := hr
          have hlt := s.pending_step (by rcases hs with rfl | rfl <;> simp [Token.isEnd, hc])
          have hpr := hpass.pending
          have hround {d : Descent} (hd : Runs (.busy (item :: loop :: rest) s.step) d) :
              Runs (.busy (item :: loop :: rest) r) d := by
            refine hrun.trans (runs_perform ?_)
            rw [hloop, again, if_pos hc]
            exact hd
          exact (ih (by omega) (by omega) s.step (by simp [hpass.maxDepth, hl])
            (by simp [hpass.depth, hdr]) (by omega) rest).mono
            (fun _ _ => hround) (fun _ _ => hround)
        · intro hc
          refine hr.2.trans (runs_perform ?_)
          rw [hloop, again, if_neg hc]
          exact .refl
  exact fun r hl hdr hp rest => rounds bound hb (Nat.le_refl _) r hl hdr hp rest

theorem term_performs (hb : 0 < bound) (hd : Descends limit depth bound [] m)
    (h : Performs limit depth bound [.factor] m) :
    Performs limit depth bound [.term] (term bound m) :=
  enter_performs (fun _ _ => rfl)
    (separated_performs hb (.inr rfl) (fun _ _ => rfl) hd h)

theorem expression_performs (hb : 0 < bound) (hd : Descends limit depth bound [] m)
    (h : Performs limit depth bound [.factor] m) :
    Performs limit depth bound [.expression] (expression bound m) :=
  enter_performs (fun _ _ => rfl)
    (separated_performs hb (.inl rfl) (fun _ _ => rfl) (term_descends hb hd)
      (term_performs hb hd h))

theorem factorWith_performs {group : Span → Recognition Unit}
    (h : ∀ r : Recognizer, r.maxDepth = limit → r.depth = depth → r.pending ≤ bound →
      r.lookahead.category = .openParen → ∀ rest,
      (group r.lookahead.span).Meets r.step
        (fun _ s => Runs (startFactor rest r) (.busy rest s))
        (fun f s => Runs (startFactor rest r) (.stopped f s))) :
    Performs limit depth bound [.factor] (factorWith group) := by
  intro r hl hd hb rest
  have hstart {d : Descent} (hd : Runs (startFactor rest (r.entered .factor)) d) :
      Runs (.busy (.factor :: rest) r) d := runs_perform hd
  obtain ⟨notices, hr⟩ := r.entered_frame .factor
  rw [hr] at hstart
  apply meets_factorWith <;> rw [hr]
  · intro hc
    apply hstart
    simp only [startFactor, hc]
    exact .refl
  · intro hc
    exact (h { r with notices } hl hd hb hc rest).mono (fun _ _ => hstart) (fun _ _ => hstart)
  · intro hni hno
    apply hstart
    unfold startFactor
    split
    · next hc => exact absurd hc hni
    · next hc => exact absurd hc hno
    · exact .refl

theorem group_performs {inside : Recognition Unit}
    (h : Performs limit (depth + 1) bound [.expression] inside) {r : Recognizer}
    (hl : r.maxDepth = limit) (hrd : r.depth = depth) (hp : r.pending ≤ bound)
    (hc : r.lookahead.category = .openParen) (hroom : depth < limit) (rest : List Task) :
    Meets (do
        modify fun r =>
          { r with depth := r.depth + 1, maxDepthSeen := max r.maxDepthSeen (r.depth + 1) }
        inside
        let _ ← expect .closeParen
        modify fun r => { r with depth := r.depth - 1 })
      r.step (fun _ s => Runs (startFactor rest r) (.busy rest s))
      (fun f s => Runs (startFactor rest r) (.stopped f s)) := by
  have hlt := r.pending_step (by simp [Token.isEnd, hc])
  apply Meets.bind
  -- The recognizer inside the group.
  let g : Recognizer :=
    { r.step with
      depth := r.step.depth + 1
      maxDepthSeen := max r.step.maxDepthSeen (r.step.depth + 1) }
  change Meets _ g _ _
  have hstart : startFactor rest r = .busy (.expression :: .closing :: rest) g := by
    have hgap : ¬ r.step.maxDepth < r.step.depth + 1 := by simp [hl, hrd]; omega
    simp only [startFactor, hc, if_neg hgap]
    rfl
  rw [hstart]
  have hgp : g.pending = r.step.pending := rfl
  have hgl : g.maxDepth = limit := by simp [g, hl]
  have hgd : g.depth = depth + 1 := by simp [g, hrd]
  apply Meets.bind
  refine (h g hgl hgd (by omega) (.closing :: rest)).mono (fun _ s hs => ?_) (fun f s hs => hs)
  apply Meets.bind
  apply meets_expect
  · intro hcl
    refine hs.trans (runs_perform ?_)
    rw [perform, if_pos hcl]
    exact .refl
  · intro hcl
    refine hs.trans (runs_perform ?_)
    rw [perform, if_neg hcl]
    exact .refl

theorem factor_performs (hb : 0 < bound) (room : Nat) (hr : limit - depth = room) :
    Performs limit depth bound [.factor] (factor bound room) := by
  induction room generalizing depth with
  | zero =>
      rw [factor]
      apply factorWith_performs
      intro r hl hd _ hc rest
      have hdeep : r.step.maxDepth < r.step.depth + 1 := by simp [hl, hd]; omega
      change Runs _ (.stopped _ _)
      simp only [startFactor, hc, if_pos hdeep]
      exact .refl
  | succ room ih =>
      rw [factor]
      apply factorWith_performs
      intro r hl hd hp hc rest
      have hr' : limit - (depth + 1) = room := by omega
      have hf : Descends limit (depth + 1) bound [] (factor bound room) :=
        factor_descends hb room hr'
      exact group_performs (expression_performs hb hf (ih hr')) hl hd hp hc (by omega) rest

theorem program_performs (r : Recognizer) :
    program.Meets r (fun _ s => Runs (.busy [.program] r) (.busy [] s))
      (fun f s => Runs (.busy [.program] r) (.stopped f s)) := by
  rw [program]
  apply Meets.bind
  apply meets_enter
  have hstart {d : Descent} (hd : Runs (.busy [.expression, .ending] (r.entered .program)) d) :
      Runs (.busy [.program] r) d := runs_perform hd
  obtain ⟨notices, hr⟩ := r.entered_frame .program
  rw [hr] at hstart ⊢
  apply Meets.bind
  have hb := Nat.succ_pos r.source.length
  have hd : Descends r.maxDepth r.depth (r.source.length + 1) []
      (factor (r.source.length + 1) (r.maxDepth - r.depth)) :=
    factor_descends hb _ rfl
  have hf : Performs r.maxDepth r.depth (r.source.length + 1) [.factor]
      (factor (r.source.length + 1) (r.maxDepth - r.depth)) :=
    factor_performs hb _ rfl
  apply Meets.bind
  refine (expression_performs hb hd hf { r with notices } rfl rfl (pending_le _) [.ending]).mono
    (fun _ s hs => ?_) (fun _ _ => hstart)
  have hend {d : Descent} (hd : Runs (endProgram [] s) d) : Runs (.busy [.program] r) d :=
    hstart (hs.trans (runs_perform hd))
  apply Meets.bind
  apply meets_expect
  · intro he
    apply Meets.bind
    apply meets_get
    cases hsrc : s.step.source with
    | nil =>
        apply hend
        simp only [endProgram, if_pos he, hsrc]
        exact .refl
    | cons t source =>
        apply hend
        simp only [endProgram, if_pos he, hsrc]
        exact .refl
  · intro he
    apply hend
    rw [endProgram, if_neg he]
    exact .refl

end Recognition
end ExprCheck.Grammar
