import ExprCheck.Proofs.Grammar.Requests

/-!
The depth of nesting through all that a recognizer can be asked for. It is not
taken back behind a fault, so a program may begin at any depth. What holds then
is relative to that depth: it is exceeded by the number of groups still to be closed.
-/

namespace ExprCheck.Grammar

namespace Recognizer

structure InBounds (r : Recognizer) : Prop where
  one_le_maxDepth : 1 ≤ r.maxDepth
  maxDepth_le : r.maxDepth ≤ Limits.depth
  maxDepthSeen_le : r.maxDepthSeen ≤ r.maxDepth
  depth_le_consumed : r.depth ≤ r.consumed

/-- From `r` to `s` no count has fallen. -/
structure Grows (r s : Recognizer) : Prop where
  consumed : r.consumed ≤ s.consumed
  maxDepthSeen : r.maxDepthSeen ≤ s.maxDepthSeen

theorem inBounds_ofTokens (settings : GrammarSettings) (ts : List Token) :
    (ofTokens settings ts).InBounds where
  one_le_maxDepth := Nat.le_max_left ..
  maxDepth_le := Nat.max_le.mpr ⟨by decide, Nat.min_le_right ..⟩
  maxDepthSeen_le := Nat.zero_le _
  depth_le_consumed := Nat.le_refl 0

end Recognizer

variable {r s t : Recognizer}

theorem Change.inBounds (hc : Change r s) (h : r.InBounds) : s.InBounds := by
  obtain ⟨hone, hmax, hseen, hdepth⟩ := h
  cases hc with
  | spoken _ | pulled _ => exact ⟨hone, hmax, hseen, hdepth⟩
  | stepped | opened _ | refused | closed =>
      constructor <;> simp <;> omega

theorem Change.grows (hc : Change r s) : r.Grows s := by
  cases hc with
  | spoken _ | pulled _ => exact ⟨Nat.le_refl _, Nat.le_refl _⟩
  | stepped | refused | closed => constructor <;> simp
  | opened _ =>
      have hseen : r.maxDepthSeen ≤ max r.step.maxDepthSeen (r.step.depth + 1) := by
        rw [r.step_maxDepthSeen]
        exact Nat.le_max_left ..
      exact ⟨by simp, hseen⟩

theorem Changes.inBounds (hc : Changes r s) (h : r.InBounds) : s.InBounds :=
  hc.keeps h Change.inBounds

theorem Changes.grows (hc : Changes r s) : r.Grows s := by
  refine hc.keeps (P := r.Grows) ⟨Nat.le_refl _, Nat.le_refl _⟩ fun hchange h => ?_
  have hg := hchange.grows
  exact ⟨Nat.le_trans h.consumed hg.consumed, Nat.le_trans h.maxDepthSeen hg.maxDepthSeen⟩

namespace Descent

/-- How the depth compares with that at the start while tasks are left. Behind the end of a
program nothing is left to be closed. -/
structure Owes (start : Nat) (tasks : List Task) (r : Recognizer) : Prop where
  depth : r.depth = start + tasks.count .closing
  room : .closing ∈ tasks → r.depth ≤ r.maxDepth
  order : tasks.Pairwise fun a b => a = .program ∨ a = .ending → b ≠ .closing

namespace Owes

variable {start : Nat} {task : Task} {tasks rest : List Task}

theorem of_same (h : Owes start tasks r) (hd : s.depth = r.depth)
    (hm : s.maxDepth = r.maxDepth) : Owes start tasks s :=
  ⟨hd.trans h.depth, fun hc => hd ▸ hm ▸ h.room hc, h.order⟩

theorem step (h : Owes start tasks r) : Owes start tasks r.step :=
  h.of_same r.step_depth r.step_maxDepth

theorem entered (h : Owes start tasks r) (production : Production) :
    Owes start tasks (r.entered production) := by
  obtain ⟨_, hr⟩ := r.entered_frame production
  exact h.of_same (by rw [hr]) (by rw [hr])

theorem tail (h : Owes start (task :: rest) r) (ht : task ≠ .closing) : Owes start rest r where
  depth := by simpa [List.count_cons_of_ne ht] using h.depth
  room hc := h.room (.tail task hc)
  order := (List.pairwise_cons.mp h.order).2

theorem cons (h : Owes start rest r) (ht : task ≠ .closing)
    (hend : task = .program ∨ task = .ending → .closing ∉ rest) :
    Owes start (task :: rest) r where
  depth := by simpa [List.count_cons_of_ne ht] using h.depth
  room hc := h.room ((List.mem_cons.mp hc).resolve_left ht.symm)
  order := by
    refine List.pairwise_cons.mpr ⟨fun b hb htask hbc => ?_, h.order⟩
    exact hend htask (hbc ▸ hb)

theorem not_mem (h : Owes start (task :: rest) r) (ht : task = .program ∨ task = .ending) :
    .closing ∉ rest := fun hc =>
  (List.pairwise_cons.mp h.order).1 .closing hc ht rfl

end Owes

/-- A fault that expects nothing is about a token behind the end marker. -/
def Balanced (start : Nat) : Descent → Prop
  | busy tasks r => Owes start tasks r
  | stopped f r =>
    start ≤ r.depth ∧ ∀ t, f = .ofToken [] t → r.lookahead.isEnd = true ∧ r.depth = start

variable {start : Nat} {task : Task} {rest : List Task}

theorem balanced_stopped (h : Owes start rest r) {c : Category} {cs : List Category}
    (t : Token) : Balanced start (stopped (.ofToken (c :: cs) t) r) := by
  refine ⟨h.depth ▸ Nat.le_add_right .., fun u hu => ?_⟩
  cases hu

theorem balanced_again {separator : Category} {item loop : Task}
    (hi : item ∉ [.program, .closing, .ending]) (hl : loop ∉ [.program, .closing, .ending])
    (h : Owes start rest r) : Balanced start (again separator item loop rest r) := by
  simp only [List.mem_cons, List.not_mem_nil, or_false, not_or] at hi hl
  unfold again
  split
  · exact (h.step.cons hl.2.1 (by simp [hl])).cons hi.2.1 (by simp [hi])
  · exact h

theorem balanced_startFactor (h : Owes start rest r) :
    Balanced start (startFactor rest r) := by
  unfold startFactor
  split
  · exact h.step
  · dsimp only
    split
    · refine ⟨?_, fun t ht => by cases ht⟩
      have hd := h.depth
      simp only [Recognizer.step_depth]
      omega
    · next hroom =>
        have hgroup : Owes start (.closing :: rest) { r.step with depth := r.step.depth + 1 } :=
          { depth := by simp [h.depth, Nat.add_assoc]
            room := fun _ => Nat.le_of_not_lt hroom
            order := List.pairwise_cons.mpr ⟨by simp, h.order⟩ }
        refine Owes.cons ?_ (by simp) (by simp)
        exact hgroup.of_same rfl rfl
  · exact balanced_stopped h _

theorem balanced_endProgram (h : Owes start rest r) (hc : .closing ∉ rest) :
    Balanced start (endProgram rest r) := by
  unfold endProgram
  split
  · next he =>
      split
      · exact h.step
      · have hd : r.depth = start := by simpa [List.count_eq_zero.mpr hc] using h.depth
        have hend : r.lookahead.isEnd = true := by simp [Token.isEnd, he]
        refine ⟨?_, fun _ _ => ?_⟩
        · simp [hd]
        · simp [r.step_of_isEnd hend, hend, hd]
  · exact balanced_stopped h _

theorem balanced_perform (task : Task) (h : Owes start (task :: rest) r) :
    Balanced start (perform rest r task) := by
  cases task with
  | program =>
      have hrest := (h.tail (by simp)).entered .program
      exact (hrest.cons (by simp) fun _ => h.not_mem (.inl rfl)).cons (by simp) (by simp)
  | expression | term =>
      have hrest := (h.tail (by simp)).entered
      exact ((hrest _).cons (by simp) (by simp)).cons (by simp) (by simp)
  | factor => exact balanced_startFactor ((h.tail (by simp)).entered .factor)
  | moreTerms | moreFactors => exact balanced_again (by simp) (by simp) (h.tail (by simp))
  | closing =>
      rw [perform]
      split
      · have hd := h.depth
        have hroom := h.room (by simp)
        rw [List.count_cons_self] at hd
        refine ⟨?_, fun _ => ?_, (List.pairwise_cons.mp h.order).2⟩
        · simp only [Recognizer.step_depth]
          omega
        · simp only [Recognizer.step_depth, Recognizer.step_maxDepth]
          omega
      · refine ⟨h.depth ▸ Nat.le_add_right .., fun u hu => ?_⟩
        cases hu
  | ending => exact balanced_endProgram (h.tail (by simp)) (h.not_mem (.inr rfl))

theorem Runs.balanced {d : Descent} (h : Runs (busy [.program] r) d) :
    Balanced r.depth d := by
  refine h.keeps ?_ fun task rest _ => balanced_perform task
  exact ⟨by simp, by simp, List.pairwise_singleton _ _⟩

/-- What a descent that has come to its end answers. -/
def answer? : Descent → Option (Except Fault Unit × Recognizer)
  | busy [] r => some (.ok (), r.say (.recognized r.consumed r.maxDepthSeen))
  | stopped f r => some (.error f, r.say (.stopped f r.consumed))
  | busy (_ :: _) _ => none

end Descent

namespace Recognizer
open Descent

theorem recognize_ends (r : Recognizer) :
    ∃ d, Runs (.busy [.program] r) d ∧ d.next = none ∧ d.answer? = some r.recognize := by
  obtain ⟨s, hs, hr⟩ | ⟨f, s, hs, hr⟩ := r.recognize_cases
  · exact ⟨_, hr, rfl, by rw [hs]; rfl⟩
  · exact ⟨_, hr, rfl, by rw [hs]; rfl⟩

theorem recognize_depth (r : Recognizer) :
    match r.recognize with
    | (.ok _, s) => s.depth = r.depth
    | (.error f, s) => r.depth ≤ s.depth ∧
        ∀ t, f = .ofToken [] t → s.lookahead.isEnd = true ∧ s.depth = r.depth := by
  obtain ⟨s, hs, hr⟩ | ⟨f, s, hs, hr⟩ := r.recognize_cases
  · rw [hs]
    exact hr.balanced.depth
  · rw [hs]
    exact hr.balanced

/-- Whatever a recognizer has been asked for, its counts are in bounds and only grow, also
while it recognizes a program. That always ends, as the machine does: no group is closed at
depth zero, no expression in a group is begun above the limit, and the depth is that from
before unless a fault is about the program itself. -/
theorem counts_stay_in_bounds (settings : GrammarSettings) (ts : List Token)
    (requests : List Request) :
    let r := (ofTokens settings ts).afterAll requests
    r.InBounds ∧ (∀ request, r.Grows (r.after request)) ∧
    (∃ d, Runs (.busy [.program] r) d ∧ d.next = none ∧ d.answer? = some r.recognize) ∧
    (∀ d, Runs (.busy [.program] r) d →
      d.recognizer.InBounds ∧ ∀ e, Runs d e → d.recognizer.Grows e.recognizer) ∧
    (∀ rest s, Runs (.busy [.program] r) (.busy (.closing :: rest) s) → 0 < s.depth) ∧
    (∀ rest s, Runs (.busy [.program] r) (.busy (.expression :: .closing :: rest) s) →
      s.depth ≤ s.maxDepth) ∧
    match r.recognize with
    | (.ok _, s) => s.depth = r.depth
    | (.error f, s) => r.depth ≤ s.depth ∧
        ∀ t, f = .ofToken [] t → s.lookahead.isEnd = true ∧ s.depth = r.depth := by
  intro r
  have h : r.InBounds := (afterAll_changes _ requests).inBounds (inBounds_ofTokens settings ts)
  refine ⟨h, fun request => (r.after_changes request).grows, r.recognize_ends,
    fun d hd => ⟨hd.changes.inBounds h, fun e he => he.changes.grows⟩, fun rest s hs => ?_,
    fun rest s hs => ?_, r.recognize_depth⟩
  · have hd : s.depth = r.depth + (Task.closing :: rest).count .closing := hs.balanced.depth
    rw [List.count_cons_self] at hd
    omega
  · exact hs.balanced.room (by simp)

/-- Behind an expected times sign a group begins, and is to be closed behind an integer. -/
theorem counts_stay_in_bounds_in_group :
    let ts : List Token :=
      [⟨.times, some "*", .dummy⟩, ⟨.openParen, some "(", .dummy⟩, ⟨.integer, some "1", .dummy⟩]
    let r := (ofTokens .builtin ts).afterAll [.expect .times]
    ∃ rest s t, Runs (.busy [.program] r) (.busy (.expression :: .closing :: rest) s) ∧
      Runs (.busy (.expression :: .closing :: rest) s) (.busy (.closing :: rest) t) ∧
      s.depth ≤ s.maxDepth ∧ s.InBounds ∧ s.Grows t ∧ 0 < t.depth := by
  intro ts r
  -- Evaluated once, as every task would evaluate it again.
  have hr : r =
      { source := [⟨.integer, some "1", .dummy⟩]
        lookahead := ⟨.openParen, some "(", .dummy⟩
        consumed := 1
        maxDepth := 1024
        trace := false } := by
    decide
  have hopened : ∃ rest s t,
      Runs (.busy [.program] r) (.busy (.expression :: .closing :: rest) s) ∧
      Runs (.busy (.expression :: .closing :: rest) s) (.busy (.closing :: rest) t) := by
    rw [hr]
    exact ⟨_, _, _, runs_perform (runs_perform (runs_perform (runs_perform .refl))),
      runs_perform (runs_perform (runs_perform (runs_perform (runs_perform .refl))))⟩
  obtain ⟨rest, s, t, hs, ht⟩ := hopened
  obtain ⟨-, -, -, hbounds, hclosing, hgroup, -⟩ :=
    counts_stay_in_bounds .builtin ts [.expect .times]
  exact ⟨rest, s, t, hs, ht, hgroup rest s hs, (hbounds _ hs).1, (hbounds _ hs).2 _ ht,
    hclosing rest t (hs.trans ht)⟩

end Recognizer
end ExprCheck.Grammar
