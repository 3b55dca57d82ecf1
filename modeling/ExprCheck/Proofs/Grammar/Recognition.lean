import ExprCheck.Grammar.Recognizer

/-!
Steps of recognition, taken from the recognizer they start with. `Meets` says
what holds where a step succeeds and what holds where it stops at a fault, and
sequences of steps are gone through with `Meets.bind`.
-/

namespace ExprCheck.Grammar
namespace Recognizer

theorem missingEnd_isEnd : missingEnd.isEnd = true := rfl

theorem step_of_isEnd (r : Recognizer) (h : r.lookahead.isEnd = true) :
    r.step = { r with consumed := r.consumed + 1 } := by
  simp only [step, h, ite_true]

theorem step_of_cons (r : Recognizer) {t : Token} {ts : List Token}
    (h : r.lookahead.isEnd = false) (hs : r.source = t :: ts) :
    r.step = { r with consumed := r.consumed + 1, lookahead := t, source := ts } := by
  simp only [step, h, hs, Bool.false_eq_true, ite_false]

theorem step_of_nil (r : Recognizer) (h : r.lookahead.isEnd = false) (hs : r.source = []) :
    r.step =
      { r with
        consumed := r.consumed + 1
        lookahead := missingEnd
        notices := .missingEnd :: r.notices } := by
  simp only [step, h, hs, Bool.false_eq_true, ite_false, say]

/-- A step changes nothing but the count, what is ahead and what has been said. -/
theorem step_frame (r : Recognizer) :
    ∃ lookahead source notices,
      r.step = { r with consumed := r.consumed + 1, lookahead, source, notices } := by
  cases h : r.lookahead.isEnd with
  | true => exact ⟨r.lookahead, r.source, r.notices, r.step_of_isEnd h⟩
  | false =>
      cases hs : r.source with
      | nil =>
          refine ⟨missingEnd, r.source, .missingEnd :: r.notices, ?_⟩
          exact r.step_of_nil h hs
      | cons t ts => exact ⟨t, ts, r.notices, r.step_of_cons h hs⟩

@[simp]
theorem step_consumed (r : Recognizer) : r.step.consumed = r.consumed + 1 := by
  obtain ⟨_, _, _, h⟩ := r.step_frame
  rw [h]

@[simp]
theorem step_depth (r : Recognizer) : r.step.depth = r.depth := by
  obtain ⟨_, _, _, h⟩ := r.step_frame
  rw [h]

@[simp]
theorem step_maxDepthSeen (r : Recognizer) : r.step.maxDepthSeen = r.maxDepthSeen := by
  obtain ⟨_, _, _, h⟩ := r.step_frame
  rw [h]

@[simp]
theorem step_maxDepth (r : Recognizer) : r.step.maxDepth = r.maxDepth := by
  obtain ⟨_, _, _, h⟩ := r.step_frame
  rw [h]

/-- How many tokens can be stepped over before an end marker stays ahead. -/
def pending (r : Recognizer) : Nat :=
  if r.lookahead.isEnd then 0 else r.source.length + 1

theorem pending_le (r : Recognizer) : r.pending ≤ r.source.length + 1 := by
  unfold pending
  split <;> omega

theorem pending_step (r : Recognizer) (h : r.lookahead.isEnd = false) :
    r.step.pending < r.pending := by
  cases hs : r.source with
  | nil =>
      rw [r.step_of_nil h hs]
      simp only [pending, missingEnd_isEnd, h, Bool.false_eq_true, ite_true, ite_false]
      omega
  | cons t ts =>
      rw [r.step_of_cons h hs]
      simp only [pending, h, hs, Bool.false_eq_true, ite_false, List.length_cons]
      split <;> omega

/-- A recognizer that has said, if it is to, which production begins. -/
def entered (r : Recognizer) (production : Production) : Recognizer :=
  if r.trace then r.say (.entering production r.lookahead r.depth) else r

theorem entered_frame (r : Recognizer) (production : Production) :
    ∃ notices, r.entered production = { r with notices } := by
  unfold entered
  split
  · exact ⟨.entering production r.lookahead r.depth :: r.notices, rfl⟩
  · exact ⟨r.notices, rfl⟩

end Recognizer

namespace Recognition

variable {α β : Type} {m : Recognition α} {k : α → Recognition β} {r : Recognizer}

def Meets (m : Recognition α) (r : Recognizer) (done : α → Recognizer → Prop)
    (stopped : Fault → Recognizer → Prop) : Prop :=
  match m r with
  | .ok a r' => done a r'
  | .error f r' => stopped f r'

theorem Meets.mono {done done' : α → Recognizer → Prop}
    {stopped stopped' : Fault → Recognizer → Prop}
    (h : m.Meets r done stopped) (hd : ∀ a r', done a r' → done' a r')
    (hs : ∀ f r', stopped f r' → stopped' f r') : m.Meets r done' stopped' := by
  unfold Meets at *
  split at h
  · exact hd _ _ h
  · exact hs _ _ h

theorem Meets.of_forall {done : α → Recognizer → Prop} {stopped : Fault → Recognizer → Prop}
    (hd : ∀ a r', done a r') (hs : ∀ f r', stopped f r') : m.Meets r done stopped := by
  unfold Meets
  split
  · exact hd _ _
  · exact hs _ _

theorem Meets.and {done done' : α → Recognizer → Prop}
    {stopped stopped' : Fault → Recognizer → Prop}
    (h : m.Meets r done stopped) (h' : m.Meets r done' stopped') :
    m.Meets r (fun a s => done a s ∧ done' a s) (fun f s => stopped f s ∧ stopped' f s) := by
  unfold Meets at *
  cases hm : m r with
  | ok a s =>
      rw [hm] at h h'
      exact ⟨h, h'⟩
  | error f s =>
      rw [hm] at h h'
      exact ⟨h, h'⟩

theorem Meets.bind {done : β → Recognizer → Prop} {stopped : Fault → Recognizer → Prop}
    (h : m.Meets r (fun a r' => (k a).Meets r' done stopped) stopped) :
    (m >>= k).Meets r done stopped := by
  unfold Meets at *
  change match EStateM.bind m k r with
    | .ok b r' => done b r'
    | .error f r' => stopped f r'
  unfold EStateM.bind
  cases hm : m r with
  | ok a r' => simpa only [hm] using h
  | error f r' => simpa only [hm] using h

variable {done : Unit → Recognizer → Prop} {stopped : Fault → Recognizer → Prop}

theorem meets_get {done : Recognizer → Recognizer → Prop} (h : done r r) :
    (get : Recognition Recognizer).Meets r done stopped := h

theorem meets_enter {production : Production} (h : done () (r.entered production)) :
    (enter production).Meets r done stopped := h

theorem meets_expect {c : Category} {done : Token → Recognizer → Prop}
    (hd : r.lookahead.category = c → done r.lookahead r.step)
    (hs : r.lookahead.category ≠ c → stopped (.ofToken [c] r.lookahead) r) :
    (expect c).Meets r done stopped := by
  apply Meets.bind
  apply meets_get
  dsimp only
  split
  · next h => exact hd h
  · next h => exact hs h

theorem meets_separated {separator : Category} {item : Recognition Unit} {bound : Nat}
    (h : item.Meets r
      (fun _ s =>
        (s.lookahead.category = separator →
          (separated separator item bound).Meets s.step done stopped) ∧
        (s.lookahead.category ≠ separator → done () s))
      stopped) :
    (separated separator item (bound + 1)).Meets r done stopped := by
  rw [separated]
  apply Meets.bind
  refine h.mono (fun _ s hs => ?_) (fun _ _ => id)
  apply Meets.bind
  apply meets_get
  split
  · next hc => exact Meets.bind (hs.1 hc)
  · next hc => exact hs.2 hc

theorem meets_factorWith {group : Span → Recognition Unit}
    (hi : r.lookahead.category = .integer → done () (r.entered .factor).step)
    (ho : r.lookahead.category = .openParen →
      (group r.lookahead.span).Meets (r.entered .factor).step done stopped)
    (hn : r.lookahead.category ≠ .integer → r.lookahead.category ≠ .openParen →
      stopped (.ofToken [.integer, .openParen] r.lookahead) (r.entered .factor)) :
    (factorWith group).Meets r done stopped := by
  rw [factorWith]
  apply Meets.bind
  apply meets_enter
  apply Meets.bind
  apply meets_get
  obtain ⟨_, hr⟩ := r.entered_frame .factor
  have hl : (r.entered .factor).lookahead = r.lookahead := by rw [hr]
  simp only [hl]
  split
  · next hc => exact Meets.bind (hi hc)
  · next hc => exact Meets.bind (ho hc)
  · next hni hno => exact hn hni hno

end Recognition
end ExprCheck.Grammar
