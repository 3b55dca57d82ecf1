import ExprCheck.Log.Desk

/-!
What a desk passes on. Its questions only fix the settings that count anyway, so that what
becomes of a notice does not depend on the notices before it.
-/

namespace ExprCheck

theorem Notice.level_event (moment : Moment) (n : Notice) : (n.event moment).level = n.level := by
  cases n <;> rfl

theorem Level.le_debug (l : Level) : l ≤ .debug := by
  cases l <;> decide

namespace Desk

/-- The settings that count, fixed or not. -/
def preferences (d : Desk) : LogSettings :=
  d.settings.getD (Settings.resolve d.environment {}).log

/-- Whether a desk passes a notice on, read off without a question. -/
def passes (d : Desk) : Notice → Bool
  | .timing _ => d.preferences.timing
  | n => n.level != .debug || d.service.any (·.wants .debug) && d.preferences.level == .debug

/-- A desk whose settings may have been fixed meanwhile. -/
inductive Asked (d : Desk) : Desk → Prop where
  | same : Asked d d
  | settled : Asked d d.settle.2

variable {d e : Desk}

theorem Asked.passes_eq (h : d.Asked e) : e.passes = d.passes := by
  cases h with
  | same | settled => rfl

theorem Asked.service_eq (h : d.Asked e) : e.service = d.service := by
  cases h with
  | same | settled => rfl

theorem Asked.settle (h : d.Asked e) : d.Asked e.settle.2 := by
  cases h with
  | same | settled => exact .settled

theorem Asked.debugEnabled (h : d.Asked e) : d.Asked e.debugEnabled.2 := by
  unfold Desk.debugEnabled
  split
  · exact h.settle
  · exact h

theorem Asked.admits (h : d.Asked e) (n : Notice) : d.Asked (e.admits n).2 := by
  unfold Desk.admits
  split
  · exact h.settle
  · split
    · exact h.debugEnabled
    · exact h

theorem debugEnabled_fst (d : Desk) :
    d.debugEnabled.1 = (d.service.any (·.wants .debug) && d.preferences.level == .debug) := by
  unfold debugEnabled
  split
  · next hs =>
      rw [hs, Bool.true_and]
      rfl
  · next hs => rw [Bool.eq_false_iff.mpr hs, Bool.false_and]

theorem admits_fst (d : Desk) (n : Notice) : (d.admits n).1 = d.passes n := by
  unfold admits passes
  split
  · rfl
  · split
    · next hn => simp [hn, debugEnabled_fst]
    · next hn => simp [hn]

theorem Asked.post_fst (h : d.Asked e) (moment : Moment) (n : Notice) :
    (e.post moment n).1 =
      if d.passes n = true ∧ d.service.isSome = true then some (n.event moment) else none := by
  have hservice : (e.admits n).2.service = d.service := (h.admits n).service_eq
  simp only [post, admits_fst, h.passes_eq, hservice]

theorem Asked.post_snd (h : d.Asked e) (moment : Moment) (n : Notice) :
    d.Asked (e.post moment n).2 :=
  h.admits n

/-- The events are those of the notices that pass, each taken by itself. -/
theorem postAll_fst (d : Desk) (moment : Moment) (ns : List Notice) :
    (d.postAll moment ns).1 =
      if d.service.isSome then (ns.filter d.passes).map (·.event moment) else [] := by
  have hfold (e : Desk) (he : d.Asked e) (done : List Event) :
      (ns.foldl (fun acc n => ((acc.2.post moment n).1.toList ++ acc.1, (acc.2.post moment n).2))
          (done, e)).1 =
        (if d.service.isSome then (ns.filter d.passes).map (·.event moment) else []).reverse ++
          done := by
    induction ns generalizing e done with
    | nil => simp
    | cons n ns ih =>
        rw [List.foldl_cons, ih _ (he.post_snd moment n), he.post_fst]
        by_cases hn : d.passes n = true
        · by_cases hs : d.service.isSome = true
          · simp [hn, hs]
          · simp [hs]
        · simp [hn]
  have hall := congrArg List.reverse (hfold d .same [])
  rw [List.append_nil, List.reverse_reverse] at hall
  exact hall

end Desk
end ExprCheck
