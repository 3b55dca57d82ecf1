import ExprCheck.Log.Event
import Mathlib.Data.List.Induction
import Mathlib.Data.List.Sort
import Mathlib.Data.String.Basic

/-!
The details of an event as a map: for each key the last value that was given. The
pairs stand in the order of their keys, so that the map determines them.
-/

namespace ExprCheck

/-- The last value that is given for a key. -/
def lastValue? (pairs : List (String × String)) (key : String) : Option String :=
  (pairs.reverse.find? (·.1 = key)).map (·.2)

theorem lastValue?_concat (pairs : List (String × String)) (p : String × String) (key : String) :
    lastValue? (pairs ++ [p]) key = if p.1 = key then some p.2 else lastValue? pairs key := by
  by_cases h : p.1 = key <;> simp [lastValue?, h]

/-- Only the order of the values for one key counts. -/
theorem lastValue?_of_filter {pairs others : List (String × String)} {key : String}
    (h : others.filter (·.1 = key) = pairs.filter (·.1 = key)) :
    lastValue? others key = lastValue? pairs key := by
  rw [lastValue?, lastValue?, ← List.head?_filter, ← List.head?_filter, List.filter_reverse,
    List.filter_reverse, h]

namespace Context

/-- In the order of their keys, none twice. -/
def IsSorted (pairs : List (String × String)) : Prop :=
  pairs.Pairwise fun p q => p.1 < q.1

theorem IsSorted.nodup_keys {pairs : List (String × String)} (h : IsSorted pairs) :
    (pairs.map (·.1)).Nodup :=
  List.pairwise_map.mpr (h.imp ne_of_lt)

section Insert

variable {key value : String} {pairs : List (String × String)}

theorem mem_insertPair (h : IsSorted pairs) (p : String × String) :
    p ∈ insertPair key value pairs ↔ p = (key, value) ∨ p ∈ pairs ∧ p.1 ≠ key := by
  induction pairs with
  | nil => simp [insertPair]
  | cons q rest ih =>
      obtain ⟨hq, hrest⟩ := List.pairwise_cons.mp h
      rw [insertPair]
      split
      · next hlt =>
          -- All keys are greater than the new one.
          have hne (hp : p ∈ q :: rest) : p.1 ≠ key := by
            rcases List.mem_cons.mp hp with rfl | hp
            · exact ne_of_gt hlt
            · exact ne_of_gt (lt_trans hlt (hq p hp))
          rw [List.mem_cons, and_iff_left_of_imp hne]
      · split
        · next heq =>
            have hne (hp : p ∈ rest) : p.1 ≠ key := heq ▸ ne_of_gt (hq p hp)
            have hself : ¬ (p = q ∧ p.1 ≠ key) := fun ⟨hp, hkey⟩ => hkey (hp ▸ heq.symm)
            rw [List.mem_cons, List.mem_cons, or_and_right, or_iff_right hself,
              and_iff_left_of_imp hne]
        · next hne =>
            have hself : p = q → p.1 ≠ key := fun hp => hp ▸ Ne.symm hne
            rw [List.mem_cons, List.mem_cons, ih hrest, or_and_right, and_iff_left_of_imp hself,
              or_left_comm]

theorem isSorted_insertPair (h : IsSorted pairs) : IsSorted (insertPair key value pairs) := by
  induction pairs with
  | nil => exact List.pairwise_singleton ..
  | cons q rest ih =>
      obtain ⟨hq, hrest⟩ := List.pairwise_cons.mp h
      rw [insertPair]
      split
      · next hlt =>
          refine List.pairwise_cons.mpr ⟨fun p hp => ?_, h⟩
          rcases List.mem_cons.mp hp with rfl | hp
          · exact hlt
          · exact lt_trans hlt (hq p hp)
      · next hlt =>
          split
          · next heq => exact List.pairwise_cons.mpr ⟨fun p hp => heq ▸ hq p hp, hrest⟩
          · next hne =>
              refine List.pairwise_cons.mpr ⟨fun p hp => ?_, ih hrest⟩
              rcases (mem_insertPair hrest p).mp hp with rfl | ⟨hp, -⟩
              · exact lt_of_le_of_ne (not_lt.mp hlt) (Ne.symm hne)
              · exact hq p hp

end Insert

/-- A context holds the last values of some pairs, in the order of their keys. -/
structure Keeps (c : Context) (pairs : List (String × String)) : Prop where
  sorted : IsSorted c.pairs
  mem_iff : ∀ key value, (key, value) ∈ c.pairs ↔ lastValue? pairs key = some value

theorem keeps_nil : Keeps {} [] where
  sorted := .nil
  mem_iff key value := by simp [lastValue?]

theorem Keeps.insert {c : Context} {pairs : List (String × String)} (h : c.Keeps pairs)
    (p : String × String) : (c.insert p.1 p.2).Keeps (pairs ++ [p]) where
  sorted := isSorted_insertPair h.sorted
  mem_iff key value := by
    rw [Context.insert, mem_insertPair h.sorted, h.mem_iff, lastValue?_concat, Prod.mk.injEq]
    by_cases hkey : p.1 = key
    · simp [hkey, eq_comm]
    · simp [hkey, Ne.symm hkey]

theorem ofList_concat (pairs : List (String × String)) (p : String × String) :
    ofList (pairs ++ [p]) = (ofList pairs).insert p.1 p.2 :=
  List.foldl_append ..

theorem keeps_ofList (pairs : List (String × String)) : (ofList pairs).Keeps pairs := by
  induction pairs using List.reverseRecOn with
  | nil => exact keeps_nil
  | append_singleton pairs p ih =>
      rw [ofList_concat]
      exact ih.insert p

theorem Keeps.pairs_eq_nil_iff {c : Context} {pairs : List (String × String)}
    (h : c.Keeps pairs) : c.pairs = [] ↔ pairs = [] := by
  constructor
  · intro hc
    cases pairs using List.reverseRecOn with
    | nil => rfl
    | append_singleton pairs p =>
        have hmem : (p.1, p.2) ∈ c.pairs :=
          (h.mem_iff _ _).mpr (by rw [lastValue?_concat, if_pos rfl])
        rw [hc] at hmem
        cases hmem
  · rintro rfl
    exact List.eq_nil_iff_forall_not_mem.mpr fun p hp => nomatch (h.mem_iff p.1 p.2).mp hp

/-- Two contexts that hold the same map are the same. -/
theorem Keeps.eq {c d : Context} {pairs others : List (String × String)} (hc : c.Keeps pairs)
    (hd : d.Keeps others) (h : lastValue? pairs = lastValue? others) : c = d := by
  have hasymm : ∀ p q : String × String, p ∈ c.pairs → q ∈ d.pairs → p.1 < q.1 → q.1 < p.1 →
      p = q := fun p q _ _ hpq hqp => absurd hpq (lt_asymm hqp)
  have hperm : c.pairs.Perm d.pairs := by
    refine (List.perm_ext_iff_of_nodup (hc.sorted.nodup_keys.of_map _)
      (hd.sorted.nodup_keys.of_map _)).mpr fun p => ?_
    rw [hc.mem_iff, hd.mem_iff, h]
  exact congrArg Context.mk (hperm.eq_of_pairwise hasymm hc.sorted hd.sorted)

end Context
end ExprCheck
