import ExprCheck.Text.Bytes
import Mathlib.Data.List.Infix
import Mathlib.Data.Nat.Find

/-!
Cuts at the end of a beginning of the text: there whole characters are kept and
whole characters are left. From any place within the text such a cut is found
within three bytes back.
-/

namespace ExprCheck.Text

@[simp]
theorem byteLength_append (v w : List Char) :
    byteLength (v ++ w) = byteLength v + byteLength w := by
  induction v with
  | nil => simp
  | cons c v ih => simp [ih, Nat.add_assoc]

theorem length_le_byteLength (cs : List Char) : cs.length ≤ byteLength cs := by
  induction cs with
  | nil => exact Nat.le_refl 0
  | cons c cs ih =>
      have hc := c.utf8Size_pos
      rw [List.length_cons, byteLength_cons]
      omega

theorem byteLength_pos {cs : List Char} (h : cs ≠ []) : 0 < byteLength cs :=
  Nat.lt_of_lt_of_le (List.length_pos_iff.mpr h) (length_le_byteLength cs)

theorem dropBytes?_byteLength (v rest : List Char) :
    dropBytes? (byteLength v) (v ++ rest) = some rest := by
  induction v with
  | nil => cases rest <;> rfl
  | cons c v ih =>
      obtain ⟨n, hn⟩ := Nat.exists_eq_add_of_lt c.utf8Size_pos
      have hb : byteLength (c :: v) = n + byteLength v + 1 := by
        rw [byteLength_cons]
        omega
      rw [hb, List.cons_append, dropBytes?]
      have hle : c.utf8Size ≤ n + byteLength v + 1 := by omega
      have hsub : n + byteLength v + 1 - c.utf8Size = byteLength v := by omega
      rw [if_pos hle, hsub, ih]

theorem fitting_byteLength (w rest : List Char) (count : Nat) :
    fitting (byteLength w) (w ++ rest) count = count + w.length := by
  induction w generalizing count with
  | nil =>
      cases rest with
      | nil => rfl
      | cons c rest =>
          have hc : ¬ c.utf8Size ≤ 0 := Nat.not_le.mpr c.utf8Size_pos
          simp only [List.nil_append, byteLength_nil, fitting, if_neg hc, List.length_nil]
          rfl
  | cons c w ih =>
      have hle : c.utf8Size ≤ c.utf8Size + byteLength w := Nat.le_add_right ..
      rw [byteLength_cons, List.cons_append, fitting, if_pos hle, Nat.add_sub_cancel_left, ih,
        List.length_cons]
      omega

theorem takeBytes_byteLength (w rest : List Char) : takeBytes (byteLength w) (w ++ rest) = w := by
  simp [takeBytes, fitting_byteLength]

theorem takeBytes?_byteLength (w rest : List Char) :
    takeBytes? (byteLength w) (w ++ rest) = some w := by
  simp [takeBytes?, takeBytes_byteLength]

theorem slice?_append (v w rest : List Char) :
    slice? (byteLength v) (byteLength (v ++ w)) (v ++ w ++ rest) = some w := by
  have hle : byteLength v ≤ byteLength (v ++ w) := by simp
  have hlen : byteLength (v ++ w) - byteLength v = byteLength w := by simp
  rw [slice?, if_pos hle, hlen, List.append_assoc, dropBytes?_byteLength, Option.bind_some,
    takeBytes?_byteLength]

/-! ## Boundaries -/

theorem dropBytes?_eq_some_iff {n : Nat} {cs rest : List Char} :
    dropBytes? n cs = some rest ↔ ∃ v, cs = v ++ rest ∧ byteLength v = n := by
  constructor
  · intro h
    induction cs generalizing n with
    | nil =>
        cases n with
        | zero => exact ⟨[], Option.some.inj h, rfl⟩
        | succ n => cases h
    | cons c cs ih =>
        cases n with
        | zero => exact ⟨[], Option.some.inj h, rfl⟩
        | succ n =>
            rw [dropBytes?] at h
            split at h
            · next hle =>
                obtain ⟨v, rfl, hv⟩ := ih h
                exact ⟨c :: v, rfl, by rw [byteLength_cons]; omega⟩
            · cases h
  · rintro ⟨v, rfl, rfl⟩
    exact dropBytes?_byteLength v rest

theorem isBoundary_iff {cs : List Char} {n : Nat} :
    isBoundary cs n = true ↔ ∃ v, v <+: cs ∧ byteLength v = n := by
  rw [isBoundary, Option.isSome_iff_exists]
  constructor
  · rintro ⟨rest, h⟩
    obtain ⟨v, rfl, hv⟩ := dropBytes?_eq_some_iff.mp h
    exact ⟨v, List.prefix_append v rest, hv⟩
  · rintro ⟨v, ⟨rest, rfl⟩, rfl⟩
    exact ⟨rest, dropBytes?_byteLength v rest⟩

theorem isBoundary_zero (cs : List Char) : isBoundary cs 0 = true :=
  isBoundary_iff.mpr ⟨[], List.nil_prefix, rfl⟩

theorem boundaryBefore_eq_findGreatest (cs : List Char) (n : Nat) :
    boundaryBefore cs n = Nat.findGreatest (isBoundary cs · = true) n := by
  induction n with
  | zero => rfl
  | succ n ih => rw [boundaryBefore, Nat.findGreatest, ih]

/-- The search ends because it has found a boundary. -/
theorem isBoundary_boundaryBefore (cs : List Char) (n : Nat) :
    isBoundary cs (boundaryBefore cs n) = true := by
  rw [boundaryBefore_eq_findGreatest]
  exact Nat.findGreatest_spec (P := (isBoundary cs · = true)) (Nat.zero_le n) (isBoundary_zero cs)

theorem boundaryBefore_le (cs : List Char) (n : Nat) : boundaryBefore cs n ≤ n := by
  rw [boundaryBefore_eq_findGreatest]
  exact Nat.findGreatest_le n

theorem not_isBoundary_of_boundaryBefore_lt {cs : List Char} {n k : Nat}
    (h : boundaryBefore cs n < k) (hk : k ≤ n) : isBoundary cs k = false := by
  rw [boundaryBefore_eq_findGreatest] at h
  exact Bool.eq_false_iff.mpr (Nat.findGreatest_is_greatest h hk)

/-- The longest beginning of `cs` that takes at most `budget` bytes. -/
structure LongestWithin (budget : Nat) (cs q : List Char) : Prop where
  begins : q <+: cs
  fits : byteLength q ≤ budget
  longest : ∀ p, p <+: cs → byteLength p ≤ budget → p <+: q

/-- Of a text that does not fit, the longest beginning ends before the character
in which the budget is used up. -/
theorem exists_longestWithin {budget : Nat} {cs : List Char} (h : budget < byteLength cs) :
    ∃ q c, LongestWithin budget cs q ∧ q ++ [c] <+: cs ∧
      budget < byteLength q + c.utf8Size := by
  induction cs generalizing budget with
  | nil => cases h
  | cons c cs ih =>
      rw [byteLength_cons] at h
      by_cases hc : c.utf8Size ≤ budget
      · have htail : budget - c.utf8Size < byteLength cs := by omega
        obtain ⟨q, d, hq, hd, hlt⟩ := ih htail
        have hfits := hq.fits
        refine ⟨c :: q, d, ⟨List.cons_prefix_cons.mpr ⟨rfl, hq.begins⟩, ?_, ?_⟩,
          List.cons_prefix_cons.mpr ⟨rfl, hd⟩, ?_⟩
        · rw [byteLength_cons]
          omega
        · intro p hp hle
          cases p with
          | nil => exact List.nil_prefix
          | cons d p =>
              obtain ⟨rfl, hps⟩ := List.cons_prefix_cons.mp hp
              rw [byteLength_cons] at hle
              exact List.cons_prefix_cons.mpr ⟨rfl, hq.longest p hps (by omega)⟩
        · rw [byteLength_cons]
          omega
      · refine ⟨[], c, ⟨List.nil_prefix, Nat.zero_le _, ?_⟩,
          List.cons_prefix_cons.mpr ⟨rfl, List.nil_prefix⟩, ?_⟩
        · intro p hp hle
          cases p with
          | nil => exact List.nil_prefix
          | cons d p =>
              obtain ⟨rfl, -⟩ := List.cons_prefix_cons.mp hp
              rw [byteLength_cons] at hle
              omega
        · rw [byteLength_nil]
          omega

theorem LongestWithin.boundaryBefore_eq {budget : Nat} {cs q : List Char}
    (h : LongestWithin budget cs q) : boundaryBefore cs budget = byteLength q := by
  obtain ⟨p, hp, hlen⟩ := isBoundary_iff.mp (isBoundary_boundaryBefore cs budget)
  refine Nat.le_antisymm ?_ ?_
  · obtain ⟨r, rfl⟩ := h.longest p hp (hlen ▸ boundaryBefore_le cs budget)
    rw [← hlen, byteLength_append]
    omega
  · by_contra hlt
    have hfalse := not_isBoundary_of_boundaryBefore_lt (Nat.lt_of_not_le hlt) h.fits
    rw [isBoundary_iff.mpr ⟨q, h.begins, rfl⟩] at hfalse
    cases hfalse

/-- From the budget back to its end the search takes three steps at most. -/
theorem exists_steps {budget : Nat} {cs : List Char} (h : budget < byteLength cs) :
    ∃ q, LongestWithin budget cs q ∧ ∃ steps ≤ 3, byteLength q + steps = budget := by
  obtain ⟨q, c, hq, -, hlt⟩ := exists_longestWithin h
  have hfits := hq.fits
  have hc := c.utf8Size_le_four
  exact ⟨q, hq, budget - byteLength q, by omega, by omega⟩

theorem LongestWithin.takeBytes?_eq {budget : Nat} {cs q : List Char}
    (h : LongestWithin budget cs q) : takeBytes? (boundaryBefore cs budget) cs = some q := by
  obtain ⟨rest, rfl⟩ := h.begins
  rw [h.boundaryBefore_eq, takeBytes?_byteLength]

theorem LongestWithin.abridge_eq {budget : Nat} {cs q : List Char}
    (h : LongestWithin budget cs q) (hlong : budget < byteLength cs) :
    abridge budget cs = q ++ ['.', '.', '.'] := by
  rw [abridge, if_neg (Nat.not_le.mpr hlong), h.boundaryBefore_eq]
  obtain ⟨rest, rfl⟩ := h.begins
  rw [takeBytes_byteLength]

end ExprCheck.Text
