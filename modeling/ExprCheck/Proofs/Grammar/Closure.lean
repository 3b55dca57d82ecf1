import ExprCheck.Proofs.Grammar.NestingLimit
import ExprCheck.Proofs.Token.Splice

/-!
Programs made of programs. Behind an operator and inside a parenthesis a reading
goes on as it would from the start, with more open and more consumed. So sums,
products and groups of programs are programs, and what is told of them follows
from what is told of their parts.
-/

namespace ExprCheck
namespace Grammar
namespace Progress

variable {limit m n : Nat} {p q : Progress} {t u : Token} {v w : List Token}

/-- `p` as it is when the reading has not begun at the start, but at `s`. -/
def behind (p s : Progress) : Progress :=
  { p with
    opened := s.opened + p.opened
    consumed := s.consumed + p.consumed
    deepest := max s.deepest (s.opened + p.deepest) }

theorem start_behind {s : Progress} (hn : s.needsOperand = true) (hs : s.opened ≤ s.deepest) :
    ({} : Progress).behind s = s := by
  obtain ⟨_, _, _, _⟩ := s
  obtain rfl := hn
  simpa [behind] using hs

/-- What is open already takes up as much of the limit. -/
theorem move_behind (hm : p.move limit t = .on q) (s : Progress) :
    (p.behind s).move (s.opened + limit) t = .on (q.behind s) := by
  obtain ⟨hn, ht, rfl⟩ | ⟨hn, ht, hl, rfl⟩ | ⟨hn, ht | ht, rfl⟩ | ⟨hn, ht, h0, rfl⟩ :=
    move_on_cases hm
  · simp [move, behind, hn, ht, takeInteger, Nat.add_assoc]
  · simp [move, behind, hn, ht, hl, openGroup, Nat.add_assoc]
  · simp [move, behind, hn, ht, takeOperator, Nat.add_assoc]
  · simp [move, behind, hn, ht, takeOperator, Nat.add_assoc]
  · have hclose : s.opened + p.opened - 1 = s.opened + (p.opened - 1) := by omega
    simp [move, behind, hn, ht, h0, closeGroup, Nat.add_assoc, hclose]

theorem Reaches.behind (h : Reaches limit p w q) (s : Progress) :
    Reaches (s.opened + limit) (p.behind s) w (q.behind s) := by
  induction h with
  | refl p => exact .refl _
  | move hm _ ih => exact .move (move_behind hm s) ih

theorem move_on_congr (hm : p.move limit t = .on q) (hc : u.category = t.category) :
    p.move limit u = .on q := by
  obtain ⟨hn, ht, rfl⟩ | ⟨hn, ht, hl, rfl⟩ | ⟨hn, ht | ht, rfl⟩ | ⟨hn, ht, h0, rfl⟩ :=
    move_on_cases hm <;> simp [move, *]

theorem Reaches.of_categories (h : Reaches limit p v q)
    (hc : Token.categories w = Token.categories v) : Reaches limit p w q := by
  induction h generalizing w with
  | refl p =>
      obtain rfl := List.map_eq_nil_iff.mp hc
      exact .refl p
  | move hm _ ih =>
      obtain ⟨u, w, rfl, hu, hw⟩ := List.map_eq_cons_iff.mp hc
      exact .move (move_on_congr hm hu) (ih hw)

/-- `w` is read from the start to where a program may end, with at most `m`
parentheses open at once. -/
def Completes (limit : Nat) (w : List Token) (m : Nat) : Prop :=
  ∃ q, Reaches limit {} w q ∧ q.Complete ∧ q.deepest = m

theorem Completes.of_categories (h : Completes limit v m)
    (hc : Token.categories w = Token.categories v) : Completes limit w m := by
  obtain ⟨q, hr, hq, hm⟩ := h
  exact ⟨q, hr.of_categories hc, hq, hm⟩

/-- Behind the operator the second operand is read as if it were alone. A sum in
it is a sum of the whole: `v * w` is read with the terms of both in one row. -/
theorem Completes.operator (hv : Completes limit v m) (hw : Completes limit w n)
    (ht : t.category = .plus ∨ t.category = .times) :
    Completes limit (v ++ t :: w) (max m n) := by
  obtain ⟨q, hq, ⟨hqn, hq0⟩, rfl⟩ := hv
  obtain ⟨r, hr, ⟨hrn, hr0⟩, rfl⟩ := hw
  have hmove : q.move limit t = .on q.takeOperator := by
    obtain ht | ht := ht <;> simp [move, hqn, ht]
  have hstart : ({} : Progress).behind q.takeOperator = q.takeOperator :=
    start_behind rfl (by simp [hq0])
  have hbehind := hr.behind q.takeOperator
  rw [hstart, takeOperator_opened, hq0, Nat.zero_add] at hbehind
  refine ⟨_, hq.trans (.move hmove hbehind), ⟨hrn, ?_⟩, ?_⟩
  · simp [Progress.behind, hq0, hr0]
  · simp [Progress.behind, hq0]

/-- A group needs a level more than what is in it. -/
theorem Completes.group (hw : Completes limit w m) (ht : t.category = .openParen)
    (hu : u.category = .closeParen) : Completes (limit + 1) (t :: w ++ [u]) (m + 1) := by
  obtain ⟨q, hq, ⟨hqn, hq0⟩, rfl⟩ := hw
  let inside : Progress := ({} : Progress).openGroup
  have hopen : ({} : Progress).move (limit + 1) t = .on inside := by
    simp [move, ht, inside]
  have hstart : ({} : Progress).behind inside = inside := start_behind rfl (Nat.le_refl 1)
  have hbehind := hq.behind inside
  rw [hstart, show inside.opened + limit = limit + 1 from Nat.add_comm 1 limit] at hbehind
  have hclose : (q.behind inside).move (limit + 1) u = .on (q.behind inside).closeGroup := by
    simp [move, Progress.behind, hqn, hu, inside]
  refine ⟨_, (Reaches.move hopen hbehind).trans (.move hclose (.refl _)), ⟨hqn, ?_⟩, ?_⟩
  · simp [Progress.behind, hq0, inside]
  · simp only [Progress.behind, closeGroup_deepest, inside, openGroup_opened, openGroup_deepest]
    omega

/-- The end marker of an accepted scan is consumed too. -/
theorem run_scan_eq_ok_iff (limit : Nat) (text : String) (c m : Nat) :
    ({} : Progress).run limit (scan text) = ⟨.ok (), c, m⟩ ↔
      Completes limit (scan text).dropLast m ∧ c = (scan text).dropLast.length + 1 := by
  obtain ⟨w, e, hscan, _, he⟩ := exists_scan_eq_concat text
  rw [hscan, List.dropLast_concat]
  constructor
  · intro h
    obtain ⟨q, hr, hq⟩ := (run_concat_end_ok_iff limit {} w he).mp (by rw [h])
    rw [hr.run_complete hq (.inr ⟨e, he, rfl⟩)] at h
    obtain ⟨_, rfl, rfl⟩ := Outcome.mk.inj h
    exact ⟨⟨q, hr, hq, rfl⟩, by simp [hr.consumed]⟩
  · rintro ⟨⟨q, hr, hq, rfl⟩, rfl⟩
    rw [hr.run_complete hq (.inr ⟨e, he, rfl⟩), hr.consumed]
    simp

theorem Completes.run_scan {text : String} (h : Completes limit w m)
    (hc : Token.categories (scan text).dropLast = Token.categories w) :
    ({} : Progress).run limit (scan text) = ⟨.ok (), w.length + 1, m⟩ := by
  have hlength := congrArg List.length hc
  simp only [Token.categories, List.length_map] at hlength
  exact (run_scan_eq_ok_iff ..).mpr ⟨h.of_categories hc, by rw [hlength]⟩

theorem run_scan_operator {a b op : String} {c d : Nat}
    (ha : ({} : Progress).run limit (scan a) = ⟨.ok (), c, m⟩)
    (hb : ({} : Progress).run limit (scan b) = ⟨.ok (), d, n⟩) (hop : op ∈ ["+", "*"]) :
    ({} : Progress).run limit (scan (a ++ op ++ b)) = ⟨.ok (), c + d, max m n⟩ := by
  obtain ⟨hv, rfl⟩ := (run_scan_eq_ok_iff ..).mp ha
  obtain ⟨hw, rfl⟩ := (run_scan_eq_ok_iff ..).mp hb
  obtain ⟨t, ht, hscan, hfirst, hlast⟩ : ∃ t : Token,
      (t.category = .plus ∨ t.category = .times) ∧ (scan op).dropLast = [t] ∧
        op.toList.head?.any Text.isDigit = false ∧
        (a ++ op).toList.getLast?.any Text.isDigit = false := by
    simp only [List.mem_cons, List.not_mem_nil, or_false] at hop
    obtain rfl | rfl := hop
    · exact ⟨_, .inl rfl, rfl, by decide, by simp; decide⟩
    · exact ⟨_, .inr rfl, rfl, by decide, by simp; decide⟩
  have hleft : ¬ DigitsMeet a.toList op.toList := fun h =>
    Bool.false_ne_true (hfirst.symm.trans h.2)
  have hright : ¬ DigitsMeet (a ++ op).toList b.toList := fun h =>
    Bool.false_ne_true (hlast.symm.trans h.1)
  have hcategories : Token.categories (scan (a ++ op ++ b)).dropLast =
      Token.categories ((scan a).dropLast ++ t :: (scan b).dropLast) := by
    rw [categories_dropLast_scan_append hright, categories_dropLast_scan_append hleft, hscan]
    simp [Token.categories]
  rw [(hv.operator hw ht).run_scan hcategories, List.length_append, List.length_cons]
  simp only [Nat.add_assoc, Nat.add_comm 1]

theorem run_scan_group {a : String} {c : Nat}
    (ha : ({} : Progress).run limit (scan a) = ⟨.ok (), c, m⟩) :
    ({} : Progress).run (limit + 1) (scan ("(" ++ a ++ ")")) = ⟨.ok (), c + 2, m + 1⟩ := by
  obtain ⟨hw, rfl⟩ := (run_scan_eq_ok_iff ..).mp ha
  obtain ⟨t, ht, hopen⟩ : ∃ t : Token, t.category = .openParen ∧ (scan "(").dropLast = [t] :=
    ⟨_, rfl, rfl⟩
  obtain ⟨u, hu, hclose⟩ : ∃ u : Token, u.category = .closeParen ∧ (scan ")").dropLast = [u] :=
    ⟨_, rfl, rfl⟩
  have hleft : ¬ DigitsMeet "(".toList a.toList := fun h => absurd h.1 (by decide)
  have hright : ¬ DigitsMeet ("(" ++ a).toList ")".toList := fun h => absurd h.2 (by decide)
  have hcategories : Token.categories (scan ("(" ++ a ++ ")")).dropLast =
      Token.categories (t :: (scan a).dropLast ++ [u]) := by
    rw [categories_dropLast_scan_append hright, categories_dropLast_scan_append hleft, hopen,
      hclose]
    simp [Token.categories]
  rw [(hw.group ht hu).run_scan hcategories, List.length_append, List.length_cons]
  rfl

end Progress

/-- Sums and products of programs are programs, and so is a program in
parentheses, unless it is as deep as the limit allows. -/
theorem programs_closed_under_operators_and_groups (settings : GrammarSettings) (a b : String)
    (ha : recognize settings (scan a) = .ok ()) (hb : recognize settings (scan b) = .ok ()) :
    let told (text : String) := (Recognizer.ofTokens settings (scan text)).outcome
    (∀ op ∈ ["+", "*"],
      told (a ++ op ++ b) =
        ⟨.ok (), (told a).consumed + (told b).consumed, max (told a).deepest (told b).deepest⟩) ∧
    ((told a).deepest + 1 ≤ settings.depthLimit →
      told ("(" ++ a ++ ")") = ⟨.ok (), (told a).consumed + 2, (told a).deepest + 1⟩) ∧
    (settings.depthLimit < (told a).deepest + 1 →
      ∃ span, recognize settings (scan ("(" ++ a ++ ")")) =
        .error (.nestingTooDeep (settings.depthLimit + 1) settings.depthLimit span)) := by
  intro told
  have htold (text : String) :
      told text = ({} : Progress).run settings.depthLimit (scan text) :=
    Recognizer.outcome_ofTokens ..
  have haccepted {text : String} (h : recognize settings (scan text) = .ok ()) :
      ({} : Progress).run settings.depthLimit (scan text) =
        ⟨.ok (), (told text).consumed, (told text).deepest⟩ := by
    rw [recognize_eq_result, ← htold] at h
    rw [← htold, ← h]
  have hsum := haccepted ha
  have hgroup := Progress.run_scan_group hsum
  refine ⟨fun op hop => ?_, fun hd => ?_, fun hd => ?_⟩
  · rw [htold]
    exact Progress.run_scan_operator hsum (haccepted hb) hop
  · -- What is accepted with a level to spare is read alike without it.
    have hok := (Progress.run_ok_iff_deepest_le (by rw [hgroup]) settings.depthLimit).mpr
      (by rwa [hgroup])
    rw [htold, ← hgroup]
    exact (Progress.run_limit (Nat.le_succ _) {} _ fun _ _ _ hdeep => by
      rw [hok] at hdeep
      cases hdeep).symm
  · rw [recognize_eq_result]
    exact exists_nestingTooDeep_of_lt (by rw [hgroup]) (by rwa [hgroup])

/-- A level is room for a group around a sum, and for none around a group. -/
theorem programs_closed_within_one_level :
    let settings : GrammarSettings := ⟨1, false⟩
    let told (text : String) := (Recognizer.ofTokens settings (scan text)).outcome
    (recognize settings (scan "(1)") = .ok () ∧ recognize settings (scan "2+3") = .ok ()) ∧
    told ("(1)" ++ "*" ++ "2+3") = ⟨.ok (), 8, 1⟩ ∧
    told ("(" ++ "2+3" ++ ")") = ⟨.ok (), 6, 1⟩ ∧
    ∃ span, recognize settings (scan ("(" ++ "(1)" ++ ")")) =
      .error (.nestingTooDeep 2 1 span) := by
  intro settings told
  have hgroup : (Recognizer.ofTokens settings (scan "(1)")).outcome = ⟨.ok (), 4, 1⟩ := by
    rw [Recognizer.outcome_ofTokens]
    rfl
  have hsum : (Recognizer.ofTokens settings (scan "2+3")).outcome = ⟨.ok (), 4, 0⟩ := by
    rw [Recognizer.outcome_ofTokens]
    rfl
  have ha : recognize settings (scan "(1)") = .ok () := by
    rw [recognize_eq_result, ← Recognizer.outcome_ofTokens, hgroup]
  have hb : recognize settings (scan "2+3") = .ok () := by
    rw [recognize_eq_result, ← Recognizer.outcome_ofTokens, hsum]
  have habove := programs_closed_under_operators_and_groups settings "(1)" "2+3" ha hb
  have hbelow := programs_closed_under_operators_and_groups settings "2+3" "(1)" hb ha
  simp only [hgroup, hsum] at habove hbelow
  obtain ⟨hproduct, -, hdeep⟩ := habove
  obtain ⟨-, hfits, -⟩ := hbelow
  exact ⟨⟨ha, hb⟩, hproduct "*" (by decide), hfits (by decide), hdeep (by decide)⟩

end Grammar
end ExprCheck
