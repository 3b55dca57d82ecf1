import ExprCheck.Proofs.Grammar.Descent
import ExprCheck.Token.Stream

/-!
The grammar of programs as derivations, in any alphabet that the categories of
tokens can be written in:

    expression → term (plus term)*
    term       → factor (times factor)*
    factor     → integer | openParen expression closeParen

A derivation holds to a bound on its nesting. The recognizer accepts tokens if
and only if their categories, without the end marker, can be derived within the
depth that is allowed; both directions go through the one-pass reading.
-/

namespace ExprCheck.Grammar

/-- What is derived: a phrase, or a repetition in one. -/
inductive Phrase where
  | expression
  /-- `(plus term)*` -/
  | sums
  | term
  /-- `(times factor)*` -/
  | products
  | factor
deriving DecidableEq, Repr

abbrev Spelling (α : Type) := Category → List α → Prop

def Spelling.plain : Spelling Category :=
  fun c w => w = [c]

variable {α : Type}

/-- A word is a phrase in which at most `depth` parentheses are open at once. -/
inductive Derives (spelling : Spelling α) : Phrase → (depth : Nat) → List α → Prop where
  | expression {d : Nat} {v w : List α} :
      Derives spelling .term d v → Derives spelling .sums d w →
      Derives spelling .expression d (v ++ w)
  | noSum {d : Nat} : Derives spelling .sums d []
  | sum {d : Nat} {o v w : List α} :
      spelling .plus o → Derives spelling .term d v → Derives spelling .sums d w →
      Derives spelling .sums d (o ++ v ++ w)
  | term {d : Nat} {v w : List α} :
      Derives spelling .factor d v → Derives spelling .products d w →
      Derives spelling .term d (v ++ w)
  | noProduct {d : Nat} : Derives spelling .products d []
  | product {d : Nat} {o v w : List α} :
      spelling .times o → Derives spelling .factor d v → Derives spelling .products d w →
      Derives spelling .products d (o ++ v ++ w)
  | integer {d : Nat} {v : List α} : spelling .integer v → Derives spelling .factor d v
  | group {d : Nat} {o v c : List α} :
      spelling .openParen o → Derives spelling .expression d v → spelling .closeParen c →
      Derives spelling .factor (d + 1) (o ++ v ++ c)

/-- Repetitions continue an expression; all else begins with an operand. -/
def Phrase.needsOperand : Phrase → Bool
  | expression | term | factor => true
  | sums | products => false

namespace Progress

/-- Whatever is derived is read to its end, if the depth allows it. -/
theorem reaches_of_derives {phrase : Phrase} {d limit : Nat} {u : List Category}
    (h : Derives .plain phrase d u) {p : Progress} {w : List Token}
    (hw : Token.categories w = u) (hp : p.needsOperand = phrase.needsOperand)
    (hd : p.opened + d ≤ limit) :
    ∃ q, Reaches limit p w q ∧ q.needsOperand = false ∧ q.opened = p.opened := by
  induction h generalizing p w with
  | expression _ _ ihv ihw | term _ _ ihv ihw =>
      obtain ⟨x, y, rfl, hx, hy⟩ := List.map_eq_append_iff.mp hw
      obtain ⟨q, hq, hqn, hqo⟩ := ihv hx hp hd
      obtain ⟨s, hs, hsn, hso⟩ := ihw hy hqn (by omega)
      exact ⟨s, hq.trans hs, hsn, by omega⟩
  | noSum | noProduct =>
      obtain rfl := List.map_eq_nil_iff.mp hw
      exact ⟨p, .refl p, hp, rfl⟩
  | sum ho _ _ ihv ihw | product ho _ _ ihv ihw =>
      cases ho
      obtain ⟨_, y, rfl, hx, hy⟩ := List.map_eq_append_iff.mp hw
      obtain ⟨t, x, rfl, ht, hx⟩ := List.map_eq_cons_iff.mp hx
      have hm : p.move limit t = .on p.takeOperator := by
        simp [move, hp, ht, Phrase.needsOperand]
      obtain ⟨q, hq, hqn, hqo⟩ := ihv hx p.takeOperator_needsOperand hd
      obtain ⟨s, hs, hsn, hso⟩ := ihw hy hqn (by simp [hqo, hd])
      exact ⟨s, .move hm (hq.trans hs), hsn, hso.trans hqo⟩
  | integer hv =>
      cases hv
      obtain ⟨t, x, rfl, ht, hx⟩ := List.map_eq_cons_iff.mp hw
      obtain rfl := List.map_eq_nil_iff.mp hx
      have hm : p.move limit t = .on p.takeInteger := by
        simp [move, hp, ht, Phrase.needsOperand]
      exact ⟨p.takeInteger, .move hm (.refl _), rfl, rfl⟩
  | @group d _ _ _ ho _ hc ihv =>
      cases ho
      cases hc
      obtain ⟨_, y, rfl, hx, hy⟩ := List.map_eq_append_iff.mp hw
      obtain ⟨t, x, rfl, ht, hx⟩ := List.map_eq_cons_iff.mp hx
      obtain ⟨c, z, rfl, hc, hz⟩ := List.map_eq_cons_iff.mp hy
      obtain rfl := List.map_eq_nil_iff.mp hz
      have hm : p.move limit t = .on p.openGroup := by
        have hlt : p.opened < limit := by omega
        simp [move, hp, ht, hlt, Phrase.needsOperand]
      have hpn : p.openGroup.needsOperand = Phrase.expression.needsOperand := hp
      have hpo : p.openGroup.opened + d ≤ limit := by rw [openGroup_opened]; omega
      obtain ⟨q, hq, hqn, hqo⟩ := ihv hx hpn hpo
      have hqc : q.move limit c = .on q.closeGroup := by simp [move, hqn, hc, hqo]
      exact ⟨q.closeGroup, .move hm (hq.trans (.move hqc (.refl _))), hqn, by simp [hqo]⟩

end Progress

/-- What may follow the first factor of an expression. -/
def Continues (d : Nat) (z : List Category) : Prop :=
  ∃ x y, z = x ++ y ∧ Derives .plain .products d x ∧ Derives .plain .sums d y

theorem continues_nil (d : Nat) : Continues d [] :=
  ⟨[], [], rfl, .noProduct, .noSum⟩

theorem Continues.expression {d : Nat} {v z : List Category} (hz : Continues d z)
    (hv : Derives .plain .factor d v) : Derives .plain .expression d (v ++ z) := by
  obtain ⟨x, y, rfl, hx, hy⟩ := hz
  rw [← List.append_assoc]
  exact .expression (.term hv hx) hy

theorem Continues.operator {d : Nat} {o : Category} {v z : List Category} (hz : Continues d z)
    (ho : o = .plus ∨ o = .times) (hv : Derives .plain .factor d v) :
    Continues d (o :: v ++ z) := by
  obtain ⟨x, y, rfl, hx, hy⟩ := hz
  rcases ho with rfl | rfl
  · refine ⟨[], _, by simp, .noProduct, .sum rfl (.term hv hx) hy⟩
  · refine ⟨_, y, by simp, .product rfl hv hx, hy⟩

/-- What may follow an operand while `k` parentheses are open: it continues the
expressions that are open, and closes them one by one. -/
def Closes (limit : Nat) : (k : Nat) → List Category → Prop
  | 0, w => Continues limit w
  | k + 1, w => ∃ z rest, w = z ++ .closeParen :: rest ∧
      Continues (limit - (k + 1)) z ∧ Closes limit k rest

theorem Closes.operator {limit k : Nat} {o : Category} {v w : List Category}
    (hw : Closes limit k w) (ho : o = .plus ∨ o = .times)
    (hv : Derives .plain .factor (limit - k) v) : Closes limit k (o :: v ++ w) := by
  cases k with
  | zero => exact Continues.operator hw ho hv
  | succ k =>
      obtain ⟨z, rest, rfl, hz, hr⟩ := hw
      exact ⟨o :: v ++ z, rest, by simp, hz.operator ho hv, hr⟩

theorem Closes.closeParen {limit k : Nat} {w : List Category} (hw : Closes limit k w) :
    Closes limit (k + 1) (.closeParen :: w) :=
  ⟨[], w, rfl, continues_nil _, hw⟩

/-- An operand is missing in front of what may follow one. -/
def Opens (limit k : Nat) (w : List Category) : Prop :=
  ∃ v z, w = v ++ z ∧ Derives .plain .factor (limit - k) v ∧ Closes limit k z

theorem Opens.openParen {limit k : Nat} {w : List Category} (hk : k < limit)
    (hw : Opens limit (k + 1) w) : Opens limit k (.openParen :: w) := by
  obtain ⟨v, _, rfl, hv, z, rest, rfl, hz, hr⟩ := hw
  have hd : limit - k = limit - (k + 1) + 1 := by omega
  refine ⟨[.openParen] ++ (v ++ z) ++ [.closeParen], rest, by simp, ?_, hr⟩
  rw [hd]
  exact .group rfl (hz.expression hv) rfl

namespace Progress

theorem Reaches.completes {limit : Nat} {p q : Progress} {w : List Token}
    (h : Reaches limit p w q) (hq : q.Complete) :
    if p.needsOperand then Opens limit p.opened (Token.categories w)
    else Closes limit p.opened (Token.categories w) := by
  induction h with
  | refl p =>
      rw [hq.1, hq.2]
      exact continues_nil limit
  | @move p q s t w hm _ ih =>
      -- The token in front goes to the operand, the operator or the parenthesis
      -- that the completion behind it lacks.
      have ih := ih hq
      change if p.needsOperand then Opens limit p.opened (t.category :: Token.categories w)
        else Closes limit p.opened (t.category :: Token.categories w)
      obtain ⟨hp, ht, rfl⟩ | ⟨hp, ht, hlt, rfl⟩ | ⟨hp, ht, rfl⟩ | ⟨hp, ht, h0, rfl⟩ :=
        move_on_cases hm
      · simp [hp, ht] at ih ⊢
        exact ⟨[.integer], _, rfl, .integer rfl, ih⟩
      · simp [hp, ht] at ih ⊢
        exact ih.openParen hlt
      · simp [hp] at ih ⊢
        obtain ⟨v, z, hw, hv, hz⟩ := ih
        rw [hw]
        exact hz.operator ht hv
      · simp [hp, ht] at ih ⊢
        obtain ⟨k, hk⟩ := Nat.exists_eq_succ_of_ne_zero h0
        rw [hk] at ih ⊢
        exact ih.closeParen

theorem reaches_complete_iff (limit : Nat) (w : List Token) :
    (∃ q, Reaches limit {} w q ∧ q.Complete) ↔
      Derives .plain .expression limit (Token.categories w) := by
  constructor
  · rintro ⟨q, hr, hq⟩
    obtain ⟨v, z, hw, hv, hz⟩ := hr.completes hq
    rw [hw]
    exact Continues.expression hz hv
  · intro h
    obtain ⟨q, hr, hn, ho⟩ :=
      reaches_of_derives h rfl (p := {}) rfl (Nat.le_of_eq (Nat.zero_add limit))
    exact ⟨q, hr, hn, ho⟩

end Progress

theorem recognize_ok_iff (settings : GrammarSettings) (ts : List Token) :
    recognize settings ts = .ok () ↔
      ∃ w, (ts = w ∨ ∃ e : Token, e.isEnd = true ∧ ts = w ++ [e]) ∧
        (∀ t ∈ w, t.isEnd = false) ∧
        Derives .plain .expression settings.depthLimit (Token.categories w) := by
  rw [recognize_eq_result, Progress.run_ok_iff]
  constructor
  · rintro ⟨w, q, hr, hq, hts⟩
    exact ⟨w, hts, hr.isEnd, (Progress.reaches_complete_iff _ _).mp ⟨q, hr, hq⟩⟩
  · rintro ⟨w, hts, _, hw⟩
    obtain ⟨q, hr, hq⟩ := (Progress.reaches_complete_iff _ _).mpr hw
    exact ⟨w, q, hr, hq, hts⟩

theorem isEnd_of_categories {v w : List Token} (h : Token.categories v = Token.categories w)
    (hw : ∀ t ∈ w, t.isEnd = false) : ∀ t ∈ v, t.isEnd = false := by
  intro t ht
  have hc : t.category ∈ Token.categories w := h ▸ List.mem_map_of_mem ht
  obtain ⟨u, hu, huc⟩ := List.mem_map.mp hc
  simpa [Token.isEnd, huc] using hw u hu

theorem recognize_ok_of_categories {settings : GrammarSettings} {ts us : List Token}
    (h : Token.categories us = Token.categories ts) (hok : recognize settings ts = .ok ()) :
    recognize settings us = .ok () := by
  obtain ⟨w, rfl | ⟨e, he, rfl⟩, hn, hw⟩ := (recognize_ok_iff settings ts).mp hok
  · exact (recognize_ok_iff settings us).mpr ⟨us, .inl rfl, isEnd_of_categories h hn, h ▸ hw⟩
  · rw [Token.categories, Token.categories, List.map_append] at h
    obtain ⟨v, y, rfl, hv, hy⟩ := List.map_eq_append_iff.mp h
    obtain ⟨e', z, rfl, he', hz⟩ := List.map_eq_cons_iff.mp hy
    obtain rfl := List.map_eq_nil_iff.mp hz
    have hv : Token.categories v = Token.categories w := hv
    have hend : e'.isEnd = true := by simpa [Token.isEnd, he'] using he
    exact (recognize_ok_iff settings _).mpr
      ⟨v, .inr ⟨e', hend, rfl⟩, isEnd_of_categories hv hn, hv ▸ hw⟩

/-- Tokens are recognized if and only if they are an expression within the depth
that is allowed, alone or with one end marker behind it; neither lexemes nor
spans count. -/
theorem recognize_iff_derives (settings : GrammarSettings) (ts : List Token) :
    (recognize settings ts = .ok () ↔
      ∃ w, (ts = w ∨ ∃ e : Token, e.isEnd = true ∧ ts = w ++ [e]) ∧
        (∀ t ∈ w, t.isEnd = false) ∧
        Derives .plain .expression settings.depthLimit (Token.categories w)) ∧
    ∀ us : List Token, Token.categories us = Token.categories ts →
      (recognize settings us = .ok () ↔ recognize settings ts = .ok ()) := by
  refine ⟨recognize_ok_iff settings ts, fun us h => ⟨?_, ?_⟩⟩
  · exact recognize_ok_of_categories h.symm
  · exact recognize_ok_of_categories h

end ExprCheck.Grammar
