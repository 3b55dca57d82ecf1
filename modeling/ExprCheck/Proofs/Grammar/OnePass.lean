import ExprCheck.Grammar.Recognizer
import Mathlib.Tactic.Simps.Basic

/-!
Programs read in one pass and without a stack: whether an operand has to come
next and how many parentheses are open is all that decides about a token.

A run goes over tokens as long as they can be part of a program, and what stands
behind them settles it. The lemmas here take runs apart at that place.
-/

namespace ExprCheck.Grammar

/-- How far the reading of a program has come. -/
structure Progress where
  /-- Whether the next token has to start a factor. -/
  needsOperand : Bool := true
  opened : Nat := 0
  consumed : Nat := 0
  /-- The most parentheses that have been open at once. -/
  deepest : Nat := 0
deriving DecidableEq, Repr

structure Outcome where
  result : Except Fault Unit
  consumed : Nat
  deepest : Nat

inductive Move where
  | on (next : Progress)
  | stop (fault : Fault) (last : Progress)

namespace Progress

/-- The categories that a fault names where nothing else fits. -/
def expected (p : Progress) : List Category :=
  if p.needsOperand then [.integer, .openParen]
  else if p.opened = 0 then [.endOfInput]
  else [.closeParen]

@[simps]
def takeInteger (p : Progress) : Progress :=
  { p with needsOperand := false, consumed := p.consumed + 1 }

@[simps]
def takeOperator (p : Progress) : Progress :=
  { p with needsOperand := true, consumed := p.consumed + 1 }

@[simps]
def openGroup (p : Progress) : Progress :=
  { p with
    opened := p.opened + 1
    consumed := p.consumed + 1
    deepest := max p.deepest (p.opened + 1) }

@[simps]
def closeGroup (p : Progress) : Progress :=
  { p with opened := p.opened - 1, consumed := p.consumed + 1 }

/-- Reads a token that is no end marker. A parenthesis that may not be opened
is consumed all the same. -/
def move (limit : Nat) (p : Progress) (t : Token) : Move :=
  match p.needsOperand, t.category with
  | true, .integer => .on p.takeInteger
  | true, .openParen =>
    if p.opened < limit then .on p.openGroup
    else
      .stop (.nestingTooDeep (p.opened + 1) limit t.span) { p with consumed := p.consumed + 1 }
  | false, .plus | false, .times => .on p.takeOperator
  | false, .closeParen =>
    if p.opened = 0 then .stop (.ofToken p.expected t) p else .on p.closeGroup
  | _, _ => .stop (.ofToken p.expected t) p

def Complete (p : Progress) : Prop :=
  p.needsOperand = false ∧ p.opened = 0

instance (p : Progress) : Decidable p.Complete :=
  inferInstanceAs (Decidable (_ ∧ _))

/-- Reads an end marker, with `rest` behind it. -/
def finish (p : Progress) (t : Token) (rest : List Token) : Outcome :=
  if p.Complete then
    { result :=
        match rest with
        | [] => .ok ()
        | extra :: _ => .error (.ofToken [] extra)
      consumed := p.consumed + 1
      deepest := p.deepest }
  else ⟨.error (.ofToken p.expected t), p.consumed, p.deepest⟩

/-- Reads tokens to the end of the program or to a fault. If they run out, an
end marker is read in place of the missing one. -/
def run (limit : Nat) : Progress → List Token → Outcome
  | p, [] => p.finish Recognizer.missingEnd []
  | p, t :: ts =>
    if t.isEnd then p.finish t ts
    else
      match p.move limit t with
      | .on q => q.run limit ts
      | .stop f q => ⟨.error f, q.consumed, q.deepest⟩

theorem run_missingEnd (limit : Nat) (p : Progress) :
    p.run limit [Recognizer.missingEnd] = p.run limit [] := rfl

theorem move_on_cases {limit : Nat} {p q : Progress} {t : Token}
    (h : p.move limit t = .on q) :
    (p.needsOperand = true ∧ t.category = .integer ∧ q = p.takeInteger) ∨
    (p.needsOperand = true ∧ t.category = .openParen ∧ p.opened < limit ∧ q = p.openGroup) ∨
    (p.needsOperand = false ∧ (t.category = .plus ∨ t.category = .times) ∧
      q = p.takeOperator) ∨
    (p.needsOperand = false ∧ t.category = .closeParen ∧ p.opened ≠ 0 ∧ q = p.closeGroup) := by
  unfold move at h
  split at h
  case h_1 hp ht => exact .inl ⟨hp, ht, (Move.on.inj h).symm⟩
  case h_2 hp ht =>
      split at h
      · next hl => exact .inr (.inl ⟨hp, ht, hl, (Move.on.inj h).symm⟩)
      · cases h
  case h_3 hp ht => exact .inr (.inr (.inl ⟨hp, .inl ht, (Move.on.inj h).symm⟩))
  case h_4 hp ht => exact .inr (.inr (.inl ⟨hp, .inr ht, (Move.on.inj h).symm⟩))
  case h_5 hp ht =>
      split at h
      · cases h
      · next h0 => exact .inr (.inr (.inr ⟨hp, ht, h0, (Move.on.inj h).symm⟩))
  case h_6 => cases h

theorem isEnd_of_move_on {limit : Nat} {p q : Progress} {t : Token}
    (h : p.move limit t = .on q) : t.isEnd = false := by
  obtain ⟨_, ht, _⟩ | ⟨_, ht, _⟩ | ⟨_, ht | ht, _⟩ | ⟨_, ht, _⟩ := move_on_cases h <;>
    simp [Token.isEnd, ht]

/-- A token stops a reading where it is not expected, or where it would open a
parenthesis too many. -/
theorem move_stop_cases {limit : Nat} {p q : Progress} {t : Token} {f : Fault}
    (h : p.move limit t = .stop f q) :
    (f = .ofToken p.expected t ∧ q = p) ∨
    (p.needsOperand = true ∧ t.category = .openParen ∧ limit ≤ p.opened ∧
      f = .nestingTooDeep (p.opened + 1) limit t.span ∧
      q = { p with consumed := p.consumed + 1 }) := by
  unfold move at h
  split at h
  case h_1 | h_3 | h_4 => cases h
  case h_2 hp ht =>
      split at h
      · cases h
      · next hl =>
          obtain ⟨rfl, rfl⟩ := Move.stop.inj h
          exact .inr ⟨hp, ht, Nat.le_of_not_lt hl, rfl, rfl⟩
  case h_5 =>
      split at h
      · obtain ⟨rfl, rfl⟩ := Move.stop.inj h
        exact .inl ⟨rfl, rfl⟩
      · cases h
  case h_6 =>
      obtain ⟨rfl, rfl⟩ := Move.stop.inj h
      exact .inl ⟨rfl, rfl⟩

inductive Reaches (limit : Nat) : Progress → List Token → Progress → Prop where
  | refl (p : Progress) : Reaches limit p [] p
  | move {p q s : Progress} {t : Token} {w : List Token} :
      p.move limit t = .on q → Reaches limit q w s → Reaches limit p (t :: w) s

/-- The token in front, or the lack of one, ends a reading. -/
inductive Settles (limit : Nat) (p : Progress) : List Token → Outcome → Prop where
  | ranOut : Settles limit p [] (p.finish Recognizer.missingEnd [])
  | ended {t : Token} {ts : List Token} :
      t.isEnd = true → Settles limit p (t :: ts) (p.finish t ts)
  | stopped {t : Token} {ts : List Token} {f : Fault} {q : Progress} :
      t.isEnd = false → p.move limit t = .stop f q →
      Settles limit p (t :: ts) ⟨.error f, q.consumed, q.deepest⟩

theorem Reaches.trans {limit : Nat} {p q s : Progress} {v w : List Token}
    (h : Reaches limit p v q) (k : Reaches limit q w s) : Reaches limit p (v ++ w) s := by
  induction h with
  | refl _ => exact k
  | move hm _ ih => exact .move hm (ih k)

theorem Reaches.run_append {limit : Nat} {p q : Progress} {w : List Token}
    (h : Reaches limit p w q) (ts : List Token) :
    p.run limit (w ++ ts) = q.run limit ts := by
  induction h with
  | refl _ => rfl
  | move hm _ ih => simpa [run, isEnd_of_move_on hm, hm] using ih

theorem Reaches.isEnd {limit : Nat} {p q : Progress} {w : List Token}
    (h : Reaches limit p w q) : ∀ t ∈ w, t.isEnd = false := by
  induction h with
  | refl _ => simp
  | move hm _ ih => simpa [isEnd_of_move_on hm] using ih

theorem Reaches.consumed {limit : Nat} {p q : Progress} {w : List Token}
    (h : Reaches limit p w q) : q.consumed = p.consumed + w.length := by
  induction h with
  | refl _ => rfl
  | move hm _ ih =>
      rw [ih, List.length_cons]
      obtain ⟨_, _, rfl⟩ | ⟨_, _, _, rfl⟩ | ⟨_, _, rfl⟩ | ⟨_, _, _, rfl⟩ := move_on_cases hm <;>
        simp <;> omega

theorem Settles.run_eq {limit : Nat} {p : Progress} {ts : List Token} {o : Outcome}
    (h : Settles limit p ts o) : p.run limit ts = o := by
  cases h with
  | ranOut => rfl
  | ended he => simp [run, he]
  | stopped he hm => simp [run, he, hm]

/-- A run goes as far as it can and is settled by what stands there. -/
theorem run_splits (limit : Nat) (p : Progress) (ts : List Token) :
    ∃ w q rest, ts = w ++ rest ∧ Reaches limit p w q ∧
      Settles limit q rest (p.run limit ts) := by
  induction ts generalizing p with
  | nil => exact ⟨[], p, [], rfl, .refl p, .ranOut⟩
  | cons t ts ih =>
      cases he : t.isEnd with
      | true =>
          refine ⟨[], p, t :: ts, rfl, .refl p, ?_⟩
          simpa [run, he] using Settles.ended he
      | false =>
          cases hm : p.move limit t with
          | on q =>
              obtain ⟨w, s, rest, rfl, hr, hs⟩ := ih q
              refine ⟨t :: w, s, rest, rfl, .move hm hr, ?_⟩
              simpa [run, he, hm] using hs
          | stop f q =>
              refine ⟨[], p, t :: ts, rfl, .refl p, ?_⟩
              simpa [run, he, hm] using Settles.stopped he hm

/-- A token that neither continues an expression nor is expected stops a run. -/
theorem run_of_unexpected {limit : Nat} {p : Progress} {t : Token}
    (h : t.category ∉ p.expected)
    (hop : p.needsOperand = false → t.category ≠ .plus ∧ t.category ≠ .times)
    (ts : List Token) :
    p.run limit (t :: ts) = ⟨.error (.ofToken p.expected t), p.consumed, p.deepest⟩ := by
  cases he : t.isEnd with
  | true =>
      have hc : ¬ p.Complete := by
        rintro ⟨hp, h0⟩
        simp_all [expected, Token.isEnd]
      simp [run, he, finish, hc]
  | false =>
      have hm : p.move limit t = .stop (.ofToken p.expected t) p := by
        by_cases h0 : p.opened = 0 <;> cases hp : p.needsOperand <;>
          cases hc : t.category <;> simp_all [move, expected]
      simp [run, he, hm]

theorem finish_ok_iff (p : Progress) (t : Token) (rest : List Token) :
    (p.finish t rest).result = .ok () ↔ p.Complete ∧ rest = [] := by
  unfold finish
  by_cases hp : p.Complete
  · cases rest <;> simp [hp]
  · simp [hp]

/-- An end marker is consumed whether the tokens have one or not. -/
theorem Reaches.run_complete {limit : Nat} {p q : Progress} {w ts : List Token}
    (h : Reaches limit p w q) (hq : q.Complete)
    (hts : ts = w ∨ ∃ e : Token, e.isEnd = true ∧ ts = w ++ [e]) :
    p.run limit ts = ⟨.ok (), q.consumed + 1, q.deepest⟩ := by
  have hfinish (e : Token) : q.finish e [] = ⟨.ok (), q.consumed + 1, q.deepest⟩ := by
    simp [finish, hq]
  rcases hts with rfl | ⟨e, he, rfl⟩
  · have hrun := h.run_append []
    rw [List.append_nil] at hrun
    exact hrun.trans (hfinish _)
  · rw [h.run_append, (Settles.ended he).run_eq]
    exact hfinish e

/-- Tokens are accepted when they lead to where a program may end, and nothing
but an end marker follows them. -/
theorem run_ok_iff (limit : Nat) (p : Progress) (ts : List Token) :
    (p.run limit ts).result = .ok () ↔
      ∃ w q, Reaches limit p w q ∧ q.Complete ∧
        (ts = w ∨ ∃ e : Token, e.isEnd = true ∧ ts = w ++ [e]) := by
  constructor
  · intro h
    obtain ⟨w, q, rest, rfl, hr, hs⟩ := run_splits limit p ts
    generalize p.run limit (w ++ rest) = o at h hs
    cases hs with
    | ranOut => exact ⟨w, q, hr, ((finish_ok_iff ..).mp h).1, .inl (by simp)⟩
    | ended he =>
        obtain ⟨hq, rfl⟩ := (finish_ok_iff ..).mp h
        exact ⟨w, q, hr, hq, .inr ⟨_, he, rfl⟩⟩
    | stopped he hm => cases h
  · rintro ⟨w, q, hr, hq, hts⟩
    rw [hr.run_complete hq hts]

/-- With its end marker a program is accepted when what stands before the marker is complete. -/
theorem run_concat_end_ok_iff (limit : Nat) (p : Progress) (w : List Token) {e : Token}
    (he : e.isEnd = true) :
    (p.run limit (w ++ [e])).result = .ok () ↔ ∃ q, Reaches limit p w q ∧ q.Complete := by
  constructor
  · intro h
    obtain ⟨v, q, hr, hq, rfl | ⟨e', _, hve⟩⟩ := (run_ok_iff limit p (w ++ [e])).mp h
    · have hend := hr.isEnd e (by simp)
      rw [he] at hend
      cases hend
    · obtain rfl := List.append_inj_left' hve rfl
      exact ⟨q, hr, hq⟩
  · rintro ⟨q, hr, hq⟩
    rw [hr.run_complete hq (.inr ⟨e, he, rfl⟩)]

end Progress
end ExprCheck.Grammar
