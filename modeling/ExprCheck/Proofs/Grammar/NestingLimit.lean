import ExprCheck.Proofs.Grammar.Descent
import Mathlib.Order.Bounds.Basic

/-!
What the limit on nesting does to a reading: nothing, up to the first parenthesis
that would be one too many to be open. An accepted program needs as many levels
as it has parentheses open at once, and any limit that has them will do.
-/

namespace ExprCheck

/-- Parentheses opened in `ts` over those closed. -/
def Token.unclosed (ts : List Token) : Int :=
  ts.countP (·.category = .openParen) - ts.countP (·.category = .closeParen)

theorem Token.unclosed_append (v w : List Token) :
    unclosed (v ++ w) = unclosed v + unclosed w := by
  simp only [unclosed, List.countP_append]
  omega

theorem Token.unclosed_endOfInput {t : Token} (h : t.category = .endOfInput) :
    unclosed [t] = 0 := by
  simp [unclosed, h]

theorem Token.unclosed_closeParen {t : Token} (h : t.category = .closeParen) :
    unclosed [t] = -1 := by
  simp [unclosed, h]

namespace Grammar
namespace Progress

variable {limit : Nat} {p q : Progress} {t : Token} {v w ts : List Token}

/-- A greater limit changes a move only where the smaller one is exceeded. -/
theorem move_limit {limit' : Nat} (hl : limit ≤ limit') (p : Progress) (t : Token) :
    p.move limit' t = p.move limit t ∨
      ∃ q, p.move limit t = .stop (.nestingTooDeep (p.opened + 1) limit t.span) q := by
  by_cases hc : p.needsOperand = true ∧ t.category = .openParen
  · obtain ⟨hn, ht⟩ := hc
    by_cases ho : p.opened < limit
    · have ho' : p.opened < limit' := Nat.lt_of_lt_of_le ho hl
      simp [move, hn, ht, ho, ho']
    · simp [move, hn, ht, ho]
  · refine .inl ?_
    cases hn : p.needsOperand <;> cases ht : t.category <;> simp_all [move]

theorem run_limit {limit' : Nat} (hl : limit ≤ limit') (p : Progress) (ts : List Token)
    (h : ∀ depth bound span,
      (p.run limit ts).result ≠ .error (.nestingTooDeep depth bound span)) :
    p.run limit' ts = p.run limit ts := by
  induction ts generalizing p with
  | nil => rfl
  | cons t ts ih =>
      cases he : t.isEnd with
      | true => simp [run, he]
      | false =>
          obtain hm | ⟨q, hm⟩ := move_limit hl p t
          · cases hmove : p.move limit t with
            | on q =>
                simp only [run, he, hm, hmove, Bool.false_eq_true, ite_false] at h ⊢
                exact ih q h
            | stop f q => simp [run, he, hm, hmove]
          · exfalso
            refine h (p.opened + 1) limit t.span ?_
            simp [run, he, hm]

end Progress
end Grammar

namespace Token

/-- How many parentheses are open behind the beginnings of `ts`. -/
def heights (ts : List Token) : Set Int :=
  {n | ∃ v, v <+: ts ∧ unclosed v = n}

theorem heights_nil : heights [] = {0} := by
  ext n
  simp [heights, unclosed, eq_comm]

theorem heights_concat (ts : List Token) (t : Token) :
    heights (ts ++ [t]) = insert (unclosed (ts ++ [t])) (heights ts) := by
  ext n
  simp only [heights, List.prefix_concat_iff, Set.mem_ofPred_eq, Set.mem_insert_iff]
  constructor
  · rintro ⟨v, rfl | hv, hn⟩
    · exact .inl hn.symm
    · exact .inr ⟨v, hv, hn⟩
  · rintro (rfl | ⟨v, hv, hn⟩)
    · exact ⟨_, .inl rfl, rfl⟩
    · exact ⟨v, .inr hv, hn⟩

theorem unclosed_mem_heights (ts : List Token) : unclosed ts ∈ heights ts :=
  ⟨ts, List.prefix_refl ts, rfl⟩

theorem heights_concat_end (ts : List Token) {e : Token} (he : e.isEnd = true) :
    heights (ts ++ [e]) = heights ts := by
  have hc : e.category = .endOfInput := by simpa [isEnd] using he
  have hu : unclosed (ts ++ [e]) = unclosed ts := by
    rw [unclosed_append, unclosed_endOfInput hc, Int.add_zero]
  rw [heights_concat, hu, Set.insert_eq_of_mem (unclosed_mem_heights ts)]

end Token

namespace Grammar
namespace Progress

variable {limit : Nat} {p q : Progress} {t : Token} {done w ts : List Token}

/-- A reading knows how many parentheses `done` has left open, and the most that
were open at once. -/
structure Tracks (limit : Nat) (done : List Token) (p : Progress) : Prop where
  opened : (p.opened : Int) = Token.unclosed done
  deepest : IsGreatest (Token.heights done) p.deepest
  within : p.deepest ≤ limit

theorem Tracks.opened_le (h : Tracks limit done p) : p.opened ≤ p.deepest := by
  have hle := h.deepest.2 (Token.unclosed_mem_heights done)
  rw [← h.opened] at hle
  exact Int.ofNat_le.mp hle

theorem tracks_start (limit : Nat) : Tracks limit [] {} where
  opened := rfl
  deepest := by
    rw [Token.heights_nil]
    exact isGreatest_singleton
  within := Nat.zero_le limit

theorem Tracks.move (h : Tracks limit done p) (hm : p.move limit t = .on q) :
    Tracks limit (done ++ [t]) q := by
  have hle := h.opened_le
  have hw := h.within
  obtain ⟨ho, hd, hq⟩ : (q.opened : Int) = p.opened + Token.unclosed [t] ∧
      (q.deepest : Int) = max (q.opened : Int) p.deepest ∧ q.deepest ≤ limit := by
    obtain ⟨_, ht, rfl⟩ | ⟨_, ht, hl, rfl⟩ | ⟨_, ht | ht, rfl⟩ | ⟨_, ht, h0, rfl⟩ :=
      move_on_cases hm <;> simp [Token.unclosed, ht] <;> omega
  have hopened : (q.opened : Int) = Token.unclosed (done ++ [t]) := by
    rw [ho, h.opened, Token.unclosed_append]
  refine ⟨hopened, ?_, hq⟩
  rw [Token.heights_concat, ← hopened, hd]
  exact h.deepest.insert _

theorem Reaches.tracks (h : Reaches limit p w q) (hp : Tracks limit done p) :
    Tracks limit (done ++ w) q := by
  induction h generalizing done with
  | refl p => simpa using hp
  | @move p r s t w hm _ ih =>
      have hr := ih (hp.move hm)
      simpa using hr

theorem Reaches.tracks_start (h : Reaches limit {} w q) : Tracks limit w q :=
  h.tracks (Progress.tracks_start limit)

/-- The parenthesis at which a reading stops is the first that is one too many. -/
theorem exists_first_too_deep {depth bound : Nat} {span : Span}
    (h : (({} : Progress).run limit ts).result = .error (.nestingTooDeep depth bound span)) :
    depth = limit + 1 ∧ bound = limit ∧
      ∃ before t after, ts = before ++ t :: after ∧ t.category = .openParen ∧ span = t.span ∧
        Token.unclosed (before ++ [t]) = limit + 1 ∧
        ∀ v, v <+: before → Token.unclosed v ≤ limit := by
  obtain ⟨w, q, rest, rfl, hr, hs⟩ := run_splits limit {} ts
  have hq := hr.tracks_start
  generalize ({} : Progress).run limit (w ++ rest) = o at h hs
  cases hs with
  | ranOut =>
      by_cases hc : q.Complete <;> simp [finish, hc, Fault.ofToken] at h
  | @ended t rest he =>
      by_cases hc : q.Complete
      · cases rest <;> simp [finish, hc, Fault.ofToken] at h
      · simp [finish, hc, Fault.ofToken] at h
  | @stopped t rest f s he hm =>
      obtain rfl := Except.error.inj h
      obtain ⟨hf, _⟩ | ⟨_, ht, hl, hf, _⟩ := move_stop_cases hm
      · cases hf
      · obtain ⟨hdepth, hlimit, hspan⟩ := Fault.nestingTooDeep.inj hf
        have hopened : q.opened = limit :=
          Nat.le_antisymm (hq.opened_le.trans hq.within) hl
        have hunclosed : Token.unclosed (w ++ [t]) = limit + 1 := by
          rw [Token.unclosed_append, ← hq.opened, hopened]
          simp [Token.unclosed, ht]
        refine ⟨by rw [hdepth, hopened], hlimit, w, t, rest, rfl, ht, hspan, hunclosed,
          fun v hv => ?_⟩
        have hle := hq.deepest.2 ⟨v, hv, rfl⟩
        exact hle.trans (Int.ofNat_le.mpr hq.within)

/-- An accepted program was as deep as its parentheses go. -/
theorem deepest_of_run_ok (h : (({} : Progress).run limit ts).result = .ok ()) :
    IsGreatest (Token.heights ts) ((({} : Progress).run limit ts).deepest : Int) ∧
      (({} : Progress).run limit ts).deepest ≤ limit := by
  obtain ⟨w, q, hr, hq, hts⟩ := (run_ok_iff ..).mp h
  have hheights : Token.heights ts = Token.heights w := by
    rcases hts with rfl | ⟨e, he, rfl⟩
    · rfl
    · exact Token.heights_concat_end w he
  rw [hr.run_complete hq hts, hheights]
  exact ⟨hr.tracks_start.deepest, hr.tracks_start.within⟩

theorem run_exceeds_limit {depth bound : Nat} {span : Span} {m : Int}
    (h : (({} : Progress).run limit ts).result = .error (.nestingTooDeep depth bound span))
    (hm : IsGreatest (Token.heights ts) m) : limit < m := by
  obtain ⟨_, _, before, t, after, rfl, _, _, hu, _⟩ := exists_first_too_deep h
  have hle := hm.2 ⟨before ++ [t], ⟨after, by simp⟩, hu⟩
  omega

/-- Tokens accepted within some limit are accepted within every limit that is not
below their depth, and no other. -/
theorem run_ok_iff_deepest_le (h : (({} : Progress).run limit ts).result = .ok ()) (e : Nat) :
    (({} : Progress).run e ts).result = .ok () ↔ (({} : Progress).run limit ts).deepest ≤ e := by
  obtain ⟨hm, hml⟩ := deepest_of_run_ok h
  constructor
  · intro he
    obtain ⟨hm', hme⟩ := deepest_of_run_ok he
    have heq := hm.unique hm'
    omega
  · intro he
    obtain hle | hle := Nat.le_total e limit
    · have hrun : ({} : Progress).run limit ts = ({} : Progress).run e ts := by
        refine run_limit hle {} ts fun depth bound span hdeep => ?_
        have hlt := run_exceeds_limit hdeep hm
        omega
      rwa [← hrun]
    · rw [run_limit hle {} ts fun _ _ _ hdeep => by rw [h] at hdeep; cases hdeep]
      exact h

end Progress

theorem exists_nestingTooDeep_of_lt {limit e : Nat} {ts : List Token}
    (h : (({} : Progress).run limit ts).result = .ok ())
    (he : e < (({} : Progress).run limit ts).deepest) :
    ∃ span, (({} : Progress).run e ts).result = .error (.nestingTooDeep (e + 1) e span) := by
  by_contra hno
  have hle : e ≤ limit := by
    have hm := (Progress.deepest_of_run_ok h).2
    omega
  -- Without that fault the run under `e` would be the same, and accept.
  have hrun : ({} : Progress).run limit ts = ({} : Progress).run e ts := by
    refine Progress.run_limit hle {} ts fun depth bound span hdeep => ?_
    obtain ⟨rfl, rfl, _⟩ := Progress.exists_first_too_deep hdeep
    exact hno ⟨span, hdeep⟩
  have hok : (({} : Progress).run e ts).result = .ok () := hrun ▸ h
  have := (Progress.run_ok_iff_deepest_le h e).mp hok
  omega

/-- Within a wider limit recognition comes to the same, unless the nesting was
too deep. Then the fault is at the first parenthesis above the limit. What is
accepted has been as deep as its parentheses go, and that decides which other
limits accept it. -/
theorem nesting_limit_only_cuts (settings wider : GrammarSettings) (ts : List Token)
    (h : settings.depthLimit ≤ wider.depthLimit) :
    let o := (Recognizer.ofTokens settings ts).outcome
    ((∀ depth limit span, o.result ≠ .error (.nestingTooDeep depth limit span)) →
      (Recognizer.ofTokens wider ts).outcome = o) ∧
    (∀ depth limit span, o.result = .error (.nestingTooDeep depth limit span) →
      depth = settings.depthLimit + 1 ∧ limit = settings.depthLimit ∧
      ∃ before t after, ts = before ++ t :: after ∧ t.category = .openParen ∧ span = t.span ∧
        Token.unclosed (before ++ [t]) = settings.depthLimit + 1 ∧
        ∀ v, v <+: before → Token.unclosed v ≤ settings.depthLimit) ∧
    (o.result = .ok () →
      IsGreatest (Token.heights ts) o.deepest ∧
      ∀ e, 1 ≤ e → e ≤ Limits.depth → ∀ other : GrammarSettings, other.depthLimit = e →
        (recognize other ts = .ok () ↔ o.deepest ≤ e) ∧
        (e < o.deepest →
          ∃ span, recognize other ts = .error (.nestingTooDeep (e + 1) e span))) := by
  intro o
  have ho : o = ({} : Progress).run settings.depthLimit ts := Recognizer.outcome_ofTokens ..
  rw [ho, Recognizer.outcome_ofTokens]
  refine ⟨Progress.run_limit h {} ts, fun _ _ _ => Progress.exists_first_too_deep,
    fun hok => ⟨(Progress.deepest_of_run_ok hok).1, ?_⟩⟩
  intro e _ _ other he
  rw [recognize_eq_result, he]
  exact ⟨Progress.run_ok_iff_deepest_le hok e, exists_nestingTooDeep_of_lt hok⟩

/-- Two levels suffice for two parentheses around an integer, and one does not. -/
theorem nesting_limit_cuts_second_level :
    let ts : List Token :=
      [.openParen, .openParen, .integer, .closeParen, .closeParen].map (⟨·, none, .dummy⟩)
    let settings : GrammarSettings := ⟨2, false⟩
    let wider : GrammarSettings := ⟨9, true⟩
    settings.depthLimit ≤ wider.depthLimit ∧
      (Recognizer.ofTokens wider ts).outcome = (Recognizer.ofTokens settings ts).outcome ∧
      IsGreatest (Token.heights ts) 2 ∧
      ∃ span, recognize ⟨1, false⟩ ts = .error (.nestingTooDeep 2 1 span) := by
  intro ts settings wider
  have h : settings.depthLimit ≤ wider.depthLimit := by decide
  have ho : (Recognizer.ofTokens settings ts).outcome = ⟨.ok (), 6, 2⟩ := by
    rw [Recognizer.outcome_ofTokens]
    rfl
  obtain ⟨hsame, _, haccepted⟩ := nesting_limit_only_cuts settings wider ts h
  rw [ho] at hsame haccepted
  obtain ⟨hgreatest, hother⟩ := haccepted rfl
  have hwider := hsame fun _ _ _ hd => by cases hd
  exact ⟨h, hwider.trans ho.symm, hgreatest,
    (hother 1 (by decide) (by decide) ⟨1, false⟩ rfl).2 (by decide)⟩

end Grammar
end ExprCheck
