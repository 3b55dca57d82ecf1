import ExprCheck.Proofs.Token.Reading
import ExprCheck.Token.Analyzer
import Mathlib.Order.Bounds.Basic

/-!
What an analyzer counts. A tally is the count of each category in the tokens of
one scan, and of nothing before it: whatever an analyzer has been asked for, it
counts the next text as a new one with the same settings would.
-/

namespace ExprCheck
namespace Token

/-- The lengths of the integers in bytes. -/
def integerWidths (ts : List Token) : Set Nat :=
  {n | ∃ t ∈ ts, t.category = .integer ∧ Text.byteLength t.letters = n}

theorem integerWidths_concat_integer (ts : List Token) {t : Token}
    (ht : t.category = .integer) :
    integerWidths (ts ++ [t]) = insert (Text.byteLength t.letters) (integerWidths ts) := by
  ext n
  simp only [integerWidths, List.mem_append, List.mem_singleton, Set.mem_insert_iff,
    Set.mem_ofPred_eq]
  constructor
  · rintro ⟨u, hu | rfl, hc, rfl⟩
    · exact .inr ⟨u, hu, hc, rfl⟩
    · exact .inl rfl
  · rintro (rfl | ⟨u, hu, hc, rfl⟩)
    · exact ⟨t, .inr rfl, ht, rfl⟩
    · exact ⟨u, .inl hu, hc, rfl⟩

theorem integerWidths_concat_other (ts : List Token) {t : Token}
    (ht : t.category ≠ .integer) : integerWidths (ts ++ [t]) = integerWidths ts := by
  ext n
  simp only [integerWidths, List.mem_append, List.mem_singleton, Set.mem_ofPred_eq]
  constructor
  · rintro ⟨u, hu | rfl, hc, rfl⟩
    · exact ⟨u, hu, hc, rfl⟩
    · exact absurd hc ht
  · rintro ⟨u, hu, hc, rfl⟩
    exact ⟨u, .inl hu, hc, rfl⟩

theorem isGreatest_integerWidths_concat {ts : List Token} {n : Nat}
    (h : IsGreatest (insert 0 (integerWidths ts)) n) (t : Token) :
    IsGreatest (insert 0 (integerWidths (ts ++ [t])))
      (if t.category = .integer then max n (Text.byteLength t.letters) else n) := by
  by_cases ht : t.category = .integer
  · rw [integerWidths_concat_integer ts ht, Set.insert_comm, if_pos ht, max_comm]
    exact h.insert (Text.byteLength t.letters)
  · rwa [integerWidths_concat_other ts ht, if_neg ht]

/-- The kinds that a tally tells apart, and the end markers, are all that there
is. -/
theorem length_eq_counts (ts : List Token) :
    ts.length = ts.countP (·.category = .integer) + ts.countP (·.category.isOperator)
      + ts.countP (·.category.isParen) + ts.countP (·.category = .invalid)
      + ts.countP isEnd := by
  induction ts with
  | nil => rfl
  | cons t ts ih =>
      simp only [List.countP_cons, List.length_cons, ih]
      cases hc : t.category <;> simp [hc, isEnd, Category.isOperator, Category.isParen] <;> omega

end Token

namespace Tally

/-- All that `m` tells of the categories of `ts`. -/
structure Counts (ts : List Token) (m : Tally) : Prop where
  total : m.total = ts.length
  integers : m.integers = ts.countP (·.category = .integer)
  operators : m.operators = ts.countP (·.category.isOperator)
  parens : m.parens = ts.countP (·.category.isParen)
  invalid : m.invalid = ts.countP (·.category = .invalid)
  longestInteger : IsGreatest (insert 0 (Token.integerWidths ts)) m.longestInteger
  longIntegers : m.longIntegers =
    ts.countP fun t => t.category = .integer ∧ 64 < Text.byteLength t.letters

variable {done : List Token} {m : Tally}

theorem record_detailed (m : Tally) (t : Token) :
    record true m t =
      { total := m.total + 1
        integers := m.integers + if t.category = .integer then 1 else 0
        operators := m.operators + if t.category.isOperator then 1 else 0
        parens := m.parens + if t.category.isParen then 1 else 0
        invalid := m.invalid + if t.category = .invalid then 1 else 0
        blanks := m.blanks
        longestInteger :=
          if t.category = .integer then max m.longestInteger (Text.byteLength t.letters)
          else m.longestInteger
        longIntegers := m.longIntegers +
          if t.category = .integer ∧ 64 < Text.byteLength t.letters then 1 else 0 } := by
  cases hc : t.category with
  | integer =>
      by_cases hw : 64 < Text.byteLength t.letters <;>
        simp [record, classify, hc, Token.isLong, t.width_eq, Limits.integerWidth,
          Category.isOperator, Category.isParen, hw]
  | plus | times | openParen | closeParen | endOfInput | invalid =>
      simp [record, classify, hc, Category.isOperator, Category.isParen]

theorem counts_nothing : ({} : Tally).Counts [] where
  total := rfl
  integers := rfl
  operators := rfl
  parens := rfl
  invalid := rfl
  longestInteger := by simp [Token.integerWidths]
  longIntegers := rfl

theorem Counts.record (h : m.Counts done) (t : Token) :
    (Tally.record true m t).Counts (done ++ [t]) := by
  rw [record_detailed]
  exact
    { total := by simp [h.total]
      integers := by simp [h.integers, List.countP_singleton]
      operators := by simp [h.operators, List.countP_singleton]
      parens := by simp [h.parens, List.countP_singleton]
      invalid := by simp [h.invalid, List.countP_singleton]
      longestInteger := Token.isGreatest_integerWidths_concat h.longestInteger t
      longIntegers := by simp [h.longIntegers, List.countP_singleton] }

theorem Counts.foldl (h : m.Counts done) (ts : List Token) :
    (ts.foldl (Tally.record true) m).Counts (done ++ ts) := by
  induction ts generalizing done m with
  | nil => simpa using h
  | cons t ts ih => simpa using ih (h.record t)

theorem ofTokens_counts (ts : List Token) (blanks : Nat) : (ofTokens true ts blanks).Counts ts :=
  have h := counts_nothing.foldl ts
  ⟨h.total, h.integers, h.operators, h.parens, h.invalid, h.longestInteger, h.longIntegers⟩

/-- In a scan all but the end marker are of a kind that is counted. -/
theorem Counts.total_eq_sum {text : String} (h : m.Counts (scan text)) :
    m.total = m.integers + m.operators + m.parens + m.invalid + 1 := by
  rw [h.total, h.integers, h.operators, h.parens, h.invalid, ← countP_isEnd_scan text]
  exact Token.length_eq_counts (scan text)

theorem foldl_record_plain (m : Tally) (ts : List Token) :
    ts.foldl (record false) m = { m with total := m.total + ts.length } := by
  induction ts generalizing m with
  | nil => rfl
  | cons t ts ih =>
      rw [List.foldl_cons, ih]
      simp [record, Nat.add_assoc, Nat.add_comm 1]

theorem ofTokens_plain (ts : List Token) (blanks : Nat) :
    ofTokens false ts blanks = { total := ts.length, blanks } := by
  simp [ofTokens, foldl_record_plain]

theorem total_ofTokens (detailed : Bool) (ts : List Token) (blanks : Nat) :
    (ofTokens detailed ts blanks).total = ts.length := by
  cases detailed with
  | false => rw [ofTokens_plain]
  | true => exact (ofTokens_counts ts blanks).total

end Tally

namespace Analyzer

inductive Request where
  | configure (settings : ScanSettings)
  | scan (text : String)
deriving DecidableEq, Repr

def Request.settings? : Request → Option ScanSettings
  | .configure settings => some settings
  | .scan _ => none

def after (a : Analyzer) : Request → Analyzer
  | .configure settings => a.configure settings
  | .scan text => (a.scan text).2

def afterAll (a : Analyzer) (requests : List Request) : Analyzer :=
  requests.foldl after a

theorem afterAll_settings (a : Analyzer) (requests : List Request) :
    (a.afterAll requests).settings =
      (requests.filterMap Request.settings?).getLast?.getD a.settings := by
  induction requests generalizing a with
  | nil => rfl
  | cons r rs ih =>
      have h := ih (a.after r)
      cases r with
      | configure settings =>
          change _ = (settings :: rs.filterMap Request.settings?).getLast?.getD a.settings
          rw [List.getLast?_cons, Option.getD_some]
          exact h
      | scan text => exact h

theorem afterAll_configure_tally (a : Analyzer) (later : List ScanSettings) :
    (a.afterAll (later.map .configure)).tally = a.tally := by
  induction later generalizing a with
  | nil => rfl
  | cons settings later ih => exact ih (a.configure settings)

/-- Whatever has been counted before, the next scan starts from nothing. -/
theorem scan_forgets (a : Analyzer) (text : String) :
    a.scan text = ({ settings := a.settings } : Analyzer).scan text := rfl

/-- Whatever an analyzer has been asked for, a scan gives the tokens of a plain
one, and counts these and nothing else, until the next scan. How much it counts
is up to the last settings before it. -/
theorem scan_counts_its_text (a : Analyzer) (requests : List Request) (text : String) :
    let b := a.afterAll requests
    let tokens := ExprCheck.scan text
    let blanks := text.toList.countP Text.isBlank
    let counted := (b.scan text).2
    let m := counted.tally
    b.settings = (requests.filterMap Request.settings?).getLast?.getD a.settings ∧
    (b.scan text).1.1 = tokens ∧
    b.scan text = ({ settings := b.settings } : Analyzer).scan text ∧
    (∀ later : List ScanSettings, (counted.afterAll (later.map .configure)).tally = m) ∧
    m.total = tokens.length ∧ m.blanks = blanks ∧
    (b.settings.detailed = true →
      m.Counts tokens ∧ m.total = m.integers + m.operators + m.parens + m.invalid + 1) ∧
    (b.settings.detailed = false → m = { total := tokens.length, blanks }) := by
  intro b tokens blanks counted m
  have hm : m = .ofTokens b.settings.detailed tokens blanks :=
    congrArg (Tally.ofTokens b.settings.detailed tokens) (blanks_scan text)
  refine ⟨a.afterAll_settings requests, rfl, b.scan_forgets text,
    counted.afterAll_configure_tally, ?_, ?_, fun hd => ?_, fun hd => ?_⟩
  · rw [hm, Tally.total_ofTokens]
  · rw [hm]
    rfl
  · rw [hd] at hm
    have hc : m.Counts tokens := hm ▸ Tally.ofTokens_counts tokens blanks
    exact ⟨hc, hc.total_eq_sum⟩
  · rw [hm, hd, Tally.ofTokens_plain]

end Analyzer
end ExprCheck
