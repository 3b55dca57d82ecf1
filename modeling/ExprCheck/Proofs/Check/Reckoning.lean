import ExprCheck.Limits
import ExprCheck.Proofs.Check.Reports
import ExprCheck.Proofs.Source.Excerpt
import ExprCheck.Proofs.Token.Calls

/-!
Checks in machine words. A check is told once more with the way in which places
and spans are computed left open, and comes out the same for every way that is
right as long as places stay in bounds. So no place of a check is out of bounds,
and it makes no difference whether sums that do not fit a word stop the check or
wrap around.
-/

namespace ExprCheck

/-- The places of texts that are not too long to be checked. -/
structure Position.InBounds (p : Position) : Prop where
  line_pos : 1 ≤ p.line
  column_pos : 1 ≤ p.column
  offset_le : p.offset ≤ 1048576
  line_add_column_le : p.line + p.column ≤ 2 + 1048576

instance (p : Position) : Decidable p.InBounds :=
  decidable_of_iff (1 ≤ p.line ∧ 1 ≤ p.column ∧ p.offset ≤ 1048576 ∧
      p.line + p.column ≤ 2 + 1048576)
    ⟨fun ⟨hline, hcolumn, hoffset, hsum⟩ => ⟨hline, hcolumn, hoffset, hsum⟩,
      fun ⟨hline, hcolumn, hoffset, hsum⟩ => ⟨hline, hcolumn, hoffset, hsum⟩⟩

theorem Position.inBounds_behind {text : List Char} (h : Text.byteLength text ≤ 1048576) :
    (behind text).InBounds where
  line_pos := Nat.le_add_right ..
  column_pos := Nat.le_add_right ..
  offset_le := h
  line_add_column_le := Nat.le_trans (line_add_column_behind_le text) (Nat.add_le_add_left h 2)

/-- What is made of the tokens of a scan. No place is computed any more. -/
def Pass.ofScan (settings : Settings) (length : Nat) (tokens : List Token) (scanner : Scanner) :
    Pass :=
  let tally := Tally.ofTokens settings.scanning.detailed tokens scanner.blanks
  let count := tokens.length
  let (result, recognizer) := (Grammar.Recognizer.ofTokens settings.grammar tokens).recognize
  let notices := .checking length :: (.scanning length settings.scanning.detailed
      :: tokens.flatMap (Analyzer.tokenNotices settings.scanning)
      ++ [.scanComplete tally, .streamCreated count]) ++ recognizer.notices.reverse
  match result with
  | .ok _ =>
    { outcome := .ok
        { inputLength := length
          tally := tally
          tokenCount := count
          tokensConsumed := recognizer.consumed
          maxDepth := recognizer.maxDepthSeen }
      tokenCount := count
      notices := notices
        ++ [.accepted length count recognizer.maxDepthSeen, .timing count] }
  | .error f => { outcome := .error (.fault f), tokenCount := count, notices := notices }

/-- A way to compute places and spans. What it refuses stops the check. -/
structure Reckoning where
  advance : Position → Char → Option Position
  span : Position → Position → Option Span

namespace Reckoning

/-! ## The steps of a check -/

section Steps

variable (r : Reckoning)

def advanceOver (p : Position) (cs : List Char) : Option Position :=
  cs.foldlM r.advance p

def next (s : Scanner) : Option (Option Token × Scanner) :=
  if s.finished then
    some (none, s)
  else do
    let gap := s.rest.takeWhile Text.isBlank
    let start ← r.advanceOver s.position gap
    let s := { s with
      rest := s.rest.dropWhile Text.isBlank
      position := start
      blanks := s.blanks + gap.length }
    match s.rest with
    | [] => some (some (.endMarker (.emptyAt start)), { s with finished := true })
    | c :: cs =>
      let (lexeme, rest) := Scanner.cut c cs
      let stop ← r.advanceOver start lexeme
      let span ← r.span start stop
      some (some ⟨Scanner.classify c, some (String.ofList lexeme), span⟩,
        { s with rest := rest, position := stop })

def collect : Nat → Scanner → List Token → Option (List Token × Scanner)
  | 0, s, done => some (done.reverse, s)
  | n + 1, s, done => do
    match ← r.next s with
    | (none, s) => some (done.reverse, s)
    | (some t, s) => collect n s (t :: done)

def run (s : Scanner) : Option (List Token × Scanner) :=
  r.collect s.sizeHint.2 s []

def check (settings : Settings) (text : String) : Option Pass :=
  let length := Text.byteLength text.toList
  let limit := settings.scanning.inputLimit
  if length ≤ limit then do
    let (tokens, scanner) ← r.run (.ofText text)
    some (.ofScan settings length tokens scanner)
  else
    some
      { outcome := .error (.inputTooLarge length limit)
        tokenCount := 0
        notices := [.inputTooLarge length limit] }

end Steps

/-! ## Ways to compute -/

/-- Refuses places out of bounds, and spans that run backwards. -/
def guarded : Reckoning where
  advance p c := if (p.advance c).InBounds then some (p.advance c) else none
  span p q := if p.offset ≤ q.offset then some ⟨p, q⟩ else none

/-- A sum, if it lies below `bound`. -/
def sumBelow? (bound m n : Nat) : Option Nat :=
  if m + n < bound then some (m + n) else none

/-- In words, with sums that do not fit refused, and spans that run backwards. -/
def checked : Reckoning where
  advance p c :=
    if c = '\n' then do
      let offset ← sumBelow? Number.wordBound p.offset 1
      let line ← sumBelow? Number.halfWordBound p.line 1
      return { offset, line, column := 1 }
    else do
      let offset ← sumBelow? Number.wordBound p.offset c.utf8Size
      let column ← sumBelow? Number.halfWordBound p.column 1
      return { p with offset, column }
  span p q := if p.offset ≤ q.offset then some ⟨p, q⟩ else none

/-- In words, with sums that wrap around. -/
def wrapping : Reckoning where
  advance p c :=
    if c = '\n' then
      some
        { offset := (p.offset + 1) % Number.wordBound
          line := (p.line + 1) % Number.halfWordBound
          column := 1 }
    else
      some
        { p with
          offset := (p.offset + c.utf8Size) % Number.wordBound
          column := (p.column + 1) % Number.halfWordBound }
  span p q := some ⟨p, q⟩

/-- Right as long as places stay in bounds and spans run forwards. -/
structure IsRight (r : Reckoning) : Prop where
  advance : ∀ p c, (p.advance c).InBounds → r.advance p c = some (p.advance c)
  span : ∀ p q, p.offset ≤ q.offset → r.span p q = some ⟨p, q⟩

theorem isRight_guarded : guarded.IsRight where
  advance _ _ h := if_pos h
  span _ _ h := if_pos h

theorem sumBelow?_eq {bound m n : Nat} (h : m + n < bound) : sumBelow? bound m n = some (m + n) :=
  if_pos h

theorem isRight_checked : checked.IsRight where
  advance p c h := by
    obtain ⟨hline, hcolumn, hoffset, hsum⟩ := h
    by_cases hc : c = '\n'
    · simp only [Position.advance, hc, if_true] at hline hcolumn hoffset hsum
      simp only [checked, Position.advance, hc, if_true]
      rw [sumBelow?_eq (by rw [Number.wordBound]; omega),
        sumBelow?_eq (by rw [Number.halfWordBound]; omega)]
      rfl
    · simp only [Position.advance, hc, if_false] at hline hcolumn hoffset hsum
      simp only [checked, Position.advance, hc, if_false]
      rw [sumBelow?_eq (by rw [Number.wordBound]; omega),
        sumBelow?_eq (by rw [Number.halfWordBound]; omega)]
      rfl
  span _ _ h := if_pos h

theorem isRight_wrapping : wrapping.IsRight where
  advance p c h := by
    obtain ⟨hline, hcolumn, hoffset, hsum⟩ := h
    by_cases hc : c = '\n'
    · simp only [Position.advance, hc, if_true] at hline hcolumn hoffset hsum
      simp only [wrapping, Position.advance, hc, if_true]
      rw [Nat.mod_eq_of_lt (by rw [Number.wordBound]; omega),
        Nat.mod_eq_of_lt (by rw [Number.halfWordBound]; omega)]
    · simp only [Position.advance, hc, if_false] at hline hcolumn hoffset hsum
      simp only [wrapping, Position.advance, hc, if_false]
      rw [Nat.mod_eq_of_lt (by rw [Number.wordBound]; omega),
        Nat.mod_eq_of_lt (by rw [Number.halfWordBound]; omega)]
  span _ _ _ := rfl

/-! ## The check comes out the same -/

namespace IsRight

variable {r : Reckoning} (hr : r.IsRight)
include hr

theorem advanceOver {v w : List Char} (h : Text.byteLength (v ++ w) ≤ 1048576) :
    r.advanceOver (.behind v) w = some (.behind (v ++ w)) := by
  induction w generalizing v with
  | nil => simp [Reckoning.advanceOver]
  | cons c w ih =>
      have hlen : Text.byteLength (v ++ [c]) ≤ 1048576 := by
        simp only [Text.byteLength_append, Text.byteLength_cons, Text.byteLength_nil] at h ⊢
        omega
      have hin := Position.inBounds_behind hlen
      rw [← Position.advance_behind] at hin
      have hrest : r.advanceOver (.behind (v ++ [c])) w = some (.behind (v ++ [c] ++ w)) :=
        ih (by simpa using h)
      rw [Reckoning.advanceOver] at hrest ⊢
      rw [List.foldlM_cons, hr.advance _ _ hin, Position.advance_behind]
      simpa using hrest

/-- Within a text that is not too long, going over a part of it is right. -/
theorem advanceOver_part {text v w rest : List Char} (htext : text = v ++ (w ++ rest))
    (hlen : Text.byteLength text ≤ 1048576) :
    r.advanceOver (.behind v) w = some (.behind (v ++ w)) := by
  refine hr.advanceOver ?_
  rw [htext, ← List.append_assoc, Text.byteLength_append] at hlen
  omega

theorem next {text done : List Char} {s : Scanner} (h : s.StandsBehind text done)
    (hlen : Text.byteLength text ≤ 1048576) : r.next s = some s.next := by
  obtain ⟨rest, position, blanks, finished⟩ := s
  obtain rfl : position = .behind done := h.position_eq
  cases finished with
  | true => rfl
  | false =>
      have hrest : rest.takeWhile Text.isBlank ++ rest.dropWhile Text.isBlank = rest :=
        List.takeWhile_append_dropWhile
      have htext : text = done ++ (rest.takeWhile Text.isBlank ++ rest.dropWhile Text.isBlank) := by
        rw [hrest]
        exact h.text_eq
      have hgap := hr.advanceOver_part htext hlen
      simp only [Reckoning.next, Scanner.next, Scanner.skipBlanks, Position.advanceOver_behind,
        hgap, Bool.false_eq_true, if_false, Option.bind_eq_bind, Option.bind_some]
      cases hd : rest.dropWhile Text.isBlank with
      | nil => rfl
      | cons c cs =>
          rw [hd, ← Scanner.cut_append c cs, ← List.append_assoc] at htext
          have hlexeme := hr.advanceOver_part htext hlen
          have hspan : r.span (.behind (done ++ rest.takeWhile Text.isBlank))
              (.behind (done ++ rest.takeWhile Text.isBlank ++ (Scanner.cut c cs).1)) = some
                ⟨.behind (done ++ rest.takeWhile Text.isBlank),
                  .behind (done ++ rest.takeWhile Text.isBlank ++ (Scanner.cut c cs).1)⟩ := by
            refine hr.span _ _ ?_
            simp [Position.behind]
          simp only [hlexeme, hspan, Option.bind_some]

theorem collect {text done : List Char} {s : Scanner} (h : s.StandsBehind text done)
    (hlen : Text.byteLength text ≤ 1048576) (n : Nat) (ts : List Token) :
    r.collect n s ts = some (Scanner.collect n s ts) := by
  induction n generalizing s done ts with
  | zero => rfl
  | succ n ih =>
      rw [Reckoning.collect, Scanner.collect, hr.next h hlen]
      obtain ⟨done, hnext⟩ := h.next
      cases hs : s.next with
      | mk t s' =>
          rw [hs] at hnext
          cases t with
          | none => rfl
          | some t => exact ih hnext (t :: ts)

theorem check (settings : Settings) (text : String) :
    r.check settings text = some (ExprCheck.check settings text) := by
  rw [Reckoning.check, ExprCheck.check]
  by_cases h : Text.byteLength text.toList ≤ settings.scanning.inputLimit
  · have hlen : Text.byteLength text.toList ≤ 1048576 := Nat.le_trans h (Nat.min_le_right ..)
    have hrun : r.run (.ofText text) = some (Scanner.ofText text).run :=
      hr.collect (Scanner.standsBehind_ofText text) hlen _ _
    simp only [h, if_true, hrun]
    rfl
  · simp only [h, if_false]

end IsRight
end Reckoning

/-! ## Spans of tokens and of faults -/

namespace Token.StandsBehind

variable {text pre : List Char} {before : List Token} {t : Token}

theorem length?_eq (h : t.StandsBehind text pre before) :
    t.span.length? = some (Text.byteLength t.letters) := by
  simp [h.span_eq, Span.length?, Position.behind]

theorem inBounds (h : t.StandsBehind text pre before) (hlen : Text.byteLength text ≤ 1048576) :
    t.span.start.InBounds ∧ t.span.stop.InBounds := by
  obtain ⟨post, htext⟩ := h.text_eq
  rw [htext, Text.byteLength_append] at hlen
  have hstop := Position.inBounds_behind (Nat.le_of_add_right_le hlen)
  rw [Text.byteLength_append, Nat.add_assoc] at hlen
  have hstart := Position.inBounds_behind (Nat.le_of_add_right_le hlen)
  rw [h.span_eq]
  exact ⟨hstart, hstop⟩

end Token.StandsBehind

/-- A check names no place but in a fault of the scan of a text that is not too long. -/
theorem exists_mem_scan_of_check {settings : Settings} {text : String} {r : Rejection} {s : Span}
    (h : (check settings text).outcome = .error r) (hs : r.span? = some s) :
    Text.byteLength text.toList ≤ settings.scanning.inputLimit ∧ ∃ t ∈ scan text, s = t.span := by
  by_cases hlen : Text.byteLength text.toList ≤ settings.scanning.inputLimit
  · have hverdict := check_verdict hlen
    rw [h] at hverdict
    cases hrecognize : Grammar.recognize settings.grammar (scan text) with
    | ok _ =>
        rw [hrecognize] at hverdict
        cases hverdict
    | error f =>
        rw [hrecognize] at hverdict
        obtain rfl : r = .fault f := Except.error.inj hverdict
        obtain rfl : f.span = s := Option.some.inj hs
        exact ⟨hlen, Grammar.exists_mem_scan_of_fault hrecognize⟩
  · rw [(check_of_tooLarge (Nat.not_le.mp hlen)).1] at h
    cases h
    cases hs

/-- Whatever the text and the settings, a check in which every place is guarded and
every span has to run forwards comes out as without guards. So does a check in
machine words, whether sums that do not fit are refused or wrap around. A token's
span is as long as the token, and a report's span stands in bounds. -/
theorem check_stays_in_bounds (settings : Settings) (text : String) (moment : Moment) :
    Position.start.InBounds ∧
    Reckoning.guarded.check settings text = some (check settings text) ∧
    Reckoning.checked.check settings text = some (check settings text) ∧
    Reckoning.wrapping.check settings text = some (check settings text) ∧
    (∀ t ∈ scan text, t.span.length? = some (Text.byteLength t.letters)) ∧
    ∀ d ∈ (Report.ofPass moment text (check settings text)).error, ∀ s ∈ d.span,
      s.start.InBounds ∧ s.stop.InBounds ∧ s.start.offset ≤ s.stop.offset := by
  refine ⟨by decide, Reckoning.isRight_guarded.check .., Reckoning.isRight_checked.check ..,
    Reckoning.isRight_wrapping.check .., fun t ht => ?_, fun d hd s hs => ?_⟩
  · obtain ⟨pre, before, h⟩ := exists_standsBehind_of_mem ht
    exact h.length?_eq
  · cases houtcome : (check settings text).outcome with
    | ok a =>
        simp [Report.ofPass, houtcome] at hd
    | error r =>
        obtain rfl : Diagnosis.ofRejection r = d := by
          simpa [Report.ofPass, houtcome] using hd
        obtain ⟨hlen, t, ht, rfl⟩ := exists_mem_scan_of_check houtcome hs
        obtain ⟨pre, before, h⟩ := exists_standsBehind_of_mem ht
        obtain ⟨hstart, hstop⟩ := h.inBounds (Nat.le_trans hlen (Nat.min_le_right ..))
        refine ⟨hstart, hstop, ?_⟩
        simp [h.span_eq, Position.behind]

end ExprCheck
