import ExprCheck.Proofs.Grammar.FaultCodes
import ExprCheck.Proofs.Text.Lines
import ExprCheck.Proofs.Token.Places

/-!
Excerpts of a text that has been scanned. Lines are counted twice, by the scanner on its way and
in the table of offsets that is made of the source for an excerpt. Both agree on the line of a
token, and the token's columns cut its lexeme out of that line, since what is left out at the end
of a line is blank.
-/

namespace ExprCheck

/-! Lines by their numbers -/

namespace Text

theorem rdropWhile_append_cons {p : Char → Bool} {c : Char} (hc : p c = false)
    (v w : List Char) : (v ++ c :: w).rdropWhile p = v ++ c :: w.rdropWhile p := by
  induction w using List.reverseRecOn with
  | nil => rw [List.rdropWhile_concat_neg _ _ _ (by simp [hc]), List.rdropWhile_nil]
  | append_singleton w d ih =>
      rw [← List.cons_append, ← List.append_assoc]
      by_cases hd : p d = true
      · rw [List.rdropWhile_concat_pos _ _ _ hd, List.rdropWhile_concat_pos _ _ _ hd, ih]
      · rw [List.rdropWhile_concat_neg _ _ _ hd, List.rdropWhile_concat_neg _ _ _ hd,
          List.append_assoc, List.cons_append]

/-- A piece has no newline that could be left out at its end. -/
theorem trimEnd_of_not_mem {piece : List Char} (h : '\n' ∉ piece) :
    trimEnd (fun c => c == '\n' || c == '\r') piece = piece.rdropWhile (· == '\r') := by
  change piece.rdropWhile _ = _
  induction piece using List.reverseRecOn with
  | nil => rfl
  | append_singleton piece c ih =>
      obtain ⟨hpiece, hc⟩ : '\n' ∉ piece ∧ '\n' ≠ c := by simpa using h
      have hnewline : (c == '\n') = false := beq_false_of_ne hc.symm
      rw [List.rdropWhile_concat, List.rdropWhile_concat, hnewline, Bool.false_or, ih hpiece]

/-- Behind `pre` stands a piece that begins as `pre` ends and goes on to the next newline. -/
theorem getElem?_pieces_behind (pre rest : List Char) :
    (pieces (pre ++ rest))[pre.count '\n']? =
      some (Position.lastLine pre ++ rest.takeWhile (· ≠ '\n')) := by
  induction pre using lines_induction with
  | last line h =>
      have hkept : ∀ c ∈ line, decide (c ≠ '\n') = true := by
        intro c hc
        simpa using ne_of_mem_of_not_mem hc h
      rw [List.count_eq_zero.mpr h, getElem?_zero_pieces, List.takeWhile_append_of_pos hkept,
        Position.lastLine_of_not_mem h]
  | more line pre h ih =>
      rw [List.append_assoc, List.cons_append, pieces_append_newline h, List.count_append,
        List.count_eq_zero.mpr h, List.count_cons_self, Nat.zero_add, List.getElem?_cons_succ, ih,
        Position.lastLine_append_newline]

end Text

/-! Tables of the offsets at which lines start -/

namespace LineTable

/-- The offsets behind the newlines of a text that stands at `offset`. -/
def behindNewlines (offset : Nat) : List Char → List Nat
  | [] => []
  | c :: cs =>
    (if c = '\n' then [offset + 1] else []) ++ behindNewlines (offset + c.utf8Size) cs

theorem toList_collect (offset : Nat) (starts : Array Nat) (cs : List Char) :
    (collect offset starts cs).toList = starts.toList ++ behindNewlines offset cs := by
  induction cs generalizing offset starts with
  | nil => exact (List.append_nil _).symm
  | cons c cs ih =>
      rw [collect, behindNewlines, ih, ← List.append_assoc]
      by_cases hc : c = '\n' <;> simp [hc]

theorem behindNewlines_append {line : List Char} (h : '\n' ∉ line) (offset : Nat)
    (cs : List Char) :
    behindNewlines offset (line ++ cs) =
      behindNewlines (offset + Text.byteLength line) cs := by
  induction line generalizing offset with
  | nil => rfl
  | cons c line ih =>
      obtain ⟨hc, hline⟩ := not_or.mp (mt List.mem_cons.mpr h)
      rw [List.cons_append, behindNewlines, if_neg (Ne.symm hc), List.nil_append, ih hline,
        Text.byteLength_cons, Nat.add_assoc]

theorem behindNewlines_line {line : List Char} (h : '\n' ∉ line) (done rest : List Char) :
    behindNewlines (Text.byteLength done) (line ++ '\n' :: rest) =
      Text.byteLength (done ++ line ++ ['\n']) ::
        behindNewlines (Text.byteLength (done ++ line ++ ['\n'])) rest := by
  have hend : Text.byteLength (done ++ line ++ ['\n']) =
      Text.byteLength done + Text.byteLength line + 1 := by
    rw [Text.byteLength_append, Text.byteLength_append]
    rfl
  rw [behindNewlines_append h, hend]
  rfl

/-- Of a source of which `done` stands before `cs`, the table cuts out the pieces of `cs`. -/
theorem slice?_behindNewlines (done cs : List Char) (n : Nat) :
    let starts := Text.byteLength done :: behindNewlines (Text.byteLength done) cs
    (starts[n]?.bind fun first =>
      Text.slice? first ((starts[n + 1]?.map (· - 1)).getD (Text.byteLength (done ++ cs)))
        (done ++ cs)) = (Text.pieces cs)[n]? := by
  induction cs using Text.lines_induction generalizing done n with
  | last line h =>
      have hnone : behindNewlines (Text.byteLength done) line = [] := by
        have hline := behindNewlines_append h (Text.byteLength done) []
        rwa [List.append_nil] at hline
      have hslice := Text.slice?_append done line []
      rw [List.append_nil] at hslice
      rw [hnone, Text.pieces_of_not_mem h]
      cases n with
      | zero => exact hslice
      | succ n => rfl
  | more line rest h ih =>
      have hsource : done ++ (line ++ '\n' :: rest) = done ++ line ++ ['\n'] ++ rest := by simp
      rw [behindNewlines_line h, Text.pieces_append_newline h]
      cases n with
      | zero =>
          have hslice := Text.slice?_append done line ('\n' :: rest)
          rw [List.append_assoc] at hslice
          have hlast : Text.byteLength (done ++ line ++ ['\n']) - 1 =
              Text.byteLength (done ++ line) := by
            rw [Text.byteLength_append, Text.byteLength_cons, Text.byteLength_nil]
            rfl
          simp only [List.getElem?_cons_zero, List.getElem?_cons_succ, Option.bind_some,
            Option.map_some, Option.getD_some, hlast]
          exact hslice
      | succ n =>
          rw [hsource]
          exact ih (done ++ line ++ ['\n']) n

/-- The table has the start of the line in which `pre` ends. -/
theorem exists_start_behind (done pre rest : List Char) :
    ∃ before, pre = before ++ Position.lastLine pre ∧
      (Text.byteLength done :: behindNewlines (Text.byteLength done)
        (pre ++ rest))[pre.count '\n']? = some (Text.byteLength (done ++ before)) := by
  induction pre using Text.lines_induction generalizing done with
  | last line h =>
      refine ⟨[], by rw [Position.lastLine_of_not_mem h, List.nil_append], ?_⟩
      rw [List.count_eq_zero.mpr h, List.append_nil]
      rfl
  | more line pre h ih =>
      obtain ⟨before, hpre, hstart⟩ := ih (done ++ line ++ ['\n'])
      refine ⟨line ++ '\n' :: before, ?_, ?_⟩
      · rw [Position.lastLine_append_newline, List.append_assoc, List.cons_append, ← hpre]
      · rw [List.append_assoc, List.cons_append, behindNewlines_line h, List.count_append,
          List.count_eq_zero.mpr h, List.count_cons_self, Nat.zero_add, List.getElem?_cons_succ,
          hstart]
        simp only [List.append_assoc, List.singleton_append]

theorem toList_starts (source : List Char) :
    (ofSource source).starts.toList = 0 :: behindNewlines 0 source :=
  toList_collect 0 #[0] source

/-- Looking up a line in the table gives the piece with its number. -/
theorem stretch?_ofSource (source : List Char) (n : Nat) :
    (ofSource source).stretch? n = (Text.pieces source)[n]? := by
  have hslice := slice?_behindNewlines [] source n
  rw [Text.byteLength_nil, ← toList_starts] at hslice
  simp only [Array.getElem?_toList] at hslice
  exact hslice

/-- From the start that the table has for its line up to a place stand as many characters as
the place's column says. -/
theorem exists_slice?_behind (pre rest : List Char) :
    ∃ first, (ofSource (pre ++ rest)).starts[(Position.behind pre).line - 1]? = some first ∧
      Text.slice? first (Position.behind pre).offset (pre ++ rest) =
        some (Position.lastLine pre) := by
  obtain ⟨before, hpre, hstart⟩ := exists_start_behind [] pre rest
  rw [Text.byteLength_nil, ← toList_starts, Array.getElem?_toList, List.nil_append] at hstart
  refine ⟨_, by rwa [Position.behind, Nat.add_sub_cancel_left], ?_⟩
  have hslice := Text.slice?_append before (Position.lastLine pre) rest
  rwa [← hpre] at hslice

end LineTable

namespace Excerpt

theorem line?_eq_piece (source : List Char) (n : Nat) :
    line? source (n + 1) =
      (Text.pieces source)[n]?.map (Text.trimEnd (fun c => c == '\n' || c == '\r')) := by
  rw [line?, LineTable.line?, LineTable.stretch?_ofSource]

theorem line?_succ (source : List Char) (n : Nat) :
    line? source (n + 1) = (source.splitOn '\n')[n]?.map (List.rdropWhile (· == '\r')) := by
  rw [line?_eq_piece, ← Text.pieces_eq_splitOn]
  refine Option.map_congr fun piece hpiece => ?_
  exact Text.trimEnd_of_not_mem (Text.not_mem_of_mem_pieces (List.mem_of_getElem? hpiece))

theorem isSome_line?_iff (source : List Char) (n : Nat) :
    (line? source n).isSome = true ↔ 1 ≤ n ∧ n ≤ 1 + source.count '\n' := by
  cases n with
  | zero => simp [line?, LineTable.line?]
  | succ n =>
      rw [line?_eq_piece, Option.isSome_map, ← Text.length_pieces, isSome_getElem?]
      omega

theorem line?_behind (pre rest : List Char) :
    line? (pre ++ rest) (Position.behind pre).line =
      some ((Position.lastLine pre ++ rest.takeWhile (· ≠ '\n')).rdropWhile (· == '\r')) := by
  rw [Position.behind, Nat.add_comm, line?_succ, ← Text.pieces_eq_splitOn,
    Text.getElem?_pieces_behind, Option.map_some]

/-- An excerpt with a line and, under it, so many blanks and so many carets. -/
def showing (line : List Char) (blanks carets : Nat) (place : Position) (message : String) :
    String :=
  let number := toString place.line
  let gutter := String.ofList (List.replicate number.length ' ')
  let under := List.replicate blanks ' ' ++ List.replicate carets '^'
  s!"error: {message}\n  --> {place.text}\n"
    ++ s!"{gutter} |\n{number} | {String.ofList line}\n"
    ++ s!"{gutter} | {String.ofList under}\n"

theorem render_eq_showing {source line : List Char} {span : Span}
    (h : line? source span.start.line = some line) (message : String) :
    render source span message =
      showing line (span.start.column - 1) (caretCount span) span.start message := by
  rw [render, h]
  rfl

end Excerpt

/-! Lines of tokens -/

namespace Token.StandsBehind

variable {text pre : List Char} {before : List Token} {t : Token}

theorem newline_not_mem (h : t.StandsBehind text pre before) : '\n' ∉ t.letters := by
  intro hn
  have hb := h.letters_solid '\n' hn
  revert hb
  decide

theorem start_column (h : t.StandsBehind text pre before) :
    t.span.start.column = 1 + (Position.lastLine pre).length := by
  rw [h.span_eq, Position.behind]

theorem stop_column (h : t.StandsBehind text pre before) :
    t.span.stop.column = t.span.start.column + t.letters.length := by
  have hstop : t.span.stop.column = 1 + (Position.lastLine (pre ++ t.letters)).length := by
    rw [h.span_eq]
    rfl
  rw [hstop, h.start_column, Position.lastLine_append_of_not_mem h.newline_not_mem,
    List.length_append, Nat.add_assoc]

/-- The table has a start for a token's line, as far before the token as its column says. -/
theorem exists_start (h : t.StandsBehind text pre before) :
    ∃ first before, (LineTable.ofSource text).starts[t.span.start.line - 1]? = some first ∧
      Text.slice? first t.span.start.offset text = some before ∧
      before.length = t.span.start.column - 1 := by
  have hlength : (Position.lastLine pre).length = t.span.start.column - 1 := by
    rw [h.start_column, Nat.add_sub_cancel_left]
  obtain ⟨post, rfl⟩ := h.text_eq
  obtain ⟨first, hfirst, hslice⟩ := LineTable.exists_slice?_behind pre (t.letters ++ post)
  rw [← List.append_assoc] at hfirst hslice
  rw [h.span_eq] at hlength ⊢
  exact ⟨first, _, hfirst, hslice, hlength⟩

/-- Of the line of a lexeme only what stands behind the lexeme can be left out. -/
theorem exists_line (h : t.StandsBehind text pre before) :
    ∃ line, Excerpt.line? text t.span.start.line = some line ∧
      (t.isEnd = false → ∃ rest, line = Position.lastLine pre ++ t.letters ++ rest) := by
  obtain ⟨post, rfl⟩ := h.text_eq
  have hline := Excerpt.line?_behind pre (t.letters ++ post)
  rw [← List.append_assoc] at hline
  rw [h.span_eq]
  refine ⟨_, hline, fun ht => ?_⟩
  have hkept : ∀ c ∈ t.letters, decide (c ≠ '\n') = true := by
    intro c hc
    simpa using ne_of_mem_of_not_mem hc h.newline_not_mem
  rw [List.takeWhile_append_of_pos hkept]
  -- The last character of a lexeme is no carriage return.
  obtain hnil | ⟨v, c, hletters⟩ := List.eq_nil_or_concat t.letters
  · exact absurd hnil (h.letters_ne_nil ht)
  · have hc : (c == '\r') = false := by
      have hblank := h.letters_solid c (by simp [hletters])
      refine beq_false_of_ne fun hreturn => ?_
      rw [hreturn] at hblank
      revert hblank
      decide
    have hdrop := Text.rdropWhile_append_cons (p := (· == '\r')) hc (Position.lastLine pre ++ v)
      (post.takeWhile (· ≠ '\n'))
    exact ⟨(post.takeWhile (· ≠ '\n')).rdropWhile (· == '\r'), by simpa [hletters] using hdrop⟩

/-- The columns of a lexeme cut it out of its line. -/
theorem extract_eq (h : t.StandsBehind text pre before) (rest : List Char) :
    (Position.lastLine pre ++ t.letters ++ rest).extract (t.span.start.column - 1)
      (t.span.stop.column - 1) = t.letters := by
  have hstart : t.span.start.column - 1 = (Position.lastLine pre).length := by
    rw [h.start_column, Nat.add_sub_cancel_left]
  have hwidth : t.span.stop.column - 1 - (t.span.start.column - 1) = t.letters.length := by
    rw [h.stop_column, h.start_column]
    omega
  rw [List.extract_eq_take_drop, hwidth, hstart, List.append_assoc, List.drop_left, List.take_left]

theorem caretCount_eq (h : t.StandsBehind text pre before) :
    Excerpt.caretCount t.span = max t.letters.length 1 := by
  rw [Excerpt.caretCount, if_pos h.line_eq, h.stop_column, Nat.add_sub_cancel_left]

end Token.StandsBehind

namespace Grammar

theorem Fault.Blames.span_eq {f : Fault} {t : Token} (h : f.Blames t) : f.span = t.span := by
  cases f with
  | unexpected => exact h.2.2
  | nestingTooDeep => exact h.2

/-- A fault of a scan stands where one of the tokens does. -/
theorem exists_mem_scan_of_fault {settings : GrammarSettings} {text : String} {f : Fault}
    (h : recognize settings (scan text) = .error f) : ∃ t ∈ scan text, f.span = t.span := by
  obtain ⟨p, q, t, rest, hscan, -, hrefuses, -, -⟩ := Progress.exists_refused_of_scan h
  exact ⟨t, by simp [hscan], hrefuses.blames.span_eq⟩

end Grammar

/-- A token's excerpt shows its line. Under the lexeme stand as many carets as it has characters,
and one caret under the place behind the text. So does the excerpt of any fault in a scan, which
stands where a token does. The line that the scanner has counted starts where the table says. What
is cut out by the table is each piece between newlines, without the carriage returns at its end,
and nothing else. -/
theorem excerpt_shows_token (text : String) (t : Token) (h : t ∈ scan text)
    (hlen : Text.byteLength text.toList < UInt32.size - 1) :
    let source := text.toList
    let blanks :=
      if t.isEnd then (Position.lastLine source).length else t.span.start.column - 1
    let carets := if t.isEnd then 1 else t.letters.length
    (∃ line, Excerpt.line? source t.span.start.line = some line ∧
      (t.isEnd = false →
        line.extract (t.span.start.column - 1) (t.span.stop.column - 1) = t.letters) ∧
      (∀ message, Excerpt.render source t.span message =
        Excerpt.showing line blanks carets t.span.start message) ∧
      ∀ f : Grammar.Fault, f.span = t.span →
        f.render text = Excerpt.showing line blanks carets t.span.start
          s!"[{f.code.id}] {f.code.entry.description}" ++ s!"  = {f.message}\n") ∧
    (∃ first before, (LineTable.ofSource source).starts[t.span.start.line - 1]? = some first ∧
      Text.slice? first t.span.start.offset source = some before ∧
      before.length = t.span.start.column - 1) ∧
    (∀ settings f, Grammar.recognize settings (scan text) = .error f →
      ∃ u ∈ scan text, f.span = u.span) ∧
    (∀ p ∈ [t.span.start, t.span.stop], p.line < UInt32.size ∧ p.column < UInt32.size) ∧
    (∀ n, (Excerpt.line? source n).isSome = true ↔ 1 ≤ n ∧ n ≤ 1 + source.count '\n') ∧
    ∀ n, Excerpt.line? source (n + 1) =
      (source.splitOn '\n')[n]?.map (List.rdropWhile (· == '\r')) := by
  intro source blanks carets
  obtain ⟨before, after, hscan⟩ := List.append_of_mem h
  obtain ⟨pre, ht⟩ : ∃ pre, t.StandsBehind source pre before :=
    exists_standsBehind (by simpa [source] using hscan)
  have hfits : Text.byteLength source + 1 < UInt32.size := by
    change Text.byteLength text.toList + 1 < UInt32.size
    omega
  refine ⟨?_, ht.exists_start, fun _ _ => Grammar.exists_mem_scan_of_fault, ht.fits hfits,
    Excerpt.isSome_line?_iff source, Excerpt.line?_succ source⟩
  obtain ⟨line, hline, hrest⟩ := ht.exists_line
  have hmarks : t.span.start.column - 1 = blanks ∧ Excerpt.caretCount t.span = carets := by
    rw [ht.caretCount_eq]
    cases he : t.isEnd with
    | true =>
        obtain ⟨rfl, hletters⟩ := ht.at_end he
        simp [blanks, carets, he, hletters, ht.start_column]
    | false =>
        have hpos := List.length_pos_iff.mpr (ht.letters_ne_nil he)
        simp [blanks, carets, he]
        omega
  have hrender (message : String) := Excerpt.render_eq_showing hline message
  rw [hmarks.1, hmarks.2] at hrender
  refine ⟨line, hline, fun he => ?_, hrender, fun f hf => ?_⟩
  · obtain ⟨rest, rfl⟩ := hrest he
    exact ht.extract_eq rest
  · rw [Grammar.Fault.render, hf, hrender]

/-- A digit of two bytes on the second line, in front of a carriage return. -/
theorem excerpt_shows_digit_on_second_line :
    let text := "7\r\n* \u0663\r"
    let t : Token := ⟨.integer, some "\u0663", ⟨⟨5, 2, 3⟩, ⟨7, 2, 4⟩⟩⟩
    t ∈ scan text ∧ Text.byteLength text.toList < UInt32.size - 1 ∧
      ∃ line, Excerpt.line? text.toList 2 = some line ∧ line.extract 2 3 = t.letters ∧
        ∀ message, Excerpt.render text.toList t.span message =
          Excerpt.showing line 2 1 ⟨5, 2, 3⟩ message := by
  intro text t
  have h : t ∈ scan text := by decide
  have hlen : Text.byteLength text.toList < UInt32.size - 1 := by decide
  obtain ⟨line, hline, hcut, hrender, -⟩ := (excerpt_shows_token text t h hlen).1
  have hmarks : t.isEnd = false ∧ t.letters.length = 1 := by decide
  rw [hmarks.1, hmarks.2] at hrender
  exact ⟨h, hlen, line, hline, hcut hmarks.1, hrender⟩

end ExprCheck
