import ExprCheck.Proofs.Check.Reports
import ExprCheck.Proofs.Grammar.Notices
import ExprCheck.Proofs.Log.Desk
import ExprCheck.Proofs.Token.Reading

/-!
The events of a check. But for debugging and timing they are the same whatever is traced,
counted or wanted: warnings about tokens in their order, the end of the scan, and what has
come of the tokens.
-/

namespace ExprCheck

/-- How bad an event is, under which code and where. -/
def Event.headline (e : Event) : Level × String × Option Span :=
  (e.level, e.code, e.span)

/-- The warnings that a token calls for. -/
def Token.warnings (t : Token) : List (Level × String × Option Span) :=
  (if t.category = .invalid then [(.warning, "E020", some t.span)] else []) ++
    (if t.category = .integer ∧ 64 < Text.byteLength t.letters then
      [(.warning, "E021", some t.span)] else [])

namespace Notice

/-- Whether a notice is neither for debugging nor about time. -/
def isPlain : Notice → Bool
  | .timing _ => false
  | n => n.level != .debug

/-- What is said about a token without tracing. -/
def ofToken (t : Token) : List Notice :=
  (if t.category = .invalid then [.invalidCharacter t] else []) ++
    (if t.isLong then [.longInteger t] else [])

theorem isPlain_of_debug {n : Notice} (h : n.level = .debug) : n.isPlain = false := by
  cases n <;> first | rfl | cases h

theorem headlines_ofToken (moment : Moment) (t : Token) :
    (ofToken t).map (fun n => (n.event moment).headline) = t.warnings := by
  have hlong : t.isLong = true ↔ t.category = .integer ∧ 64 < Text.byteLength t.letters := by
    rw [Token.isLong, Bool.and_eq_true, beq_iff_eq, decide_eq_true_iff, t.width_eq]
    rfl
  rw [ofToken, Token.warnings, List.map_append]
  congr 1
  · split <;> rfl
  · simp only [hlong]
    split <;> rfl

end Notice

section Desk

variable {d : Desk} {moment : Moment}

theorem Desk.passes_and_not_debug (htiming : d.preferences.timing = false) (n : Notice) :
    (decide (n.level ≠ .debug) && d.passes n) = n.isPlain := by
  cases n with
  | timing tokens => simp [Desk.passes, Notice.isPlain, htiming]
  | _ => simp [Desk.passes, Notice.isPlain, Notice.level]

theorem Desk.plain_events (hservice : d.service.isSome = true)
    (htiming : d.preferences.timing = false) (ns : List Notice) :
    (d.postAll moment ns).1.filter (·.level ≠ .debug) =
      (ns.filter Notice.isPlain).map (·.event moment) := by
  rw [Desk.postAll_fst, if_pos hservice, List.filter_map, List.filter_filter]
  congr 1
  refine List.filter_congr fun n _ => ?_
  rw [← Desk.passes_and_not_debug htiming, Function.comp, n.level_event]

end Desk

section Notices

variable {settings : Settings} {text : String}

theorem Analyzer.plain_tokenNotices (settings : ScanSettings) (t : Token) :
    (tokenNotices settings t).filter Notice.isPlain = Notice.ofToken t := by
  have htrace : (if settings.traceTokens then [Notice.scanned t] else []).filter Notice.isPlain =
      [] := by
    split <;> rfl
  have hinvalid : (if t.category = .invalid then [Notice.invalidCharacter t] else []).filter
      Notice.isPlain = if t.category = .invalid then [.invalidCharacter t] else [] := by
    split <;> rfl
  have hlong : (if t.isLong then [Notice.longInteger t] else []).filter Notice.isPlain =
      if t.isLong then [.longInteger t] else [] := by
    split <;> rfl
  rw [tokenNotices, List.filter_append, List.filter_append, htrace, hinvalid, hlong,
    List.nil_append, Notice.ofToken]

theorem Analyzer.plain_scan (a : Analyzer) (text : String) :
    (a.scan text).1.2.filter Notice.isPlain =
      (ExprCheck.scan text).flatMap Notice.ofToken ++ [.scanComplete (a.scan text).2.tally] := by
  have hnotices : (a.scan text).1.2 =
      .scanning (Text.byteLength text.toList) a.settings.detailed ::
        (ExprCheck.scan text).flatMap (tokenNotices a.settings) ++
        [.scanComplete (a.scan text).2.tally, .streamCreated (ExprCheck.scan text).length] := rfl
  have htokens : ((ExprCheck.scan text).flatMap (tokenNotices a.settings)).filter Notice.isPlain =
      (ExprCheck.scan text).flatMap Notice.ofToken := by
    rw [List.filter_flatMap]
    exact List.flatMap_congr fun t _ => plain_tokenNotices a.settings t
  rw [hnotices, List.cons_append, List.filter_cons_of_neg (by simp [Notice.isPlain, Notice.level]),
    List.filter_append, htokens]
  rfl

/-- The notices of a check that passes the length, stage by stage. -/
theorem check_notices (h : Text.byteLength text.toList ≤ settings.scanning.inputLimit) :
    let length := Text.byteLength text.toList
    let count := (scan text).length
    let (result, r) := (Grammar.Recognizer.ofTokens settings.grammar (scan text)).recognize
    (check settings text).notices =
      .checking length :: (Analyzer.scan { settings := settings.scanning } text).1.2 ++
        r.notices.reverse ++
      match result with
      | .ok _ => [.accepted length count r.maxDepthSeen, .timing count]
      | .error _ => [] := by
  dsimp only
  simp only [check, h, ite_true, Pass.ofText, Analyzer.scan_tokens]
  cases (Grammar.Recognizer.ofTokens settings.grammar (scan text)).recognize.1 <;> simp

theorem any_isEnd_scan (text : String) : (scan text).any Token.isEnd = true := by
  obtain ⟨w, e, hscan, _, he⟩ := exists_scan_eq_concat text
  simp [hscan, he]

theorem plain_check_notices (h : Text.byteLength text.toList ≤ settings.scanning.inputLimit) :
    let length := Text.byteLength text.toList
    let count := (scan text).length
    let tally := (Analyzer.scan { settings := settings.scanning } text).2.tally
    let (result, r) := (Grammar.Recognizer.ofTokens settings.grammar (scan text)).recognize
    (check settings text).notices.filter Notice.isPlain =
      (scan text).flatMap Notice.ofToken ++ .scanComplete tally ::
        Grammar.Recognizer.conclusion result r ::
        match result with
        | .ok _ => [.accepted length count r.maxDepthSeen]
        | .error _ => [] := by
  have hnotices := check_notices h
  have hsaid := Grammar.Recognizer.recognize_notices settings.grammar (any_isEnd_scan text)
  dsimp only at hnotices hsaid ⊢
  generalize (Grammar.Recognizer.ofTokens settings.grammar (scan text)).recognize = p at *
  obtain ⟨result, r⟩ := p
  obtain ⟨traces, hr, htraces⟩ := hsaid
  have hquiet : traces.reverse.filter Notice.isPlain = [] := by
    rw [List.filter_eq_nil_iff]
    intro n hn
    simp [Notice.isPlain_of_debug (htraces n (List.mem_reverse.mp hn))]
  have hchecking : (Notice.checking (Text.byteLength text.toList)).isPlain = false := rfl
  rw [hnotices, hr, List.cons_append, List.cons_append,
    List.filter_cons_of_neg (by simp [hchecking]), List.filter_append, List.filter_append,
    Analyzer.plain_scan, List.reverse_cons, List.filter_append, hquiet, List.nil_append,
    List.append_assoc, List.append_assoc]
  cases result <;> rfl

theorem plain_check_of_tooLarge
    (h : settings.scanning.inputLimit < Text.byteLength text.toList) :
    (check settings text).notices.filter Notice.isPlain =
      [.inputTooLarge (Text.byteLength text.toList) settings.scanning.inputLimit] := by
  simp only [check, Nat.not_le.mpr h, ite_false]
  rfl

/-- A text that is not too long comes to what its tokens come to. -/
theorem check_cases (h : Text.byteLength text.toList ≤ settings.scanning.inputLimit) :
    let result := (Grammar.Recognizer.ofTokens settings.grammar (scan text)).recognize.1
    (∃ a, (check settings text).outcome = .ok a ∧ result = .ok ()) ∨
      ∃ f, (check settings text).outcome = .error (.fault f) ∧ result = .error f := by
  intro result
  have hverdict : (check settings text).outcome.map (fun _ => ()) = result.mapError .fault :=
    check_verdict h
  cases houtcome : (check settings text).outcome with
  | ok a =>
      rw [houtcome] at hverdict
      cases hresult : result with
      | ok _ => exact .inl ⟨a, rfl, rfl⟩
      | error f =>
          rw [hresult] at hverdict
          cases hverdict
  | error e =>
      rw [houtcome] at hverdict
      cases hresult : result with
      | ok _ =>
          rw [hresult] at hverdict
          cases hverdict
      | error f =>
          rw [hresult] at hverdict
          obtain rfl : e = .fault f := Except.error.inj hverdict
          exact .inr ⟨f, rfl, rfl⟩

/-- What is told of a check, by level, code and place. -/
theorem headlines_check (settings : Settings) (text : String) (moment : Moment) :
    ((check settings text).notices.filter Notice.isPlain).map
        (fun n => (n.event moment).headline) =
      if settings.scanning.inputLimit < Text.byteLength text.toList then
        [(.error, "E005", none)]
      else
        (scan text).flatMap Token.warnings ++ (.info, "I010", none) ::
          match (check settings text).outcome with
          | .ok _ => [(.info, "I020", none), (.info, "I030", none)]
          | .error r => [(.error, r.code.id, r.span?)] := by
  by_cases h : settings.scanning.inputLimit < Text.byteLength text.toList
  · rw [if_pos h, plain_check_of_tooLarge h]
    rfl
  · have hplain := plain_check_notices (Nat.not_lt.mp h)
    have htokens : ((scan text).flatMap Notice.ofToken).map (fun n => (n.event moment).headline) =
        (scan text).flatMap Token.warnings := by
      rw [List.map_flatMap]
      exact List.flatMap_congr fun t _ => Notice.headlines_ofToken moment t
    dsimp only at hplain
    rw [if_neg h, hplain, List.map_append, htokens]
    obtain ⟨a, houtcome, hresult⟩ | ⟨f, houtcome, hresult⟩ := check_cases (Nat.not_lt.mp h)
    · rw [houtcome, hresult]
      rfl
    · rw [houtcome, hresult]
      rfl

/-- The warnings of a check are those about tokens. -/
theorem warnings_check (settings : Settings) (text : String) :
    ((check settings text).notices.filter Notice.isPlain).filter (·.level = .warning) =
      if settings.scanning.inputLimit < Text.byteLength text.toList then []
      else (scan text).flatMap Notice.ofToken := by
  by_cases h : settings.scanning.inputLimit < Text.byteLength text.toList
  · rw [if_pos h, plain_check_of_tooLarge h]
    rfl
  · have hplain := plain_check_notices (Nat.not_lt.mp h)
    have htokens : ((scan text).flatMap Notice.ofToken).filter (·.level = .warning) =
        (scan text).flatMap Notice.ofToken := by
      rw [List.filter_eq_self]
      intro n hn
      obtain ⟨t, _, hn⟩ := List.mem_flatMap.mp hn
      simp only [Notice.ofToken, List.mem_append, List.mem_ite_nil_right, List.mem_singleton] at hn
      obtain ⟨_, rfl⟩ | ⟨_, rfl⟩ := hn <;> rfl
    dsimp only at hplain
    rw [if_neg h, hplain, List.filter_append, htokens]
    obtain ⟨_, _, hresult⟩ | ⟨_, _, hresult⟩ := check_cases (Nat.not_lt.mp h)
    · rw [hresult]
      exact List.append_nil _
    · rw [hresult]
      exact List.append_nil _

/-- The last that is told of a text at fault is the fault. -/
theorem getLast?_check {f : Grammar.Fault}
    (h : (check settings text).outcome = .error (.fault f)) :
    ((check settings text).notices.filter Notice.isPlain).getLast? =
      some (.stopped f
        (Grammar.Recognizer.ofTokens settings.grammar (scan text)).recognize.2.consumed) := by
  have hshort : Text.byteLength text.toList ≤ settings.scanning.inputLimit := by
    by_contra hlong
    rw [(check_of_tooLarge (Nat.not_le.mp hlong)).1] at h
    cases h
  have hplain := plain_check_notices hshort
  dsimp only at hplain
  obtain ⟨a, ha, _⟩ | ⟨g, hg, hresult⟩ := check_cases hshort
  · rw [ha] at h
    cases h
  · obtain rfl : g = f := by
      rw [hg] at h
      exact Rejection.fault.inj (Except.error.inj h)
    rw [hplain, hresult]
    simp [Grammar.Recognizer.conclusion]

end Notices

theorem Notice.code_of_debug {n : Notice} (h : n.level = .debug) (moment : Moment) :
    (n.event moment).code = "D000" := by
  cases n <;> first | rfl | cases h

theorem Rejection.id_code_ne (r : Rejection) : r.code.id ≠ "E040" := by
  cases r with
  | inputTooLarge _ _ => exact (by decide : Code.inputTooLarge.id ≠ "E040")
  | fault f =>
      cases f with
      | nestingTooDeep _ _ _ => exact (by decide : Code.nestingTooDeep.id ≠ "E040")
      | unexpected expected found lexeme span =>
          simp only [code, Grammar.Fault.code, Grammar.Fault.unexpectedCode]
          repeat' split
          all_goals decide

theorem Token.code_of_mem_warnings {t : Token} {x : Level × String × Option Span}
    (h : x ∈ t.warnings) : x.2.1 = "E020" ∨ x.2.1 = "E021" := by
  simp only [warnings, List.mem_append, List.mem_ite_nil_right, List.mem_singleton] at h
  obtain ⟨_, rfl⟩ | ⟨_, rfl⟩ := h
  · exact .inl rfl
  · exact .inr rfl

theorem code_ne_of_mem_check {settings : Settings} {text : String} {n : Notice}
    (hn : n ∈ (check settings text).notices.filter Notice.isPlain) (moment : Moment) :
    (n.event moment).code ≠ "E040" := by
  have hmem := List.mem_map_of_mem (f := fun n => (n.event moment).headline) hn
  rw [headlines_check] at hmem
  change (n.event moment).headline.2.1 ≠ "E040"
  generalize (n.event moment).headline = x at hmem ⊢
  split at hmem
  · obtain rfl := List.mem_singleton.mp hmem
    decide
  · rcases List.mem_append.mp hmem with hmem | hmem
    · obtain ⟨t, _, hx⟩ := List.mem_flatMap.mp hmem
      rcases t.code_of_mem_warnings hx with hcode | hcode <;> rw [hcode] <;> decide
    · rcases List.mem_cons.mp hmem with rfl | hmem
      · decide
      · split at hmem
        · simp only [List.mem_cons, List.not_mem_nil, or_false] at hmem
          obtain rfl | rfl := hmem <;> decide
        · next r _ =>
            obtain rfl := List.mem_singleton.mp hmem
            exact r.id_code_ne

theorem Event.filter_warning (es : List Event) :
    es.filter (·.level = .warning) =
      (es.filter (·.level ≠ .debug)).filter (·.level = .warning) := by
  rw [List.filter_filter]
  refine List.filter_congr fun e _ => ?_
  cases e.level <;> rfl

/-- But for debugging, a check tells of a text that is too long only that; of another text it
tells in order which tokens are out of the ordinary, that scanning has ended, and what has come
of the tokens. What is counted and traced makes no difference to the warnings, and no end
marker is ever missed. -/
theorem check_events (settings : Settings) (text : String) (moment : Moment) (d : Desk)
    {service : Service} (hservice : d.service = some service) (hlevel : service.level = .debug)
    (htiming : d.preferences.timing = false) :
    let events := fun settings =>
      (d.postAll moment (check settings text).notices).1.filter fun e => service.wants e.level
    let told := (events settings).filter (·.level ≠ .debug)
    let outcome := (check settings text).outcome
    let recognizer := (Grammar.Recognizer.ofTokens settings.grammar (scan text)).recognize.2
    told.map Event.headline =
      (if settings.scanning.inputLimit < Text.byteLength text.toList then
        [(.error, "E005", none)]
      else
        (scan text).flatMap Token.warnings ++ (.info, "I010", none) ::
          match outcome with
          | .ok _ => [(.info, "I020", none), (.info, "I030", none)]
          | .error r => [(.error, r.code.id, r.span?)]) ∧
    (∀ f, outcome = .error (.fault f) → ∃ e, told.getLast? = some e ∧
      e.headline = (.error, f.code.id, some f.span) ∧
      e.message = String.ofList (Text.abridge 10000 f.message.toList) ∧
      e.context.pairs = [("tokens_consumed", toString recognizer.consumed)]) ∧
    (∀ detailed,
      let other := { settings with scanning := { settings.scanning with detailed } }
      (events other).filter (·.level = .warning) = told.filter (·.level = .warning)) ∧
    ∀ e ∈ events settings, e.code ≠ "E040" := by
  intro events told outcome recognizer
  have hwants (e : Event) : service.wants e.level = true := by
    simpa [Service.wants, hlevel] using e.level.le_debug
  have hevents (settings : Settings) :
      events settings = (d.postAll moment (check settings text).notices).1 :=
    List.filter_eq_self.mpr fun e _ => hwants e
  have htold (settings : Settings) : (events settings).filter (·.level ≠ .debug) =
      ((check settings text).notices.filter Notice.isPlain).map (·.event moment) := by
    rw [hevents, Desk.plain_events (by simp [hservice]) htiming]
  have hheadlines : told.map Event.headline = _ :=
    (congrArg _ (htold settings)).trans
      ((List.map_map ..).trans (headlines_check settings text moment))
  refine ⟨hheadlines, ?fault, ?counts, ?codes⟩
  case fault =>
    intro f hf
    refine ⟨(Notice.stopped f recognizer.consumed).event moment, ?_, rfl, rfl, rfl⟩
    rw [show told = _ from htold settings, List.getLast?_map, getLast?_check hf]
    rfl
  case counts =>
    intro detailed other
    have hwarnings (settings : Settings) :
        ((events settings).filter (·.level ≠ .debug)).filter (·.level = .warning) =
          (if settings.scanning.inputLimit < Text.byteLength text.toList then []
            else (scan text).flatMap Notice.ofToken).map (·.event moment) := by
      rw [htold, List.filter_map, ← warnings_check]
      refine congrArg (List.map _) (List.filter_congr fun n _ => ?_)
      rw [Function.comp, n.level_event]
    rw [Event.filter_warning, hwarnings other, hwarnings settings]
    rfl
  case codes =>
    intro e he
    by_cases hdebug : e.level = .debug
    · rw [hevents, Desk.postAll_fst, if_pos (by simp [hservice])] at he
      obtain ⟨n, _, rfl⟩ := List.mem_map.mp he
      rw [n.level_event] at hdebug
      rw [Notice.code_of_debug hdebug]
      decide
    · have hmem : e ∈ told := List.mem_filter.mpr ⟨he, by simpa using hdebug⟩
      rw [show told = _ from htold settings] at hmem
      obtain ⟨n, hn, rfl⟩ := List.mem_map.mp hmem
      exact code_ne_of_mem_check hn moment

/-- A group that is not closed before an invalid character, told to a memory. -/
theorem check_events_invalid_character :
    let service : Service := { outlet := .one (.memory 0), level := .debug }
    let d : Desk := { environment := fun _ => none, service := some service }
    let settings := ({} : Overrides).toSettings
    let text := "(1#"
    let place : Span := ⟨⟨2, 1, 3⟩, ⟨3, 1, 4⟩⟩
    let fault : Grammar.Fault := .unexpected [.closeParen] .invalid (some "#") place
    let events :=
      (d.postAll {} (check settings text).notices).1.filter fun e => service.wants e.level
    let told := events.filter (·.level ≠ .debug)
    (d.service = some service ∧ service.level = .debug ∧ d.preferences.timing = false) ∧
    told.map Event.headline =
      [(.warning, "E020", some place), (.info, "I010", none), (.error, "E044", some place)] ∧
    (∃ e, told.getLast? = some e ∧
      e.message = String.ofList (Text.abridge 10000 fault.message.toList) ∧
      e.context.pairs = [("tokens_consumed", "2")]) ∧
    ∀ e ∈ events, e.code ≠ "E040" := by
  intro service d settings text place fault events told
  have hservice : d.service = some service := rfl
  have htiming : d.preferences.timing = false := rfl
  have hall := check_events settings text {} d hservice rfl htiming
  have hscan : scan text =
      [⟨.openParen, some "(", ⟨⟨0, 1, 1⟩, ⟨1, 1, 2⟩⟩⟩, ⟨.integer, some "1", ⟨⟨1, 1, 2⟩, ⟨2, 1, 3⟩⟩⟩,
       ⟨.invalid, some "#", place⟩, .endMarker (.emptyAt ⟨3, 1, 4⟩)] := by
    decide
  have houtcome : (check settings text).outcome = .error (.fault fault) := by
    rw [check_outcome (by decide), hscan]
    rfl
  have hconsumed :
      (Grammar.Recognizer.ofTokens settings.grammar (scan text)).recognize.2.consumed = 2 := by
    have hrun := congrArg Grammar.Outcome.consumed
      (Grammar.Recognizer.outcome_ofTokens settings.grammar (scan text))
    refine Eq.trans hrun ?_
    rw [hscan]
    rfl
  refine ⟨⟨rfl, rfl, htiming⟩, ?_, ?_, hall.2.2.2⟩
  · refine hall.1.trans ?_
    rw [if_neg (by decide), houtcome, hscan]
    rfl
  · obtain ⟨e, he, _, hmessage, hcontext⟩ := hall.2.1 _ houtcome
    rw [hconsumed] at hcontext
    exact ⟨e, he, hmessage, hcontext⟩

end ExprCheck
