import ExprCheck.Proofs.Check.Counts
import ExprCheck.Proofs.Grammar.Balance
import ExprCheck.Proofs.Grammar.DepthBounds
import ExprCheck.Proofs.Grammar.Notices
import ExprCheck.Proofs.Log.Desk

/-!
The trace of a recognition. Which productions begin in front of a token is a matter of the token
before it, so the entries of an accepted list can be read off the list. The descent makes them in
that order: what it has told and what its next task tells at once is always the trace up to the
token ahead.
-/

namespace ExprCheck

/-- The value of one detail of an event. -/
def Event.detail? (e : Event) (key : String) : Option String :=
  e.context.pairs.lookup key

namespace Notice

def isEntry : Notice → Bool
  | entering .. => true
  | _ => false

variable {moment : Moment} {n : Notice}

/-- Of what is said without a fault only an entry has the message of one. -/
theorem message_event_beq
    (h : n.level = .debug ∨ n = .missingEnd ∨ ∃ c m, n = .recognized c m) :
    ((n.event moment).message == "Entering production") = n.isEntry := by
  obtain h | rfl | ⟨c, m, rfl⟩ := h
  · cases n with
    | checking | scanning | scanned | streamCreated | entering | rejected => rfl
    | _ => cases h
  · rfl
  · rfl

end Notice

namespace Grammar

/-- The productions that begin behind a token of a category, and at the start behind none. -/
def beginning : Option Category → List Production
  | none => [.program, .expression, .term, .factor]
  | some .openParen => [.expression, .term, .factor]
  | some .plus => [.term, .factor]
  | some .times => [.factor]
  | some _ => []

/-- The entries in front of a token behind others. -/
def entriesAt (before : List Token) (t : Token) : List Notice :=
  (beginning (before.getLast?.map (·.category))).map
    (.entering · t (Token.unclosed before).toNat)

/-- The entries in front of each of some tokens behind others. -/
def traceBehind (before : List Token) : List Token → List Notice
  | [] => []
  | t :: ts => entriesAt before t ++ traceBehind (before ++ [t]) ts

/-- The entries that the derivation of some tokens makes. -/
def traceOf (ts : List Token) : List Notice :=
  traceBehind [] ts

theorem traceBehind_append (before v w : List Token) :
    traceBehind before (v ++ w) = traceBehind before v ++ traceBehind (before ++ v) w := by
  induction v generalizing before with
  | nil => simp [traceBehind]
  | cons t v ih => simp [traceBehind, ih]

theorem entriesAt_concat (before : List Token) (u t : Token) :
    entriesAt (before ++ [u]) t =
      (beginning (some u.category)).map
        (.entering · t (Token.unclosed (before ++ [u])).toNat) := by
  rw [entriesAt, List.getLast?_concat, Option.map_some]

theorem traceOf_concat (done : List Token) (t : Token) :
    traceOf (done ++ [t]) = traceOf done ++ entriesAt done t := by
  simp [traceOf, traceBehind_append, traceBehind]

/-! The trace of a descent -/

namespace Recognizer

variable {ts done : List Token} {r : Recognizer}

/-- The entries that have been made, the first one first. -/
def entries (r : Recognizer) : List Notice :=
  (r.notices.filter Notice.isEntry).reverse

theorem entries_step (r : Recognizer) : r.step.entries = r.entries := by
  cases he : r.lookahead.isEnd with
  | true => rw [r.step_of_isEnd he, entries, entries]
  | false =>
      cases hs : r.source with
      | nil =>
          rw [r.step_of_nil he hs, entries, entries, List.filter_cons_of_neg Bool.false_ne_true]
      | cons t ts => rw [r.step_of_cons he hs, entries, entries]

theorem entries_entered (h : r.trace = true) (production : Production) :
    (r.entered production).entries =
      r.entries ++ [.entering production r.lookahead r.depth] := by
  rw [entered, if_pos h, entries, say, List.filter_cons_of_pos rfl, List.reverse_cons, entries]

/-- Behind `done` the recognizer has the other tokens ahead, or the stand-in for an end marker. -/
structure Follows (ts done : List Token) (r : Recognizer) : Prop where
  tokens : ts = done ++ r.lookahead :: r.source ∨
    ts = done ∧ r.lookahead = missingEnd ∧ r.source = []
  solid : ∀ t ∈ done, t.isEnd = false

theorem Follows.step (h : Follows ts done r) (he : r.lookahead.isEnd = false) :
    Follows ts (done ++ [r.lookahead]) r.step := by
  obtain ⟨rfl | ⟨-, hmissing, -⟩, hsolid⟩ := h
  · refine ⟨?_, fun t ht => ?_⟩
    · cases hs : r.source with
      | nil =>
          rw [r.step_of_nil he hs]
          exact .inr ⟨rfl, rfl, hs⟩
      | cons t ts =>
          rw [r.step_of_cons he hs]
          exact .inl (by simp)
    · obtain ht | ht := List.mem_append.mp ht
      · exact hsolid t ht
      · rwa [List.mem_singleton.mp ht]
  · rw [hmissing] at he
    cases he

end Recognizer

/-- The productions that a task begins in front of the token ahead. -/
def Task.begins : Task → List Production
  | program => beginning none
  | expression => beginning (some .openParen)
  | term => beginning (some .plus)
  | factor => beginning (some .times)
  | moreTerms | moreFactors | closing | ending => []

namespace Descent
open Recognizer

variable {ts done : List Token} {task : Task} {tasks tasks' rest : List Task} {r : Recognizer}
  {start : Nat}

/-- The productions that begin before the next token is stepped over. -/
def firstBegins : List Task → List Production
  | [] => []
  | task :: _ => task.begins

theorem firstBegins_of_waiting (h : ∀ task ∈ tasks, task.begins = []) : firstBegins tasks = [] := by
  cases tasks with
  | nil => rfl
  | cons task rest => exact h task (by simp)

/-- What has been told, and what the next task tells at once, is the trace up to the token ahead.
No task behind the next one tells anything before a token has been stepped over. -/
structure Tells (ts done : List Token) (tasks : List Task) (r : Recognizer) : Prop where
  follows : Follows ts done r
  traces : r.trace = true
  depth : (r.depth : Int) = Token.unclosed done
  waiting : ∀ task ∈ tasks.tail, task.begins = []
  told : r.entries ++ (firstBegins tasks).map (.entering · r.lookahead r.depth) =
    traceOf (done ++ [r.lookahead])

namespace Tells

theorem enter {production : Production} (h : Tells ts done (task :: rest) r)
    (hbegins : task.begins = production :: firstBegins tasks)
    (hwaiting : ∀ task ∈ tasks.tail, task.begins = []) :
    Tells ts done tasks (r.entered production) := by
  have htold := h.told
  have hentries := entries_entered h.traces production
  rw [firstBegins, hbegins, List.map_cons, List.append_cons, ← hentries] at htold
  obtain ⟨notices, hr⟩ := r.entered_frame production
  rw [hr] at htold ⊢
  exact ⟨⟨h.follows.tokens, h.follows.solid⟩, h.traces, h.depth, hwaiting, htold⟩

theorem pass (h : Tells ts done (task :: rest) r) (hbegins : task.begins = []) :
    Tells ts done rest r where
  follows := h.follows
  traces := h.traces
  depth := h.depth
  waiting task ht := h.waiting task (List.mem_of_mem_tail ht)
  told := by
    have htold := h.told
    have hrest : firstBegins rest = [] := firstBegins_of_waiting h.waiting
    rw [firstBegins, hbegins] at htold
    rwa [hrest]

/-- Over a token, behind which the next task tells what is to be told there. -/
theorem move (h : Tells ts done tasks r) (depth maxDepthSeen : Nat)
    (hbegins : firstBegins tasks = []) (he : r.lookahead.isEnd = false)
    (hdepth : (depth : Int) = r.depth + Token.unclosed [r.lookahead])
    (hbegins' : firstBegins tasks' = beginning (some r.lookahead.category))
    (hwaiting : ∀ task ∈ tasks'.tail, task.begins = []) :
    Tells ts (done ++ [r.lookahead]) tasks' { r.step with depth, maxDepthSeen } := by
  have hfollows := h.follows.step he
  have hopen : (depth : Int) = Token.unclosed (done ++ [r.lookahead]) := by
    rw [hdepth, h.depth, Token.unclosed_append]
  refine ⟨⟨hfollows.tokens, hfollows.solid⟩, ?_, hopen, hwaiting, ?_⟩
  · obtain ⟨_, _, _, hs⟩ := r.step_frame
    rw [hs]
    exact h.traces
  · have htold := h.told
    rw [hbegins, List.map_nil, List.append_nil] at htold
    change r.step.entries ++ (firstBegins tasks').map (.entering · r.step.lookahead depth) =
      traceOf (done ++ [r.lookahead] ++ [r.step.lookahead])
    rw [entries_step, htold, hbegins', traceOf_concat (done ++ [r.lookahead]), entriesAt_concat,
      ← hopen, Int.toNat_natCast]

theorem step (h : Tells ts done tasks r) (hbegins : firstBegins tasks = [])
    (he : r.lookahead.isEnd = false) (hlevel : Token.unclosed [r.lookahead] = 0)
    (hbegins' : firstBegins tasks' = beginning (some r.lookahead.category))
    (hwaiting : ∀ task ∈ tasks'.tail, task.begins = []) :
    Tells ts (done ++ [r.lookahead]) tasks' r.step := by
  have hdepth : (r.step.depth : Int) = r.depth + Token.unclosed [r.lookahead] := by
    rw [r.step_depth, hlevel, Int.add_zero]
  exact h.move r.step.depth r.step.maxDepthSeen hbegins he hdepth hbegins' hwaiting

end Tells

def Told (ts : List Token) : Descent → Prop
  | busy tasks r => ∃ done, Tells ts done tasks r
  | stopped .. => True

theorem waiting_cons (ht : task.begins = []) (h : ∀ task ∈ rest, task.begins = []) :
    ∀ other ∈ task :: rest, other.begins = [] :=
  List.forall_mem_cons.mpr ⟨ht, h⟩

theorem told_again {separator : Category} {item loop : Task}
    (hitem : item.begins = beginning (some separator)) (hloop : loop.begins = [])
    (h : Tells ts done (loop :: rest) r) (hs : separator ≠ .openParen ∧ separator ≠ .closeParen)
    (hend : separator ≠ .endOfInput) : Told ts (again separator item loop rest r) := by
  unfold again
  split
  · next hc =>
      refine ⟨_, h.step hloop ?_ ?_ ?_ (waiting_cons hloop h.waiting)⟩
      · simpa [Token.isEnd, hc] using hend
      · simp [Token.unclosed, hc, hs]
      · rw [firstBegins, hitem, hc]
  · exact ⟨done, h.pass hloop⟩

theorem told_startFactor (h : Tells ts done rest r) (hw : ∀ task ∈ rest, task.begins = []) :
    Told ts (startFactor rest r) := by
  have hrest : firstBegins rest = [] := firstBegins_of_waiting hw
  unfold startFactor
  split
  · next hc =>
      refine ⟨_, h.step hrest ?_ ?_ ?_ h.waiting⟩
      · simp [Token.isEnd, hc]
      · simp [Token.unclosed, hc]
      · rw [hrest, hc]
        rfl
  · next hc =>
      dsimp only
      split
      · trivial
      · refine ⟨_, h.move _ _ hrest ?_ ?_ ?_ (waiting_cons rfl hw)⟩
        · simp [Token.isEnd, hc]
        · simp [Token.unclosed, hc]
        · rw [hc]
          rfl
  · trivial

theorem told_endProgram (h : Tells ts done rest r) : Told ts (endProgram rest r) := by
  unfold endProgram
  split
  · next hc =>
      split
      · rw [r.step_of_isEnd (by simp [Token.isEnd, hc])]
        exact ⟨done, ⟨h.follows.tokens, h.follows.solid⟩, h.traces, h.depth, h.waiting, h.told⟩
      · trivial
  · trivial

theorem told_perform (task : Task) (h : Tells ts done (task :: rest) r)
    (ho : Owes start (task :: rest) r) : Told ts (perform rest r task) := by
  cases task with
  | program | expression | term => exact ⟨done, h.enter rfl (waiting_cons rfl h.waiting)⟩
  | factor =>
      have hrest : firstBegins rest = [] := firstBegins_of_waiting h.waiting
      refine told_startFactor (h.enter (by rw [hrest]; rfl) fun other ho => ?_) h.waiting
      exact h.waiting other (List.mem_of_mem_tail ho)
  | moreTerms | moreFactors => exact told_again rfl rfl h (by simp) (by simp)
  | closing =>
      rw [perform]
      split
      · next hc =>
          have hopen := ho.depth
          have hrest : firstBegins rest = [] := firstBegins_of_waiting h.waiting
          rw [List.count_cons_self] at hopen
          refine ⟨_, h.move _ _ rfl ?_ ?_ ?_ fun other ho => ?_⟩
          · simp [Token.isEnd, hc]
          · simp [Token.unclosed, hc]
            omega
          · rw [hrest, hc]
            rfl
          · exact h.waiting other (List.mem_of_mem_tail ho)
      · trivial
  | ending => exact told_endProgram (h.pass rfl)

theorem Runs.told {d : Descent} (h : Runs (busy [.program] r) d)
    (hr : Tells ts [] [.program] r) : Told ts d := by
  have hboth : Balanced r.depth d ∧ Told ts d := by
    refine h.keeps (P := fun d => Balanced r.depth d ∧ Told ts d) ⟨?_, [], hr⟩ ?_
    · exact Runs.balanced .refl
    · rintro task rest s ⟨hs, done, htells⟩
      exact ⟨balanced_perform task hs, told_perform task htells hs⟩
  exact hboth.2

end Descent

namespace Recognizer

theorem exists_runs_of_recognized {r : Recognizer} (h : r.recognize.1 = .ok ()) :
    ∃ s, r.recognize = (.ok (), s.say (.recognized s.consumed s.maxDepthSeen)) ∧
      Descent.Runs (.busy [.program] r) (.busy [] s) := by
  obtain hs | ⟨f, s, hs, -⟩ := r.recognize_cases
  · exact hs
  · rw [hs] at h
    cases h

/-- A program that is recognized has an end marker ahead, and nothing behind it. -/
theorem recognize_at_end {r : Recognizer} (h : r.recognize.1 = .ok ()) :
    r.recognize.2.lookahead.isEnd = true ∧ r.recognize.2.source = [] := by
  have hmeets : Recognition.program.Meets r
      (fun _ s => s.lookahead.isEnd = true ∧ s.source = []) (fun _ _ => True) := by
    rw [Recognition.program]
    apply Recognition.Meets.bind
    apply Recognition.meets_enter
    apply Recognition.Meets.bind
    apply Recognition.meets_get
    apply Recognition.Meets.bind
    refine Recognition.Meets.of_forall (fun _ s => ?_) (fun _ _ => trivial)
    apply Recognition.Meets.bind
    apply Recognition.meets_expect
    · intro hc
      have he : s.lookahead.isEnd = true := by simp [Token.isEnd, hc]
      apply Recognition.Meets.bind
      apply Recognition.meets_get
      rw [s.step_of_isEnd he]
      split
      · next hs => exact ⟨he, hs⟩
      · trivial
    · exact fun _ => trivial
  unfold Recognition.Meets at hmeets
  unfold recognize at h ⊢
  rw [EStateM.run] at h ⊢
  cases hp : Recognition.program r with
  | ok _ s =>
      rw [hp] at hmeets
      exact hmeets
  | error f s =>
      rw [hp] at h
      cases h

end Recognizer

open Recognizer Descent in
/-- The entries of a recognized program are the trace of its tokens, with an end marker that may
have been missing. -/
theorem entries_of_recognized {settings : GrammarSettings} {ts : List Token}
    (h : recognize settings ts = .ok ()) (htrace : settings.traceProductions = true) :
    ∃ w e, e.isEnd = true ∧ (∀ t ∈ w, t.isEnd = false) ∧ (ts = w ++ [e] ∨ ts = w) ∧
      (ofTokens settings ts).recognize.2.entries = traceOf (w ++ [e]) := by
  have hstart : Tells ts [] [.program] (ofTokens settings ts) := by
    refine ⟨⟨?_, by simp⟩, htrace, rfl, by simp, ?_⟩
    · cases ts with
      | nil => exact .inr ⟨rfl, rfl, rfl⟩
      | cons t ts => exact .inl rfl
    · cases ts <;> rfl
  obtain ⟨he, hsource⟩ := recognize_at_end h
  obtain ⟨s, hs, hr⟩ := exists_runs_of_recognized h
  obtain ⟨w, htells⟩ := hr.told hstart
  rw [hs] at he hsource ⊢
  refine ⟨w, s.lookahead, he, htells.follows.solid, ?_, ?_⟩
  · obtain hts | ⟨hts, -⟩ := htells.follows.tokens
    · exact .inl (hts.trans (by rw [show s.source = [] from hsource]))
    · exact .inr hts
  · have htold := htells.told
    rw [firstBegins, List.map_nil, List.append_nil] at htold
    exact htold

/-! What a trace consists of -/

theorem exists_of_mem_traceBehind {n : Notice} {before ts : List Token}
    (h : n ∈ traceBehind before ts) :
    ∃ v t w, ts = v ++ t :: w ∧ n ∈ entriesAt (before ++ v) t := by
  induction ts generalizing before with
  | nil => cases h
  | cons t ts ih =>
      obtain hn | hn := List.mem_append.mp h
      · exact ⟨[], t, ts, rfl, by simpa using hn⟩
      · obtain ⟨v, u, w, hts, hu⟩ := ih hn
        exact ⟨t :: v, u, w, by rw [hts, List.cons_append], by simpa using hu⟩

theorem isEntry_of_mem_traceBehind {before ts : List Token} :
    ∀ n ∈ traceBehind before ts, n.isEntry = true := by
  intro n hn
  obtain ⟨v, t, w, -, hentry⟩ := exists_of_mem_traceBehind hn
  obtain ⟨production, -, rfl⟩ := List.mem_map.mp hentry
  rfl

end Grammar

/-- The token that a production begins with, where it does. -/
def Notice.beginsWith? (production : Production) : Notice → Option Token
  | entering p t _ => if p = production then some t else none
  | _ => none

namespace Grammar

theorem filterMap_entriesAt (production : Production) (before : List Token) (t : Token) :
    (entriesAt before t).filterMap (Notice.beginsWith? production) =
      if production ∈ beginning (before.getLast?.map (·.category)) then [t] else [] := by
  unfold entriesAt
  cases before.getLast? with
  | none => cases production <;> rfl
  | some u =>
      rw [Option.map_some]
      cases u.category <;> cases production <;> rfl

/-- The tokens that a production begins with, in their order. -/
def begun (production : Production) (w : List Token) : List Token :=
  (traceOf w).filterMap (Notice.beginsWith? production)

/-- Every production begins in front of the first token, and then behind each token that it begins
behind. -/
theorem length_begun_concat (production : Production) (w : List Token) (e : Token) :
    (begun production (w ++ [e])).length =
      1 + w.countP fun t => production ∈ beginning (some t.category) := by
  have behind (before : List Token) :
      ((traceBehind before (w ++ [e])).filterMap (Notice.beginsWith? production)).length =
        (if production ∈ beginning (before.getLast?.map (·.category)) then 1 else 0) +
          w.countP fun t => production ∈ beginning (some t.category) := by
    induction w generalizing before with
    | nil =>
        rw [List.nil_append, traceBehind, traceBehind, List.append_nil, filterMap_entriesAt]
        split <;> rfl
    | cons t w ih =>
        rw [List.cons_append, traceBehind, List.filterMap_append, List.length_append, ih,
          filterMap_entriesAt, List.getLast?_concat, Option.map_some, List.countP_cons]
        split <;> simp <;> omega
  refine (behind []).trans ?_
  cases production <;> rfl

/-- Behind a token no program begins, an expression behind a parenthesis that it opens, a term also
behind a plus, and a factor also behind a times. -/
theorem mem_beginning_some (c : Category) :
    (.program ∈ beginning (some c) ↔ False) ∧
      (.expression ∈ beginning (some c) ↔ c = .openParen) ∧
      (.term ∈ beginning (some c) ↔ c = .openParen ∨ c = .plus) ∧
      (.factor ∈ beginning (some c) ↔ c = .openParen ∨ c = .plus ∨ c = .times) := by
  cases c <;> simp [beginning]

theorem beginning_eq_nil {c : Option Category} (h : .factor ∉ beginning c) : beginning c = [] := by
  cases c with
  | none => simp [beginning] at h
  | some c => cases c <;> simp [beginning] at h ⊢

theorem length_begun (w : List Token) (e : Token) :
    (begun .program (w ++ [e])).length = 1 ∧
      (begun .expression (w ++ [e])).length = w.countP (·.category = .openParen) + 1 ∧
      (begun .term (w ++ [e])).length =
        w.countP (·.category = .openParen) + 1 + w.countP (·.category = .plus) ∧
      (begun .factor (w ++ [e])).length =
        w.countP (·.category = .openParen) + 1 + w.countP (·.category = .plus) +
          w.countP (·.category = .times) := by
  simp only [length_begun_concat, mem_beginning_some]
  -- The categories exclude each other, so that what is counted together can be counted apart.
  induction w with
  | nil => simp
  | cons t w ih =>
      simp only [List.countP_cons]
      cases hc : t.category <;> simp at ih ⊢ <;> omega

namespace Progress

variable {limit : Nat} {p q : Progress} {t : Token} {w : List Token}

/-- An operand is awaited where a factor begins. -/
theorem factor_mem_beginning_of_move (h : p.move limit t = .on q) :
    .factor ∈ beginning (some t.category) ↔ q.needsOperand = true := by
  obtain ⟨_, ht, rfl⟩ | ⟨hn, ht, _, rfl⟩ | ⟨_, ht | ht, rfl⟩ | ⟨hn, ht, _, rfl⟩ :=
    move_on_cases h <;> simp [beginning, *]

theorem Reaches.factor_tokens (before : List Token) (h : Reaches limit p w q)
    (hp : .factor ∈ beginning (before.getLast?.map (·.category)) ↔ p.needsOperand = true) :
    (traceBehind before w).filterMap (Notice.beginsWith? .factor) =
        w.filter (fun t => t.category = .integer ∨ t.category = .openParen) ∧
      (.factor ∈ beginning ((before ++ w).getLast?.map (·.category)) ↔ q.needsOperand = true) := by
  induction h generalizing before with
  | refl p => exact ⟨rfl, by simpa using hp⟩
  | @move p q s t w hm _ ih =>
      obtain ⟨htokens, hs⟩ :=
        ih (before ++ [t]) (by simpa using factor_mem_beginning_of_move hm)
      refine ⟨?_, by simpa using hs⟩
      rw [traceBehind, List.filterMap_append, filterMap_entriesAt, htokens]
      simp only [hp]
      obtain ⟨hn, ht, _⟩ | ⟨hn, ht, _⟩ | ⟨hn, ht | ht, _⟩ | ⟨hn, ht, _⟩ := move_on_cases hm <;>
        simp [hn, ht]

/-- A reading takes a token that a factor begins with wherever an operand is awaited, and there
only. -/
theorem Reaches.begun_factor (h : Reaches limit {} w q) :
    begun .factor w = w.filter fun t => t.category = .integer ∨ t.category = .openParen :=
  (h.factor_tokens [] (by simp [beginning])).1

/-- Nothing begins where a program may end. -/
theorem Reaches.traceOf_concat (h : Reaches limit {} w q) (hq : q.Complete) (t : Token) :
    traceOf (w ++ [t]) = traceOf w := by
  have hlast : beginning (w.getLast?.map (·.category)) = [] := by
    refine beginning_eq_nil fun hfactor => ?_
    have hneeds := (h.factor_tokens [] (by simp [beginning])).2.mp hfactor
    rw [hq.1] at hneeds
    cases hneeds
  rw [Grammar.traceOf_concat, entriesAt, hlast, List.map_nil, List.append_nil]

end Progress
end Grammar

/-! The events of a trace -/

namespace Notice

theorem detail?_entering (moment : Moment) (production : Production) (t : Token) (depth : Nat) :
    let e := (Notice.entering production t depth).event moment
    e.detail? "production" = some production.name ∧ e.detail? "lookahead" = some t.text ∧
      e.detail? "depth" = some (toString depth) :=
  ⟨rfl, rfl, rfl⟩

theorem lookaheads_of_entries (moment : Moment) (production : Production) {ns : List Notice}
    (h : ∀ n ∈ ns, n.isEntry = true) :
    ((ns.map (·.event moment)).filter (·.detail? "production" == some production.name)).map
        (·.detail? "lookahead") =
      (ns.filterMap (beginsWith? production)).map (some ·.text) := by
  induction ns with
  | nil => rfl
  | cons n ns ih =>
      obtain ⟨hn, hns⟩ := List.forall_mem_cons.mp h
      specialize ih hns
      cases n with
      | entering p t depth =>
          obtain ⟨hproduction, hlookahead, -⟩ := detail?_entering moment p t depth
          obtain rfl | hp := eq_or_ne p production
          · simp [hproduction, hlookahead, beginsWith?, ih]
          · have hname : p.name ≠ production.name := by
              revert hp
              cases p <;> cases production <;> decide
            simp [hproduction, hname, beginsWith?, hp, ih]
      | _ => cases hn

end Notice

namespace Desk

variable {d : Desk} {moment : Moment}

/-- If events for debugging are wanted, every entry becomes an event. -/
theorem entries_postAll (hd : d.debugEnabled.1 = true) {ns : List Notice}
    (h : ∀ n ∈ ns, n.level = .debug ∨ n = .missingEnd ∨ ∃ c m, n = .recognized c m) :
    (d.postAll moment ns).1.filter (·.message == "Entering production") =
      (ns.filter Notice.isEntry).map (·.event moment) := by
  rw [debugEnabled_fst] at hd
  have hpasses (n : Notice) (hn : n.isEntry = true) : d.passes n = true := by
    cases n with
    | entering => exact hd
    | _ => cases hn
  have hservice : d.service.isSome = true := by
    cases hs : d.service with
    | none => simp [hs] at hd
    | some service => rfl
  rw [postAll_fst, if_pos hservice, List.filter_map, List.filter_filter]
  congr 1
  refine List.filter_congr fun n hn => ?_
  rw [Function.comp_apply, Notice.message_event_beq (h n hn)]
  cases he : n.isEntry with
  | true => rw [hpasses n he, Bool.true_and]
  | false => rfl

end Desk

namespace Grammar
open Recognizer

/-- The notices of a program that is recognized. -/
theorem recognized_notices {settings : GrammarSettings} {ts : List Token}
    (h : recognize settings ts = .ok ()) :
    ∀ n ∈ (ofTokens settings ts).recognize.2.notices,
      n.level = .debug ∨ n = .missingEnd ∨ ∃ c m, n = .recognized c m := by
  obtain ⟨s, hs, hr⟩ := exists_runs_of_recognized h
  rw [hs]
  intro n hn
  obtain rfl | hn := List.mem_cons.mp hn
  · exact .inr (.inr ⟨_, _, rfl⟩)
  · exact (hr.quiet (quiet_ofTokens settings ts) n hn).imp_right .inl

/-- Tokens that are recognized are read up to an end marker, and the trace ends before it. -/
theorem exists_reading_of_recognized {settings : GrammarSettings} {ts : List Token}
    (h : recognize settings ts = .ok ()) (htrace : settings.traceProductions = true) :
    ∃ w q, Progress.Reaches settings.depthLimit {} w q ∧ q.Complete ∧
      (ts = w ∨ ∃ e : Token, e.isEnd = true ∧ ts = w ++ [e]) ∧
      (ofTokens settings ts).recognize.2.entries = traceOf w ∧ traceOf ts = traceOf w := by
  obtain ⟨v, e, he, hsolid, hts, hentries⟩ := entries_of_recognized h htrace
  rw [recognize_eq_result] at h
  obtain ⟨w, q, hr, hq, hw⟩ := (Progress.run_ok_iff ..).mp h
  have hcut {u : List Token} (hu : ∀ t ∈ u, t.isEnd = false)
      (htu : ts = u ∨ ∃ e : Token, e.isEnd = true ∧ ts = u ++ [e]) :
      ts.takeWhile (!·.isEnd) = u := by
    have hkept : ∀ t ∈ u, (!t.isEnd) = true := fun t ht => by rw [hu t ht]; rfl
    obtain rfl | ⟨e, he, rfl⟩ := htu
    · exact List.takeWhile_eq_self_iff.mpr hkept
    · rw [List.takeWhile_append_of_pos hkept]
      simp [he]
  obtain rfl : v = w :=
    (hcut hsolid (hts.symm.imp_right fun hts => ⟨e, he, hts⟩)).symm.trans (hcut hr.isEnd hw)
  refine ⟨v, q, hr, hq, hw, hentries.trans (hr.traceOf_concat hq e), ?_⟩
  obtain rfl | ⟨e, -, rfl⟩ := hw
  · rfl
  · exact hr.traceOf_concat hq e

/-- An entry tells its token, and how many parentheses the tokens before it leave open. -/
theorem details_of_mem_trace {limit : Nat} {q : Progress} {w : List Token} {e : Event}
    {moment : Moment} (hr : Progress.Reaches limit {} w q)
    (he : e ∈ (traceOf w).map (·.event moment)) :
    ∃ before t after, w = before ++ t :: after ∧ e.detail? "lookahead" = some t.text ∧
      e.detail? "depth" = some (toString (Token.unclosed before)) := by
  obtain ⟨n, hn, rfl⟩ := List.mem_map.mp he
  obtain ⟨before, t, after, hw, hentry⟩ := exists_of_mem_traceBehind hn
  obtain ⟨production, -, rfl⟩ := List.mem_map.mp hentry
  obtain ⟨-, hlookahead, hdepth⟩ := Notice.detail?_entering moment production t
    (Token.unclosed ([] ++ before)).toNat
  obtain ⟨k, hk⟩ := Int.eq_ofNat_of_zero_le (hr.unclosed_nonneg before ⟨t :: after, hw.symm⟩)
  refine ⟨before, t, after, hw, hlookahead, hdepth.trans ?_⟩
  rw [List.nil_append, hk]
  rfl

/-- If productions are traced and events for debugging are wanted, the events of a recognized
program tell how it is derived from the left. They are those of the trace; a program begins once,
an expression also in each group, a term also behind each plus and a factor also behind each times.
The factors begin with the operands and the groups, all of them and in their order. Each event
tells how many parentheses are open before its token. -/
theorem events_trace_derivation (settings : GrammarSettings) (ts : List Token) (d : Desk)
    (moment : Moment) (h : recognize settings ts = .ok ())
    (htrace : settings.traceProductions = true) (hd : d.debugEnabled.1 = true) :
    let notices := (Recognizer.ofTokens settings ts).recognize.2.notices.reverse
    let entries := (d.postAll moment notices).1.filter (·.message == "Entering production")
    let of (production : Production) :=
      entries.filter (·.detail? "production" == some production.name)
    let count (c : Category) := ts.countP (·.category = c)
    entries = (traceOf ts).map (·.event moment) ∧
      (of .program).length = 1 ∧
      (of .expression).length = count .openParen + 1 ∧
      (of .term).length = count .openParen + 1 + count .plus ∧
      (of .factor).length = count .openParen + 1 + count .plus + count .times ∧
      (of .factor).length = count .integer + count .openParen ∧
      (of .factor).map (·.detail? "lookahead") =
        (ts.filter fun t => t.category = .integer ∨ t.category = .openParen).map
          (some ·.text) ∧
      ∀ e ∈ entries, ∃ before t after, ts = before ++ t :: after ∧
        e.detail? "lookahead" = some t.text ∧
        e.detail? "depth" = some (toString (Token.unclosed before)) := by
  intro notices entries of count
  obtain ⟨w, q, hr, hq, hts, htold, htraceOf⟩ := exists_reading_of_recognized h htrace
  have hentries : entries = (traceOf w).map (·.event moment) := by
    have hnotices : ∀ n ∈ notices, n.level = .debug ∨ n = .missingEnd ∨
        ∃ c m, n = .recognized c m :=
      fun n hn => recognized_notices h n (List.mem_reverse.mp hn)
    rw [← htold, Recognizer.entries, ← List.filter_reverse]
    exact Desk.entries_postAll hd hnotices
  have hof (production : Production) : (of production).map (·.detail? "lookahead") =
      (begun production w).map (some ·.text) := by
    simp only [of, hentries]
    exact Notice.lookaheads_of_entries moment production isEntry_of_mem_traceBehind
  have hlength (production : Production) :
      (of production).length = (begun production (w ++ [Recognizer.missingEnd])).length := by
    have hlength := congrArg List.length (hof production)
    rw [List.length_map, List.length_map, begun, ← hr.traceOf_concat hq] at hlength
    exact hlength
  obtain ⟨hprogram, hexpression, hterm, hfactor⟩ := length_begun w Recognizer.missingEnd
  have hoperands := (hr.addsUp Progress.addsUp_start).operands
  rw [List.nil_append, hq.1, if_neg Bool.false_ne_true, Token.countP_isOperator] at hoperands
  -- An end marker behind `w` is of none of the categories that are counted.
  obtain ⟨hcount, hstarts⟩ : (∀ c ≠ .endOfInput, count c = w.countP (·.category = c)) ∧
      (ts.filter fun t => t.category = .integer ∨ t.category = .openParen) =
        w.filter fun t => t.category = .integer ∨ t.category = .openParen := by
    obtain rfl | ⟨e, he, rfl⟩ := hts
    · exact ⟨fun _ _ => rfl, rfl⟩
    · have he' : e.category = .endOfInput := by simpa [Token.isEnd] using he
      exact ⟨fun c hc => by simp [count, he', hc.symm], by simp [he']⟩
  have hintegers := hcount .integer (by simp)
  have hgroups := hcount .openParen (by simp)
  have hpluses := hcount .plus (by simp)
  have htimes := hcount .times (by simp)
  refine ⟨htraceOf ▸ hentries, ?_, ?_, ?_, ?_, ?_, ?_, fun e he => ?_⟩
  · rw [hlength, hprogram]
  · rw [hlength, hexpression, hgroups]
  · rw [hlength, hterm, hgroups, hpluses]
  · rw [hlength, hfactor, hgroups, hpluses, htimes]
  · rw [hlength, hfactor, hintegers, hgroups]
    omega
  · rw [hof, hr.begun_factor, hstarts]
  · obtain ⟨before, t, after, hw, hdetails⟩ := details_of_mem_trace hr (hentries ▸ he)
    obtain hts | ⟨e, -, hts⟩ := hts
    · exact ⟨before, t, after, hts.trans hw, hdetails⟩
    · refine ⟨before, t, after ++ [e], ?_, hdetails⟩
      rw [hts, hw, List.append_assoc, List.cons_append]

/-- A sum in a group, times an integer, without an end marker. -/
theorem events_trace_derivation_of_product :
    let one : Token := ⟨.integer, some "1", .dummy⟩
    let two : Token := ⟨.integer, some "2", .dummy⟩
    let ts : List Token :=
      [⟨.openParen, some "(", .dummy⟩, one, ⟨.plus, some "+", .dummy⟩, two,
        ⟨.closeParen, some ")", .dummy⟩, ⟨.times, some "*", .dummy⟩, two]
    let settings : GrammarSettings := ⟨4, true⟩
    let log : LogSettings :=
      { structured := false, console := true, level := .debug, timing := true }
    let d : Desk :=
      { environment := fun _ => none
        settings := some log
        service := some (Desk.configuredService log) }
    let notices := (Recognizer.ofTokens settings ts).recognize.2.notices.reverse
    let entries := (d.postAll {} notices).1.filter (·.message == "Entering production")
    let of (production : Production) :=
      entries.filter (·.detail? "production" == some production.name)
    (recognize settings ts = .ok () ∧ d.debugEnabled.1 = true) ∧
      (of .program).length = 1 ∧ (of .expression).length = 2 ∧ (of .term).length = 3 ∧
      (of .factor).length = 4 ∧
      (of .factor).map (·.detail? "lookahead") =
        [some "[OPEN_PAR, \"(\"]", some "[INT, \"1\"]", some "[INT, \"2\"]",
          some "[INT, \"2\"]"] := by
  intro one two ts settings log d notices entries of
  have h : recognize settings ts = .ok () := by
    rw [recognize_eq_result]
    rfl
  obtain ⟨-, hprogram, hexpression, hterm, hfactor, -, hlookaheads, -⟩ :=
    events_trace_derivation settings ts d {} h rfl rfl
  exact ⟨⟨h, rfl⟩, hprogram, hexpression, hterm, hfactor, hlookaheads⟩

end Grammar
end ExprCheck
