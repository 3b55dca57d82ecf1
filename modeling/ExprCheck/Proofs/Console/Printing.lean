import ExprCheck.Console.Run

/-!
What a run comes to for each source: its status, and what it puts on the first stream. Logging
and diagnoses go to the second one only, so that the first has the prompt and what is printed
of reports.
-/

namespace ExprCheck

namespace Output

/-- The text that one output adds to the first stream. -/
def shown : Output → String
  | out text => text
  | err _ => ""

theorem outText_eq_join (os : List Output) : outText os = String.join (os.map shown) := by
  rw [String.join, List.foldl_map, outText]
  congr 1
  funext acc o
  cases o with
  | out _ => rfl
  | err _ => exact String.append_empty.symm

@[simp]
theorem outText_nil : outText [] = "" := rfl

@[simp]
theorem outText_cons (o : Output) (os : List Output) :
    outText (o :: os) = o.shown ++ outText os := by
  simp only [outText_eq_join, List.map_cons, String.join_cons]

@[simp]
theorem outText_append (os ps : List Output) : outText (os ++ ps) = outText os ++ outText ps := by
  simp only [outText_eq_join, List.map_append, String.join_append]

theorem outText_flatMap {α : Type} (f : α → List Output) (as : List α) :
    outText (as.flatMap f) = String.join (as.map fun a => outText (f a)) := by
  induction as with
  | nil => rfl
  | cons a as ih => simp only [List.flatMap_cons, List.map_cons, String.join_cons,
      outText_append, ih]

theorem outText_flatMap_empty {α : Type} {f : α → List Output} {as : List α}
    (h : ∀ a ∈ as, outText (f a) = "") : outText (as.flatMap f) = "" := by
  rw [outText_flatMap, List.map_congr_left h]
  induction as with
  | nil => rfl
  | cons a as ih => simpa using ih (List.forall_mem_cons.mp h).2

end Output

open Output

theorem outText_structured (level : Level) (e : Event) :
    outText ((Sink.structured level).print e) = "" := by
  unfold Sink.print
  dsimp only
  split <;> rfl

theorem outText_records (threshold : Option Level) (e : Event) :
    outText ((Sink.records threshold).print e) = "" := by
  unfold Sink.print
  dsimp only
  split <;> rfl

namespace Console

/-- The desk of a run has no sink for the first stream. -/
theorem outText_print (env : Environment) (log : LogSettings) (e : Event) :
    outText ((deskOf env log).print e) = "" := by
  refine outText_flatMap_empty fun sink hsink => ?_
  have hkind : sink = .structured log.level ∨
      sink = .records (recordThreshold env log.level recordTarget) := by
    have hfrom : ∀ {p : Prop} [Decidable p] {sinks : List Sink},
        sink ∈ (if p then sinks else []) → sink ∈ sinks := by
      intro p _ sinks h
      split at h
      · exact h
      · cases h
    have hmem := hfrom (hfrom hsink)
    split at hmem
    · exact .inl (List.mem_singleton.mp hmem)
    · exact .inr (List.mem_singleton.mp (hfrom hmem))
  obtain rfl | rfl := hkind
  · exact outText_structured _ e
  · exact outText_records _ e

@[simp]
theorem outText_tell (env : Environment) (log : LogSettings) (ns : List Notice) (moment : Moment) :
    outText (tell (deskOf env log) ns moment) = "" :=
  outText_flatMap_empty fun e _ => outText_print env log e

@[simp]
theorem outText_explain (i : Invocation) (report : Report) : outText (explain i report) = "" := by
  unfold explain
  split
  · split <;> rfl
  · rfl

theorem outText_printReport {i : Invocation} (h : i.json = false) (report : Report) :
    outText (printReport i report) = report.message ++ "\n" := by
  simp [printReport, h, shown]

theorem outText_printReport_json {i : Invocation} (h : i.json = true) (report : Report) :
    outText (printReport i report) = report.toJson.pretty ++ "\n" := by
  simp [printReport, h, shown]

theorem outText_printBatch {i : Invocation} (h : i.json = false) (path : String)
    (lines : List Batch.Line) (moment : Moment) :
    outText (printBatch i path lines moment) =
      String.join (lines.map fun l => s!"{l.number}: {l.pass.verdict.message}\n") ++
        (s!"{lines.length} checked, {Batch.accepted lines} accepted, " ++
          s!"{Batch.rejected lines} rejected ({fileName path})\n") := by
  have hline (l : Batch.Line) :
      outText (printLine i moment l) = s!"{l.number}: {l.pass.verdict.message}\n" := by
    simp [printLine, shown, Report.ofPass]
  have hjson : ¬ i.json = true := by simp [h]
  simp only [printBatch, if_neg hjson, outText_append, outText_flatMap, hline]
  simp [shown]

theorem outText_printBatch_json {i : Invocation} (h : i.json = true) (path : String)
    (lines : List Batch.Line) (moment : Moment) :
    outText (printBatch i path lines moment) =
      (Batch.toJson moment path lines).pretty ++ "\n" := by
  simp [printBatch, h, shown]

section Perform

variable {i : Invocation} {s : Surroundings} {settings : Settings}
  (hsettings : i.settings s = .ok settings)
include hsettings

theorem perform_argument {text : String} (hsource : i.source = .argument text)
    (line : Except ReadFault (List Char)) :
    let v := (check settings text).verdict
    (perform i s line).status = Answer.statusOf v ∧
    (i.json = false → ∀ moment,
      outText ((perform i s line).outputs moment) = v.message ++ "\n") := by
  simp only [perform, plan, hsettings, hsource]
  refine ⟨rfl, fun hjson moment => ?_⟩
  simp [Dialogue.conclude, Answer.after, single, outText_printReport hjson, Report.ofPass]

theorem perform_stdin (hsource : i.source = .stdin) (line : List Char) :
    let text := String.ofList (Text.trimEnd (fun c => c == '\r' || c == '\n') line)
    let v := (check settings text).verdict
    (perform i s (.ok line)).status = Answer.statusOf v ∧
    (i.json = false → ∀ moment,
      outText ((perform i s (.ok line)).outputs moment) = "> " ++ (v.message ++ "\n")) := by
  simp only [perform, plan, hsettings, hsource]
  refine ⟨rfl, fun hjson moment => ?_⟩
  simp [Dialogue.conclude, Answer.after, singleLine, single, outText_printReport hjson, shown,
    Report.ofPass]

theorem perform_file {path : String} {contents : List Char} {lines : List Batch.Line}
    (hsource : i.source = .file path) (hfile : s.file path = .ok contents)
    (hcheck : Batch.check settings contents = .ok lines)
    (line : Except ReadFault (List Char)) :
    (perform i s line).status = Answer.statusOf (Batch.verdict lines) ∧
    (i.json = false → ∀ moment, outText ((perform i s line).outputs moment) =
      String.join (lines.map fun l => s!"{l.number}: {l.pass.verdict.message}\n") ++
        (s!"{lines.length} checked, {Batch.accepted lines} accepted, " ++
          s!"{Batch.rejected lines} rejected ({fileName path})\n")) := by
  simp only [perform, plan, hsettings, hsource, hfile, batch, hcheck]
  refine ⟨rfl, fun hjson moment => ?_⟩
  rw [← outText_printBatch hjson path lines moment]
  simp [Dialogue.conclude, Answer.after]

end Perform

end Console
end ExprCheck
