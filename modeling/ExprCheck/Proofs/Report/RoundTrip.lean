import ExprCheck.Proofs.Json.RoundTrip
import ExprCheck.Report.Json

/-!
Reports are read back from their JSON field for field. A field that is left out
and one that is null both come back as nothing; numbers have to fit their words.
-/

namespace ExprCheck

open Json (Value)
open Number (wordBound halfWordBound)

namespace Json.Value

theorem wellFormed_ofNat (n : Nat) : (ofNat n).WellFormed :=
  .number (Numeral.wellFormed_ofNat n)

theorem nat?_ofNat {bound n : Nat} (h : n < bound) : (ofNat n).nat? bound = some n :=
  Numeral.natBelow?_ofNat h

section Optional

variable {α : Type} {f : Value → Option α} {g : α → Value}

theorem optional_some {x : α} (hnull : g x ≠ .null) (hread : f (g x) = some x) :
    optional f (some (g x)) = some (some x) := by
  rw [optional, hread, Option.map_some]
  exact hnull

theorem optional_ofOption {a : Option α} (hnull : ∀ x, g x ≠ .null)
    (hread : ∀ x ∈ a, f (g x) = some x) : optional f (some (ofOption g a)) = some a := by
  cases a with
  | none => rfl
  | some x => exact optional_some (hnull x) (hread x rfl)

theorem optional_map {a : Option α} (hnull : ∀ x, g x ≠ .null)
    (hread : ∀ x ∈ a, f (g x) = some x) : optional f (a.map g) = some a := by
  cases a with
  | none => rfl
  | some x => exact optional_some (hnull x) (hread x rfl)

theorem list?_array_map (hread : ∀ x, f (g x) = some x) (xs : List α) :
    (Value.array (xs.map g)).list? f = some xs := by
  induction xs with
  | nil => rfl
  | cons x xs ih =>
      rw [list?] at ih
      simp [list?, List.mapM_cons, hread, ih]

theorem wellFormed_ofOption (h : ∀ x, (g x).WellFormed) (a : Option α) :
    (ofOption g a).WellFormed := by
  cases a with
  | none => exact .null
  | some x => exact h x

theorem wellFormed_array_map (h : ∀ x, (g x).WellFormed) (xs : List α) :
    (array (xs.map g)).WellFormed := by
  refine .array fun v hv => ?_
  obtain ⟨x, _, rfl⟩ := List.mem_map.mp hv
  exact h x

theorem wellFormed_optionalField (h : ∀ x, (g x).WellFormed) (name : String) (a : Option α) :
    ∀ field ∈ Report.optionalField name g a, field.2.WellFormed := by
  cases a with
  | none => exact nofun
  | some x =>
      intro field hfield
      rw [List.mem_singleton.mp hfield]
      exact h x

end Optional

end Json.Value

/-! ## Numbers that fit their words -/

structure Position.Fits (p : Position) : Prop where
  offset : p.offset < wordBound
  line : p.line < halfWordBound
  column : p.column < halfWordBound

structure Span.Fits (s : Span) : Prop where
  start : s.start.Fits
  stop : s.stop.Fits

structure Tally.Fits (m : Tally) : Prop where
  total : m.total < wordBound
  integers : m.integers < wordBound
  operators : m.operators < wordBound
  parens : m.parens < wordBound
  invalid : m.invalid < wordBound
  blanks : m.blanks < wordBound
  longestInteger : m.longestInteger < wordBound
  longIntegers : m.longIntegers < wordBound

structure Report.Fits (r : Report) : Prop where
  error : ∀ d ∈ r.error, ∀ s ∈ d.span, s.Fits
  tokenCount : r.tokenCount < wordBound
  tally : ∀ m ∈ r.tally, m.Fits

/-! ## Reading what was written -/

theorem Position.ofJson?_toJson {p : Position} (h : p.Fits) : ofJson? p.toJson = some p := by
  have hrecord : p.toJson.record? fieldNames =
      some [some (.ofNat p.offset), some (.ofNat p.line), some (.ofNat p.column)] := rfl
  rw [ofJson?, hrecord]
  dsimp only [Option.bind_eq_bind, Option.bind_some]
  rw [Value.nat?_ofNat h.offset, Value.nat?_ofNat h.line, Value.nat?_ofNat h.column]
  rfl

theorem Span.ofJson?_toJson {s : Span} (h : s.Fits) : ofJson? s.toJson = some s := by
  have hrecord : s.toJson.record? fieldNames = some [some s.start.toJson, some s.stop.toJson] :=
    rfl
  rw [ofJson?, hrecord]
  dsimp only [Option.bind_eq_bind, Option.bind_some]
  rw [Position.ofJson?_toJson h.start, Position.ofJson?_toJson h.stop]
  rfl

theorem Category.ofJson?_toJson (c : Category) : ofJson? c.toJson = some c := by
  cases c <;> rfl

theorem Verdict.ofLabel?_label (v : Verdict) : ofLabel? v.label = some v := by
  cases v <;> rfl

theorem Tally.ofJson?_toJson {m : Tally} (h : m.Fits) : ofJson? m.toJson = some m := by
  have hrecord : m.toJson.record? fieldNames =
      some [some (.ofNat m.total), some (.ofNat m.integers), some (.ofNat m.operators),
        some (.ofNat m.parens), some (.ofNat m.invalid), some (.ofNat m.blanks),
        some (.ofNat m.longestInteger), some (.ofNat m.longIntegers)] := rfl
  rw [ofJson?, hrecord]
  -- Each bind lies in the one before, and simp would go through the inner ones again and again.
  dsimp only [Option.bind_eq_bind, Option.bind_some]
  rw [Value.nat?_ofNat h.total, Value.nat?_ofNat h.integers, Value.nat?_ofNat h.operators,
    Value.nat?_ofNat h.parens, Value.nat?_ofNat h.invalid, Value.nat?_ofNat h.blanks,
    Value.nat?_ofNat h.longestInteger, Value.nat?_ofNat h.longIntegers]
  rfl

theorem Diagnosis.ofJson?_toJson {d : Diagnosis} (h : ∀ s ∈ d.span, s.Fits) :
    ofJson? d.toJson = some d := by
  have hrecord : d.toJson.record? fieldNames =
      some [some (.string d.code), some (.string d.message), some (.string d.description),
        some (.ofOption Span.toJson d.span), some (.array (d.expected.map Category.toJson)),
        some (.ofOption Category.toJson d.found)] := rfl
  have hspan : Value.optional Span.ofJson? (some (.ofOption Span.toJson d.span)) = some d.span :=
    Value.optional_ofOption nofun fun s hs => Span.ofJson?_toJson (h s hs)
  have hfound : Value.optional Category.ofJson? (some (.ofOption Category.toJson d.found)) =
      some d.found :=
    Value.optional_ofOption nofun fun c _ => c.ofJson?_toJson
  rw [ofJson?, hrecord]
  dsimp only [Option.bind_eq_bind, Option.bind_some, Value.string?]
  rw [hspan, Value.list?_array_map Category.ofJson?_toJson, hfound]
  rfl

/-! ## Well-formedness -/

theorem Position.wellFormed_toJson (p : Position) : p.toJson.WellFormed :=
  .object (by simp [Value.wellFormed_ofNat])

theorem Span.wellFormed_toJson (s : Span) : s.toJson.WellFormed :=
  .object (by simp [Position.wellFormed_toJson])

theorem Category.wellFormed_toJson (c : Category) : c.toJson.WellFormed :=
  .string c.label

theorem Tally.wellFormed_toJson (m : Tally) : m.toJson.WellFormed :=
  .object (by simp [Value.wellFormed_ofNat])

theorem Diagnosis.wellFormed_toJson (d : Diagnosis) : d.toJson.WellFormed := by
  have hspan := Value.wellFormed_ofOption Span.wellFormed_toJson d.span
  have hexpected := Value.wellFormed_array_map Category.wellFormed_toJson d.expected
  have hfound := Value.wellFormed_ofOption Category.wellFormed_toJson d.found
  exact .object (by simp [Value.WellFormed.string, hspan, hfound, hexpected])

namespace Report

theorem wellFormed_toJson {r : Report} (h : (Number.numeral r.milliseconds).WellFormed) :
    r.toJson.WellFormed := by
  have herror := Value.wellFormed_optionalField Diagnosis.wellFormed_toJson "error" r.error
  have htally := Value.wellFormed_optionalField Tally.wellFormed_toJson "lexical_metrics" r.tally
  refine .object ?_
  simp only [jsonFields, List.forall_mem_append, List.forall_mem_cons]
  exact ⟨⟨⟨⟨⟨.string _, .string _, .string _, nofun⟩, herror⟩, Value.wellFormed_ofNat _, nofun⟩,
    htally⟩, .number h, .string _, nofun⟩

theorem ofJson?_toJson {r : Report} (h : r.Fits)
    (hmilliseconds : Number.float? (Number.numeral r.milliseconds) = some r.milliseconds)
    (hchecked : Instant.parse? r.checkedAt.text.toList = some r.checkedAt) :
    ofJson? r.toJson = some r := by
  have hrecord : r.toJson.record? fieldNames =
      some [some (.string r.input), some (.string r.verdict.label), some (.string r.message),
        r.error.map Diagnosis.toJson, some (.ofNat r.tokenCount), r.tally.map Tally.toJson,
        some (.number (Number.numeral r.milliseconds)), some (.string r.checkedAt.text)] := by
    obtain ⟨input, verdict, message, error, tokenCount, tally, milliseconds, checkedAt⟩ := r
    cases error <;> cases tally <;> rfl
  have herror : Value.optional Diagnosis.ofJson? (r.error.map Diagnosis.toJson) = some r.error :=
    Value.optional_map nofun fun d hd => Diagnosis.ofJson?_toJson (h.error d hd)
  have htally : Value.optional Tally.ofJson? (r.tally.map Tally.toJson) = some r.tally :=
    Value.optional_map nofun fun m hm => Tally.ofJson?_toJson (h.tally m hm)
  rw [ofJson?, hrecord]
  dsimp only [Option.bind_eq_bind, Option.bind_some, Value.string?, Value.name?]
  rw [Verdict.ofLabel?_label, herror, Value.nat?_ofNat h.tokenCount, htally, hmilliseconds,
    hchecked]
  rfl

/-- No time at all is written with a zero on both sides of the point. -/
theorem wellFormed_numeral_zero : (Number.numeral 0.0).WellFormed := by
  have hnumeral : Number.numeral 0.0 = { whole := ['0'], fraction := ['0'] } := rfl
  rw [hnumeral]
  have hdigits : (['0'] ++ ['0']).all Char.isDigit = true := by decide
  exact ⟨by decide, by decide, List.all_eq_true.mp hdigits, nofun⟩

theorem float?_numeral_zero : Number.float? (Number.numeral 0.0) = some 0.0 := by
  have hscaled : Number.scaleDown (Nat.toFloat 0) 1 = 0.0 := by
    rw [Number.scaleDown]
    rfl
  exact congrArg some hscaled

/-- A report whose numbers fit their words, with no time taken and checked at the
epoch, is read back field for field from its compact and from its pretty text. -/
theorem parse?_written {r : Report} (h : r.Fits) (hmilliseconds : r.milliseconds = 0.0)
    (hchecked : r.checkedAt = .epoch) :
    parse? r.toJson.compact = some r ∧ parse? r.toJson.pretty = some r := by
  have hwellFormed : r.toJson.WellFormed :=
    wellFormed_toJson (hmilliseconds ▸ wellFormed_numeral_zero)
  have hread : ofJson? r.toJson = some r :=
    ofJson?_toJson h (hmilliseconds ▸ float?_numeral_zero) (hchecked ▸ rfl)
  constructor
  · rw [parse?, Value.compact, Json.parse?_write hwellFormed, Option.bind_some, hread]
  · rw [parse?, Value.pretty, Json.parse?_write hwellFormed, Option.bind_some, hread]

/-- The greatest numbers, a field that is null, an empty string, and characters that are
escaped in each of the ways or not at all. -/
theorem parse?_written_rejected :
    let place : Position := ⟨18446744073709551615, 4294967295, 1⟩
    let diagnosis : Diagnosis :=
      { code := "E040", message := "\"\\\n\t\u0001", description := "\u00e9\u2028"
        span := some ⟨place, .start⟩, expected := [.integer, .openParen], found := none }
    let r : Report :=
      { input := "1 + \u0000/\u007f", verdict := .rejected, message := "", error := some diagnosis
        tokenCount := 18446744073709551615, tally := some { total := 18446744073709551615 }
        milliseconds := 0.0, checkedAt := .epoch }
    (r.Fits ∧ r.milliseconds = 0.0 ∧ r.checkedAt = .epoch) ∧
      parse? r.toJson.compact = some r ∧ parse? r.toJson.pretty = some r := by
  intro place diagnosis r
  have hplace : place.Fits := ⟨by decide, by decide, by decide⟩
  have hfits : r.Fits := by
    refine ⟨?_, by decide, ?_⟩
    · rintro d ⟨⟩ s ⟨⟩
      exact ⟨hplace, by decide, by decide, by decide⟩
    · rintro m ⟨⟩
      constructor <;> decide
  exact ⟨⟨hfits, rfl, rfl⟩, parse?_written hfits rfl rfl⟩

end Report

end ExprCheck
