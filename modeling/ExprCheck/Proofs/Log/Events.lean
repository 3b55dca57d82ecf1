import ExprCheck.Log.Service
import ExprCheck.Moment
import ExprCheck.Proofs.Json.OneLine
import ExprCheck.Proofs.Log.Details
import ExprCheck.Proofs.Report.RoundTrip
import ExprCheck.Proofs.Text.Bytes

/-!
What is kept of an event's message, and what an event's line of JSON tells of it
to a program that reads the line.
-/

namespace ExprCheck

open Json (Value)

/-! ## Members of an object -/

namespace Json

/-- What stands under a name in an object, where no name stands twice. -/
def Holds (fields : List (String × Value)) (name : String) (v : Option Value) : Prop :=
  (Value.object fields).record? [name] = some [v]

section Holds

variable {fields : List (String × Value)} (h : (fields.map (·.1)).Nodup) {name : String}
include h

theorem holds_lookup : Holds fields name (fields.lookup name) := by
  have hcount : fields.countP (·.1 == name) ≤ 1 := by
    have hle := List.nodup_iff_count_le_one.mp h name
    rwa [List.count, List.countP_map] at hle
  simp [Holds, Value.record?, hcount]

theorem holds_of_mem {v : Value} (hmem : (name, v) ∈ fields) : Holds fields name (some v) := by
  obtain ⟨before, after, rfl⟩ := List.append_of_mem hmem
  have hlookup : (before ++ (name, v) :: after).lookup name = some v := by
    refine List.lookup_eq_some_iff.mpr ⟨before, after, rfl, fun f hf => bne_iff_ne.mpr ?_⟩
    rintro rfl
    rw [List.map_append, List.map_cons] at h
    exact List.disjoint_of_nodup_append h (List.mem_map_of_mem hf) (List.mem_cons_self ..)
  exact hlookup ▸ holds_lookup h

theorem holds_none (hmem : ∀ v, (name, v) ∉ fields) : Holds fields name none := by
  have hlookup : fields.lookup name = none := by
    refine List.lookup_eq_none_iff.mpr fun f hf => bne_iff_ne.mpr ?_
    rintro rfl
    exact hmem f.2 hf
  exact hlookup ▸ holds_lookup h

end Holds
end Json

/-- The members under which a context stands in JSON hold the map that it keeps. -/
theorem Context.Keeps.holds {c : Context} {pairs : List (String × String)} (h : c.Keeps pairs)
    (key : String) :
    Json.Holds (Event.details c) key ((lastValue? pairs key).map .string) := by
  have hnodup : ((Event.details c).map (·.1)).Nodup := by
    rw [Event.details, List.map_map]
    exact h.sorted.nodup_keys
  cases hvalue : lastValue? pairs key with
  | some value =>
      have hmem : (key, value) ∈ c.pairs := (h.mem_iff key value).mpr hvalue
      exact Json.holds_of_mem hnodup (List.mem_map_of_mem hmem)
  | none =>
      refine Json.holds_none hnodup fun v hv => ?_
      obtain ⟨p, hp, hpv⟩ := List.mem_map.mp hv
      obtain ⟨rfl, rfl⟩ := Prod.mk.inj hpv
      rw [(h.mem_iff p.1 p.2).mp hp] at hvalue
      cases hvalue

theorem Moment.toNat_seconds (m : Moment) : m.seconds.toNat = m.nanos.toNat / nanosPerSecond := by
  rw [seconds, nanosPerSecond]
  omega

namespace Event

/-! ## Messages -/

/-- Whatever its kind, an event keeps a message of at most 10000 bytes, and of a
longer one the longest beginning of whole characters within 10000 bytes, marked
with three dots. The search for its end looks at four places at most. -/
theorem stored_message (code message : String) :
    ∀ e ∈ [error code message, warning message, warningUnder code message, success code message,
        info message, debug message],
      (Text.byteLength message.toList ≤ 10000 → e.message = message) ∧
      (10000 < Text.byteLength message.toList →
        ∃ q, Text.LongestWithin 10000 message.toList q ∧
          e.message = String.ofList q ++ "..." ∧
          10000 ≤ Text.byteLength e.message.toList ∧ Text.byteLength e.message.toList ≤ 10003 ∧
          ∃ steps ≤ 3, Text.boundaryBefore message.toList 10000 = 10000 - steps ∧
            (∀ k < steps, Text.isBoundary message.toList (10000 - k) = false) ∧
            Text.isBoundary message.toList (10000 - steps) = true ∧
            Text.takeBytes? (10000 - steps) message.toList = some q) := by
  intro e he
  have hmessage : e.message = String.ofList (Text.abridge 10000 message.toList) := by
    simp only [List.mem_cons, List.not_mem_nil, or_false] at he
    rcases he with rfl | rfl | rfl | rfl | rfl | rfl <;> rfl
  constructor
  · intro hshort
    rw [hmessage, Text.abridge, if_pos hshort, String.ofList_toList]
  · intro hlong
    obtain ⟨q, hq, steps, hsteps, hlength⟩ := Text.exists_steps hlong
    have hend : Text.boundaryBefore message.toList 10000 = 10000 - steps := by
      rw [hq.boundaryBefore_eq]
      omega
    have hcut : e.message.toList = q ++ ['.', '.', '.'] := by
      rw [hmessage, String.toList_ofList, hq.abridge_eq hlong]
    have hbytes : Text.byteLength e.message.toList = 10003 - steps := by
      have hdots : Text.byteLength ['.', '.', '.'] = 3 := by decide
      rw [hcut, Text.byteLength_append, hdots]
      omega
    refine ⟨q, hq, ?_, by omega, by omega, steps, hsteps, hend, fun k hk => ?_, ?_, ?_⟩
    · rw [hmessage, hq.abridge_eq hlong, String.ofList_append]
    · exact Text.not_isBoundary_of_boundaryBefore_lt (by omega) (Nat.sub_le ..)
    · exact hend ▸ Text.isBoundary_boundaryBefore message.toList 10000
    · exact hend ▸ hq.takeBytes?_eq

theorem stored_message_cut_in_character :
    let message := String.ofList (List.replicate 9999 'x' ++ ['\u00e9', 'y'])
    (info message ∈ [error "E001" message, warning message, warningUnder "E001" message,
      success "E001" message, info message, debug message] ∧
      10000 < Text.byteLength message.toList) ∧
      ∃ q, Text.LongestWithin 10000 message.toList q ∧
        (info message).message = String.ofList q ++ "..." := by
  intro message
  have hmem : info message ∈ [error "E001" message, warning message, warningUnder "E001" message,
      success "E001" message, info message, debug message] := by
    simp
  have hlong : 10000 < Text.byteLength message.toList := by
    have hend : Text.byteLength ['\u00e9', 'y'] = 3 := by decide
    have hlength := Text.length_le_byteLength (List.replicate 9999 'x')
    rw [List.length_replicate] at hlength
    rw [String.toList_ofList, Text.byteLength_append, hend]
    omega
  obtain ⟨q, hq, hmessage, -⟩ := (stored_message "E001" message _ hmem).2 hlong
  exact ⟨⟨hmem, hlong⟩, q, hq, hmessage⟩

/-! ## Lines of JSON -/

/-- The event with details added one after the other. -/
def withPairs (e : Event) (pairs : List (String × String)) : Event :=
  pairs.foldl (fun e p => e.withContext p.1 p.2) e

theorem withPairs_concat (e : Event) (pairs : List (String × String)) (p : String × String) :
    e.withPairs (pairs ++ [p]) = (e.withPairs pairs).withContext p.1 p.2 :=
  List.foldl_append ..

theorem withPairs_eq {e : Event} (he : e.context = {}) (pairs : List (String × String)) :
    e.withPairs pairs = { e with context := .ofList pairs } := by
  induction pairs using List.reverseRecOn with
  | nil =>
      rw [Context.ofList, List.foldl_nil, ← he]
      rfl
  | append_singleton pairs p ih => rw [withPairs_concat, ih, Context.ofList_concat, withContext]

def memberNames : List String :=
  ["category", "code", "context", "error_metadata", "level", "message", "severity", "span",
    "timestamp"]

theorem names_sublist (e : Event) : (e.members.map (·.1)).Sublist memberNames := by
  have hnames : memberNames = ["category", "code"] ++ ["context"] ++ ["error_metadata"]
      ++ ["level", "message", "severity"] ++ ["span"] ++ ["timestamp"] := rfl
  rw [hnames, members]
  simp only [List.map_append]
  refine .append (.append (.append (.append (.append (.refl _) ?context) ?metadata) (.refl _))
    ?span) (.refl _)
  case context =>
    split
    · exact List.nil_sublist _
    · exact .refl _
  case metadata =>
    split
    · exact .refl _
    · exact List.nil_sublist _
  case span =>
    cases e.span with
    | none => exact List.nil_sublist _
    | some span => exact .refl _

theorem nodup_names (e : Event) : (e.members.map (·.1)).Nodup :=
  e.names_sublist.nodup (by decide)

theorem wellFormed_toJson (e : Event) : e.toJson.WellFormed := by
  have hmetadata : (Value.object (metadata e.entry)).WellFormed :=
    .object (by simp [metadata, Value.WellFormed.string, Value.WellFormed.bool])
  have hplace (span : Span) : (Value.object (place span)).WellFormed :=
    .object (by simp [place, Value.wellFormed_ofNat])
  have hdetails : (Value.object (details e.context)).WellFormed := by
    refine .object fun f hf => ?_
    obtain ⟨p, -, rfl⟩ := List.mem_map.mp hf
    exact .string p.2
  refine .object ?_
  simp only [members, List.forall_mem_append]
  refine ⟨⟨⟨⟨⟨?_, ?_⟩, ?_⟩, ?_⟩, ?_⟩, ?_⟩
  · simp [Value.WellFormed.string]
  · split <;> simp [hdetails]
  · split <;> simp [hmetadata]
  · simp [Value.WellFormed.string]
  · split <;> simp [hplace]
  · simp [Value.wellFormed_ofNat]

/-- What the members of an object tell of an event at a second since the start of 1970
to which the details `pairs` were given: its fields as they are, what is known about its
code, and nothing else. -/
structure ToldBy (e : Event) (second : Nat) (pairs : List (String × String))
    (fields : List (String × Value)) : Prop where
  names : ∀ f ∈ fields, f.1 ∈ memberNames
  timestamp : Json.Holds fields "timestamp" (some (.ofNat second))
  level : Json.Holds fields "level" (some (.string e.level.name))
  code : Json.Holds fields "code" (some (.string e.code))
  message : Json.Holds fields "message" (some (.string e.message))
  category : Json.Holds fields "category" (some (.string e.entry.category))
  severity : Json.Holds fields "severity" (some (.string e.entry.severity.name))
  noMetadata : e.level ≠ .error → Json.Holds fields "error_metadata" none
  metadata : e.level = .error → ∃ members,
    Json.Holds fields "error_metadata" (some (.object members)) ∧
    Json.Holds members "description" (some (.string e.entry.description)) ∧
    Json.Holds members "recommended_action" (some (.string e.entry.action)) ∧
    Json.Holds members "recoverable" (some (.bool e.entry.recoverable))
  noSpan : e.span = none → Json.Holds fields "span" none
  span : ∀ span, e.span = some span → ∃ members,
    Json.Holds fields "span" (some (.object members)) ∧
    Json.Holds members "start_line" (some (.ofNat span.start.line)) ∧
    Json.Holds members "start_column" (some (.ofNat span.start.column)) ∧
    Json.Holds members "end_line" (some (.ofNat span.stop.line)) ∧
    Json.Holds members "end_column" (some (.ofNat span.stop.column))
  noContext : pairs = [] → Json.Holds fields "context" none
  context : pairs ≠ [] → ∃ members, Json.Holds fields "context" (some (.object members)) ∧
    ∀ key, Json.Holds members key ((lastValue? pairs key).map .string)

section Members

variable (e : Event) {name : String}

theorem holds_of_mem_members {v : Value} (h : (name, v) ∈ e.members) :
    Json.Holds e.members name (some v) :=
  Json.holds_of_mem e.nodup_names h

theorem holds_none_members (h : ∀ v, (name, v) ∉ e.members) : Json.Holds e.members name none :=
  Json.holds_none e.nodup_names h

theorem toldBy_members {c : Context} {pairs : List (String × String)} (h : c.Keeps pairs) :
    e.ToldBy e.time.toNat pairs { e with context := c }.members := by
  have hempty : c.isEmpty = true ↔ pairs = [] := by
    rw [← h.pairs_eq_nil_iff, Context.isEmpty, List.isEmpty_iff]
  refine
    { names := fun f hf => (names_sublist _).subset (List.mem_map_of_mem hf)
      timestamp := holds_of_mem_members _ (by simp [members])
      level := holds_of_mem_members _ (by simp [members])
      code := holds_of_mem_members _ (by simp [members])
      message := holds_of_mem_members _ (by simp [members])
      category := holds_of_mem_members _ (by simp [members, entry])
      severity := holds_of_mem_members _ (by simp [members, entry])
      noMetadata := fun hlevel => holds_none_members _ fun v hv => ?noMetadata
      metadata := fun hlevel =>
        ⟨metadata e.entry, holds_of_mem_members _ ?metadata, rfl, rfl, rfl⟩
      noSpan := fun hspan => holds_none_members _ fun v hv => ?noSpan
      span := fun span hspan =>
        ⟨place span, holds_of_mem_members _ ?span, rfl, rfl, rfl, rfl⟩
      noContext := fun hpairs => holds_none_members _ fun v hv => ?noContext
      context := fun hpairs => ⟨details c, holds_of_mem_members _ ?context, h.holds⟩ }
  case noMetadata => cases hspan : e.span <;> simp [members, isError, hlevel, hspan] at hv
  case metadata => simp [members, isError, entry, hlevel]
  case noSpan => simp [members, hspan] at hv
  case span => simp [members, hspan]
  case noContext => cases hspan : e.span <;> simp [members, hempty.mpr hpairs, hspan] at hv
  case context => simp [members, mt hempty.mp hpairs]

end Members

end Event
end ExprCheck
