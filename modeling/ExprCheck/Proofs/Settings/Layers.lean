import ExprCheck.Proofs.Settings.RoundTrip

/-!
Settings in three layers. A setting is what the document says under its key, else what its
variable says if that can be read, and else what is built in. No other key and no other variable
bears on it, so that nine settings are read independently of each other.
-/

namespace ExprCheck

open Toml (Item Table)

/-! Values as they are spelled in variables -/

/-- ASCII digits, with or without a plus in front, for a number of 64 bits. -/
def Environment.SpellsSize (text : String) (n : Nat) : Prop :=
  ∃ digits, digits ≠ [] ∧ (∀ c ∈ digits, c.isDigit = true) ∧
    (text.toList = digits ∨ text.toList = '+' :: digits) ∧
    Text.decimal digits = n ∧ n < Number.wordBound

/-- The names of a level in lower case, and its rank. -/
def Level.spellings : Level → List String
  | error => ["error", "0"]
  | warning => ["warning", "warn", "1"]
  | info => ["info", "2"]
  | debug => ["debug", "3"]

theorem Environment.bool?_eq_some_iff {text : String} {b : Bool} :
    bool? text = some b ↔ text = toString b := by
  constructor
  · unfold bool?
    split <;> rintro h <;> cases h <;> rfl
  · rintro rfl
    cases b <;> rfl

theorem Environment.size?_eq_of_digits {text : String} {digits : List Char}
    (h : text.toList = digits ∧ digits.head? ≠ some '+' ∨ text.toList = '+' :: digits) :
    size? text =
      if digits ≠ [] ∧ digits.all Char.isDigit then Text.decimalBelow? Number.wordBound digits
      else none := by
  obtain ⟨rfl, hhead⟩ | h := h
  · unfold size?
    dsimp only
    split
    · next hplus => exact absurd (by rw [hplus]; rfl) hhead
    · rfl
  · rw [size?, h]
    rfl

theorem Environment.size?_eq_some_iff {text : String} {n : Nat} :
    size? text = some n ↔ SpellsSize text n := by
  constructor
  · intro h
    obtain ⟨digits, hdigits⟩ : ∃ digits : List Char,
        text.toList = digits ∧ digits.head? ≠ some '+' ∨ text.toList = '+' :: digits := by
      by_cases hhead : text.toList.head? = some '+'
      · obtain ⟨digits, hplus⟩ := List.head?_eq_some_iff.mp hhead
        exact ⟨digits, .inr hplus⟩
      · exact ⟨text.toList, .inl ⟨rfl, hhead⟩⟩
    rw [size?_eq_of_digits hdigits] at h
    split at h
    · next hds =>
        obtain ⟨hne, hall⟩ := hds
        obtain ⟨hn, hlt⟩ := Text.decimalBelow?_eq_some_iff.mp h
        exact ⟨digits, hne, List.all_eq_true.mp hall, hdigits.imp_left And.left, hn, hlt⟩
    · cases h
  · rintro ⟨digits, hne, hall, htext, hn, hlt⟩
    have hhead : digits.head? ≠ some '+' := by
      intro hplus
      exact absurd (hall '+' (List.mem_of_mem_head? hplus)) (by decide)
    rw [size?_eq_of_digits (htext.imp_left fun h => ⟨h, hhead⟩),
      if_pos ⟨hne, List.all_eq_true.mpr hall⟩]
    exact Text.decimalBelow?_eq_some_iff.mpr ⟨hn, hlt⟩

theorem Level.ofLabel?_eq_some_iff {s : String} {l : Level} :
    ofLabel? s = some l ↔ s = l.label := by
  constructor
  · intro h
    have hlabel := List.find?_some h
    exact (beq_iff_eq.mp hlabel).symm
  · rintro rfl
    exact ofLabel?_label l

theorem Level.parse?_eq_some_iff {text : String} {l : Level} :
    parse? text = some l ↔ String.ofList (text.toList.map Char.toLower) ∈ l.spellings := by
  constructor
  · unfold parse?
    split <;> rintro h <;> cases h <;> simp [spellings, *]
  · intro h
    unfold parse?
    cases l <;> simp only [spellings, List.mem_cons, List.not_mem_nil, or_false] at h
    case error => obtain h | h := h <;> rw [h] <;> rfl
    case warning => obtain h | h | h := h <;> rw [h] <;> rfl
    case info => obtain h | h := h <;> rw [h] <;> rfl
    case debug => obtain h | h := h <;> rw [h] <;> rfl

/-! Names as they are written in documents -/

namespace Toml.Item

/-- Nothing stands under an item: an array or a table without any items. -/
inductive Empty : Item → Prop where
  | array : Empty (.array [])
  | inline : Empty (.inline [])
  | table (origin : Origin) : Empty (.table origin [])

/-- One of several names is written as a string, or as the only key of a table with nothing
under it. -/
inductive Names (name : String) : Item → Prop where
  | string : Names name (.string name)
  | inline {item : Item} : item.Empty → Names name (.inline [(name, item)])
  | table {item : Item} (origin : Origin) : item.Empty → Names name (.table origin [(name, item)])

theorem isEmpty_iff {item : Item} : item.isEmpty = true ↔ item.Empty := by
  constructor
  · intro h
    unfold isEmpty at h
    split at h
    · exact .array
    · exact .inline
    · exact .table _
    · cases h
  · rintro (_ | _ | _) <;> rfl

theorem name?_eq_some_iff {item : Item} {name : String} :
    item.name? = some name ↔ item.Names name := by
  constructor
  · intro h
    unfold name? at h
    split at h
    · cases h
      exact .string
    · next item =>
        obtain ⟨hempty, hname⟩ := Option.ite_none_right_eq_some.mp h
        cases hname
        exact .inline (isEmpty_iff.mp hempty)
    · next item =>
        obtain ⟨hempty, hname⟩ := Option.ite_none_right_eq_some.mp h
        cases hname
        exact .table _ (isEmpty_iff.mp hempty)
    · cases h
  · rintro (_ | hempty | ⟨origin, hempty⟩)
    · rfl
    · exact if_pos (isEmpty_iff.mpr hempty)
    · exact if_pos (isEmpty_iff.mpr hempty)

end Toml.Item

/-! Settings and where they come from -/

/-- A key of a group in a document, and the variable that stands in for it. -/
structure Place where
  group : String
  key : String
  variableName : String
deriving DecidableEq, Repr

/-- What a document has under a key. -/
def Place.item? (p : Place) (document : Table) : Option Item :=
  match document.lookup p.group with
  | some (.table _ entries) | some (.inline entries) => entries.lookup p.key
  | _ => none

/-- A setting: where it is found, how its values are written in a document and spelled in a
variable, and what is built in. -/
structure Source (α : Type) where
  place : Place
  Written : Item → α → Prop
  Spelled : String → α → Prop
  builtin : α

namespace Source

def flag (place : Place) (builtin : Bool) : Source Bool where
  place
  Written item b := item = .boolean b
  Spelled text b := text = toString b
  builtin

def size (place : Place) (builtin : Nat) : Source Nat where
  place
  Written item n := item = .integer n
  Spelled := Environment.SpellsSize
  builtin

def level (place : Place) (builtin : Level) : Source Level where
  place
  Written item l := item.Names l.label
  Spelled text l := String.ofList (text.toList.map Char.toLower) ∈ l.spellings
  builtin

def detailed : Source Bool :=
  flag ⟨"lexical", "collect_detailed_metrics", "SEL_LEXICAL_DETAILED_METRICS"⟩ true

def traceTokens : Source Bool :=
  flag ⟨"lexical", "trace_tokens", "SEL_LEXICAL_TRACE_TOKENS"⟩ false

def maxInputLength : Source Nat :=
  size ⟨"lexical", "max_input_length", "SEL_LEXICAL_MAX_INPUT_LENGTH"⟩ 1048576

def maxDepth : Source Nat :=
  size ⟨"syntax", "max_parse_depth", "SEL_SYNTAX_MAX_PARSE_DEPTH"⟩ 1024

def traceProductions : Source Bool :=
  flag ⟨"syntax", "trace_productions", "SEL_SYNTAX_TRACE_PRODUCTIONS"⟩ false

def structured : Source Bool :=
  flag ⟨"logging", "use_structured_logging", "SEL_LOGGING_USE_STRUCTURED"⟩ false

def console : Source Bool :=
  flag ⟨"logging", "enable_console_logging", "SEL_LOGGING_ENABLE_CONSOLE"⟩ true

def minLevel : Source Level :=
  level ⟨"logging", "min_log_level", "SEL_LOGGING_MIN_LEVEL"⟩ .warning

def timing : Source Bool :=
  flag ⟨"logging", "log_performance_events", "SEL_LOGGING_LOG_PERFORMANCE"⟩ false

def places : List Place :=
  [detailed.place, traceTokens.place, maxInputLength.place, maxDepth.place,
   traceProductions.place, structured.place, console.place, minLevel.place, timing.place]

variable {α : Type} {s : Source α} {env env' : Environment} {document : Table} {v : α}

/-- Whatever is written under the key is a value. -/
def Fits (s : Source α) (document : Table) : Prop :=
  ∀ item, s.place.item? document = some item → ∃ v, s.Written item v

/-- The value of a setting by its layers. -/
inductive Gives (s : Source α) (env : Environment) (document : Table) : α → Prop where
  | written {item : Item} {v : α} : s.place.item? document = some item → s.Written item v →
      Gives s env document v
  | spelled {text : String} {v : α} : s.place.item? document = none →
      env s.place.variableName = some text → s.Spelled text v → Gives s env document v
  | builtin : s.place.item? document = none →
      (∀ text, env s.place.variableName = some text → ∀ v, ¬ s.Spelled text v) →
      Gives s env document s.builtin

/-- The variable is not looked at where the document has the key. -/
theorem Gives.congr (h : s.Gives env document v)
    (henv : s.place.item? document = none →
      env' s.place.variableName = env s.place.variableName) : s.Gives env' document v := by
  cases h with
  | written hitem hv => exact .written hitem hv
  | spelled hitem htext hv => exact .spelled hitem ((henv hitem).trans htext) hv
  | builtin hitem hno =>
      exact .builtin hitem fun text htext => hno text ((henv hitem).symm.trans htext)

theorem gives_iff_written {item : Item} (hitem : s.place.item? document = some item) :
    s.Gives env document v ↔ s.Written item v := by
  constructor
  · intro h
    cases h with
    | written hother hv =>
        obtain rfl := Option.some.inj (hitem.symm.trans hother)
        exact hv
    | spelled hno | builtin hno =>
        rw [hitem] at hno
        cases hno
  · exact .written hitem

theorem gives_iff_unwritten (hitem : s.place.item? document = none) :
    s.Gives env document v ↔
      (∃ text, env s.place.variableName = some text ∧ s.Spelled text v) ∨
      s.builtin = v ∧ ∀ text, env s.place.variableName = some text → ∀ w, ¬ s.Spelled text w := by
  constructor
  · intro h
    cases h with
    | written hsome =>
        rw [hitem] at hsome
        cases hsome
    | spelled _ htext hv => exact .inl ⟨_, htext, hv⟩
    | builtin _ hno => exact .inr ⟨rfl, hno⟩
  · rintro (⟨text, htext, hv⟩ | ⟨rfl, hno⟩)
    · exact .spelled hitem htext hv
    · exact .builtin hitem hno

theorem Gives.fits (h : s.Gives env document v) : s.Fits document :=
  fun _ hitem => ⟨v, (gives_iff_written hitem).mp h⟩

/-- The functions that read a setting's values and nothing else. -/
structure ReadBy (s : Source α) (read : Item → Option α) (parse : String → Option α) : Prop where
  read_iff : ∀ item v, read item = some v ↔ s.Written item v
  parse_iff : ∀ text v, parse text = some v ↔ s.Spelled text v

variable {read : Item → Option α} {parse : String → Option α}

theorem ReadBy.gives_written (h : s.ReadBy read parse) {item : Item} {w : α}
    (hitem : s.place.item? document = some item) (hread : read item = some w) :
    s.Gives env document v ↔ w = v := by
  rw [gives_iff_written hitem, ← h.read_iff, hread, Option.some.injEq]

theorem ReadBy.gives_unwritten (h : s.ReadBy read parse)
    (hitem : s.place.item? document = none) :
    s.Gives env document v ↔
      ((env s.place.variableName).bind parse).getD s.builtin = v := by
  simp only [gives_iff_unwritten hitem, ← h.parse_iff]
  cases htext : env s.place.variableName with
  | none => simp
  | some text => cases hparse : parse text <;> simp [hparse]

/-- A setting whose document fits is read, and reading follows the layers. -/
theorem Fits.exists_setting (hfits : s.Fits document) (h : s.ReadBy read parse) :
    ∃ o, setting read (s.place.item? document) = some o ∧ ∀ env v, s.Gives env document v ↔
      (o <|> (env s.place.variableName).bind parse).getD s.builtin = v := by
  cases hitem : s.place.item? document with
  | some item =>
      obtain ⟨w, hw⟩ := hfits item hitem
      have hread : read item = some w := (h.read_iff item w).mpr hw
      exact ⟨some w, congrArg (Option.map some) hread, fun env v => h.gives_written hitem hread⟩
  | none => exact ⟨none, rfl, fun env v => h.gives_unwritten hitem⟩

theorem flag_readBy (place : Place) (builtin : Bool) :
    (flag place builtin).ReadBy Item.boolean? Environment.bool? where
  read_iff item b := by cases item <;> simp [Item.boolean?, flag]
  parse_iff _ _ := Environment.bool?_eq_some_iff

theorem size_readBy (place : Place) (builtin : Nat) :
    (size place builtin).ReadBy Item.size? Environment.size? where
  read_iff item n := by
    cases item with
    | integer i =>
        simp only [Item.size?, size, Item.integer.injEq]
        split <;> simp <;> omega
    | _ => simp [Item.size?, size]
  parse_iff _ _ := Environment.size?_eq_some_iff

theorem level_readBy (place : Place) (builtin : Level) :
    (level place builtin).ReadBy Item.level? Level.parse? where
  read_iff item l := by
    simp only [Item.level?, level, Option.bind_eq_some_iff, Level.ofLabel?_eq_some_iff,
      exists_eq_right, Item.name?_eq_some_iff]
  parse_iff _ _ := Level.parse?_eq_some_iff

end Source

/-! Documents of tables -/

def Toml.Item.IsTable : Item → Prop
  | table .. | inline _ => True
  | _ => False

theorem Overrides.groupOf_of_table {document : Table} {group : String}
    (h : ∀ item, document.lookup group = some item → item.IsTable) (places : List Place)
    (hp : ∀ p ∈ places, p.group = group) :
    groupOf document group (places.map (·.key)) = some (places.map (·.item? document)) := by
  have hitems (entries : Table)
      (hentries : ∀ p ∈ places, p.item? document = entries.lookup p.key) :
      (places.map (·.key)).map (fun name => entries.lookup name) =
        places.map (·.item? document) := by
    rw [List.map_map]
    exact List.map_congr_left fun p hp => (hentries p hp).symm
  unfold groupOf
  cases hgroup : document.lookup group with
  | none =>
      refine congrArg some (hitems [] fun p hmem => ?_)
      rw [Place.item?, hp p hmem, hgroup]
      rfl
  | some item =>
      cases item with
      | table origin entries | inline entries =>
          exact congrArg some (hitems entries fun p hmem => by rw [Place.item?, hp p hmem, hgroup])
      | _ => exact (h _ hgroup).elim

/-- A document of the expected shape. Each of the three groups is a table if it is there, and each
of the nine keys has a value if it is there; other keys may hold anything. -/
structure Shaped (document : Table) : Prop where
  groups : ∀ group ∈ ["lexical", "syntax", "logging"],
    ∀ item, document.lookup group = some item → item.IsTable
  detailed : Source.detailed.Fits document
  traceTokens : Source.traceTokens.Fits document
  maxInputLength : Source.maxInputLength.Fits document
  maxDepth : Source.maxDepth.Fits document
  traceProductions : Source.traceProductions.Fits document
  structured : Source.structured.Fits document
  console : Source.console.Fits document
  minLevel : Source.minLevel.Fits document
  timing : Source.timing.Fits document

namespace Settings

/-- Each setting by its own layers. -/
structure Layered (env : Environment) (document : Table) (s : Settings) : Prop where
  detailed : Source.detailed.Gives env document s.scanning.detailed
  traceTokens : Source.traceTokens.Gives env document s.scanning.traceTokens
  maxInputLength : Source.maxInputLength.Gives env document s.scanning.maxInputLength
  maxDepth : Source.maxDepth.Gives env document s.grammar.maxDepth
  traceProductions : Source.traceProductions.Gives env document s.grammar.traceProductions
  structured : Source.structured.Gives env document s.log.structured
  console : Source.console.Gives env document s.log.console
  minLevel : Source.minLevel.Gives env document s.log.level
  timing : Source.timing.Gives env document s.log.timing

variable {env env' : Environment} {document : Table} {s : Settings}

theorem Layered.congr (h : Layered env document s)
    (henv : ∀ p ∈ Source.places, p.item? document = none →
      env' p.variableName = env p.variableName) : Layered env' document s := by
  simp only [Source.places, List.forall_mem_cons] at henv
  obtain ⟨h1, h2, h3, h4, h5, h6, h7, h8, h9, -⟩ := henv
  exact ⟨h.detailed.congr h1, h.traceTokens.congr h2, h.maxInputLength.congr h3,
    h.maxDepth.congr h4, h.traceProductions.congr h5, h.structured.congr h6,
    h.console.congr h7, h.minLevel.congr h8, h.timing.congr h9⟩

theorem Layered.shaped (h : Layered env document s)
    (hgroups : ∀ group ∈ ["lexical", "syntax", "logging"],
      ∀ item, document.lookup group = some item → item.IsTable) : Shaped document :=
  ⟨hgroups, h.detailed.fits, h.traceTokens.fits, h.maxInputLength.fits, h.maxDepth.fits,
    h.traceProductions.fits, h.structured.fits, h.console.fits, h.minLevel.fits, h.timing.fits⟩

/-- A document of the expected shape is read, and what it sets leads to the layered settings. -/
theorem exists_overrides (h : Shaped document) :
    ∃ o, Overrides.ofDocument? document = some o ∧
      ∀ env s, Layered env document s ↔ resolve env o = s := by
  obtain ⟨detailed, hdetailed, hd⟩ := h.detailed.exists_setting (Source.flag_readBy ..)
  obtain ⟨traceTokens, htokens, ht⟩ := h.traceTokens.exists_setting (Source.flag_readBy ..)
  obtain ⟨maxInputLength, hinput, hi⟩ := h.maxInputLength.exists_setting (Source.size_readBy ..)
  obtain ⟨maxDepth, hdepth, hm⟩ := h.maxDepth.exists_setting (Source.size_readBy ..)
  obtain ⟨traceProductions, hproductions, hp⟩ :=
    h.traceProductions.exists_setting (Source.flag_readBy ..)
  obtain ⟨structured, hstructured, hs⟩ := h.structured.exists_setting (Source.flag_readBy ..)
  obtain ⟨console, hconsole, hc⟩ := h.console.exists_setting (Source.flag_readBy ..)
  obtain ⟨level, hlevel, hl⟩ := h.minLevel.exists_setting (Source.level_readBy ..)
  obtain ⟨timing, htiming, htm⟩ := h.timing.exists_setting (Source.flag_readBy ..)
  have hscanning : Overrides.groupOf document "lexical" Overrides.scanningNames =
      some [Source.detailed.place.item? document, Source.traceTokens.place.item? document,
        Source.maxInputLength.place.item? document] :=
    Overrides.groupOf_of_table (h.groups "lexical" (by simp))
      [Source.detailed.place, Source.traceTokens.place, Source.maxInputLength.place] (by decide)
  have hgrammar : Overrides.groupOf document "syntax" Overrides.grammarNames =
      some [Source.maxDepth.place.item? document, Source.traceProductions.place.item? document] :=
    Overrides.groupOf_of_table (h.groups "syntax" (by simp))
      [Source.maxDepth.place, Source.traceProductions.place] (by decide)
  have hlog : Overrides.groupOf document "logging" Overrides.logNames =
      some [Source.structured.place.item? document, Source.console.place.item? document,
        Source.minLevel.place.item? document, Source.timing.place.item? document] :=
    Overrides.groupOf_of_table (h.groups "logging" (by simp))
      [Source.structured.place, Source.console.place, Source.minLevel.place, Source.timing.place]
      (by decide)
  refine ⟨⟨detailed, traceTokens, maxInputLength, maxDepth, traceProductions, structured, console,
    level, timing⟩, ?_, fun env s => ⟨fun hlayered => ?_, ?_⟩⟩
  · rw [Overrides.ofDocument?, hscanning, hgrammar, hlog]
    dsimp only [Option.bind_eq_bind, Option.bind_some]
    rw [hdetailed, htokens, hinput, hdepth, hproductions, hstructured, hconsole, hlevel, htiming]
    rfl
  · obtain ⟨⟨d, t, i⟩, ⟨m, p⟩, ⟨st, c, l, tm⟩⟩ := s
    obtain rfl := (hd env d).mp hlayered.detailed
    obtain rfl := (ht env t).mp hlayered.traceTokens
    obtain rfl := (hi env i).mp hlayered.maxInputLength
    obtain rfl := (hm env m).mp hlayered.maxDepth
    obtain rfl := (hp env p).mp hlayered.traceProductions
    obtain rfl := (hs env st).mp hlayered.structured
    obtain rfl := (hc env c).mp hlayered.console
    obtain rfl := (hl env l).mp hlayered.minLevel
    obtain rfl := (htm env tm).mp hlayered.timing
    rfl
  · rintro rfl
    exact ⟨(hd env _).mpr rfl, (ht env _).mpr rfl, (hi env _).mpr rfl, (hm env _).mpr rfl,
      (hp env _).mpr rfl, (hs env _).mpr rfl, (hc env _).mpr rfl, (hl env _).mpr rfl,
      (htm env _).mpr rfl⟩

theorem validate_eq_ok_iff :
    s.validate = .ok () ↔ s.scanning.maxInputLength ≤ Limits.inputLength ∧
      1 ≤ s.grammar.maxDepth ∧ s.grammar.maxDepth ≤ Limits.depth := by
  unfold validate
  split
  · simp
    omega
  · split
    · simp
      omega
    · split
      · simp
        omega
      · simp
        omega

/-- What is used is what is set, if that need not be kept within a limit. -/
theorem limits_eq_iff :
    s.scanning.inputLimit = s.scanning.maxInputLength ∧ s.grammar.depthLimit = s.grammar.maxDepth ↔
      s.scanning.maxInputLength ≤ Limits.inputLength ∧
        1 ≤ s.grammar.maxDepth ∧ s.grammar.maxDepth ≤ Limits.depth := by
  have hlimit : 1 ≤ Limits.depth := by decide
  unfold ScanSettings.inputLimit GrammarSettings.depthLimit
  omega

theorem validate_eq_ok_iff_limits_eq :
    s.validate = .ok () ↔ s.scanning.inputLimit = s.scanning.maxInputLength ∧
      s.grammar.depthLimit = s.grammar.maxDepth :=
  validate_eq_ok_iff.trans limits_eq_iff.symm

theorem ofText_of_parse {text : List Char} {o : Overrides} (h : Toml.parse text = .ok document)
    (ho : Overrides.ofDocument? document = some o) (env : Environment) :
    ofText env text = (resolve env o).validate.map fun _ => resolve env o := by
  have hread : Overrides.ofText text = .ok o := by
    simp only [Overrides.ofText, h, bind, Except.bind, ho]
    rfl
  rw [ofText, hread]

theorem map_validate_eq_ok_iff {t : Settings} :
    (s.validate.map fun _ => s) = .ok t ↔ s.validate = .ok () ∧ s = t := by
  cases s.validate with
  | ok u => simp [Except.map]
  | error f => simp [Except.map]

/-- Each setting of a document comes from its own key, else from its own variable, and else is
built in; a variable whose key is there is not looked at. The settings are refused unless both
limits are kept, and are then used as they are. -/
theorem ofText_layers (env : Environment) (text : List Char) (document : Table)
    (h : Toml.parse text = .ok document) (hshape : Shaped document) :
    (∃ s, (∀ t, Layered env document t ↔ s = t) ∧
      ofText env text = (s.validate.map fun _ => s) ∧
      ((∃ t, ofText env text = .ok t) ↔ s.scanning.maxInputLength ≤ 1048576 ∧
        1 ≤ s.grammar.maxDepth ∧ s.grammar.maxDepth ≤ 4096) ∧
      ∀ t, ofText env text = .ok t → t = s ∧
        t.scanning.inputLimit = t.scanning.maxInputLength ∧
        t.grammar.depthLimit = t.grammar.maxDepth) ∧
    (∀ env' : Environment, (∀ p ∈ Source.places, p.item? document = none →
      env' p.variableName = env p.variableName) → ofText env' text = ofText env text) ∧
    ∀ c : Settings, c.validate = .ok () ↔
      c.scanning.inputLimit = c.scanning.maxInputLength ∧
      c.grammar.depthLimit = c.grammar.maxDepth := by
  obtain ⟨o, ho, hlayers⟩ := exists_overrides hshape
  have htext := ofText_of_parse h ho
  refine ⟨⟨resolve env o, hlayers env, htext env, ?_, fun t ht => ?_⟩, fun env' henv => ?_,
    fun c => validate_eq_ok_iff_limits_eq⟩
  · have hvalid : (∃ t, ofText env text = .ok t) ↔ (resolve env o).validate = .ok () := by
      simp only [htext, map_validate_eq_ok_iff, exists_and_left, exists_eq', and_true]
    exact hvalid.trans validate_eq_ok_iff
  · rw [htext] at ht
    obtain ⟨hvalid, rfl⟩ := map_validate_eq_ok_iff.mp ht
    exact ⟨rfl, validate_eq_ok_iff_limits_eq.mp hvalid⟩
  · have hlayered : Layered env document (resolve env o) := (hlayers env _).mpr rfl
    rw [htext, htext, (hlayers env' _).mp (hlayered.congr henv)]

/-- One setting from each layer and one whose variable cannot be read, with a key and a table that
are not known. The variable for the depth is not looked at. -/
theorem ofText_layers_of_variables :
    let lines : List Toml.Line :=
      [.header "syntax", .pair "max_parse_depth" (.integer 16), .pair "colour" (.boolean false),
       .blank, .header "extra", .pair "trace_tokens" (.boolean true), .header "logging",
       .pair "min_log_level" (.string "debug")]
    let document : Table :=
      [("logging", .table .header [("min_log_level", .string "debug")]),
       ("extra", .table .header [("trace_tokens", .boolean true)]),
       ("syntax", .table .header [("colour", .boolean false), ("max_parse_depth", .integer 16)])]
    let env : Environment := fun name =>
      [("SEL_SYNTAX_MAX_PARSE_DEPTH", "9999"), ("SEL_LEXICAL_MAX_INPUT_LENGTH", "+0012"),
       ("SEL_LOGGING_ENABLE_CONSOLE", "False")].lookup name
    let s : Settings :=
      { scanning := ⟨true, false, 12⟩
        grammar := ⟨16, false⟩
        log := ⟨false, true, .debug, false⟩ }
    Toml.parse (lines.flatMap Toml.Line.text) = .ok document ∧ Shaped document ∧
      Layered env document s ∧ ofText env (lines.flatMap Toml.Line.text) = .ok s ∧
      ofText (fun name => if name = "SEL_SYNTAX_MAX_PARSE_DEPTH" then none else env name)
        (lines.flatMap Toml.Line.text) = .ok s := by
  intro lines document env s
  have hboolean (b : Bool) : (Item.boolean b).IsPlain := trivial
  have hinteger : (Item.integer 16).IsPlain := ⟨by decide, by decide⟩
  have hstring : (Item.string "debug").IsPlain := Level.isPlain_label .debug
  have hplain : ∀ l ∈ lines, l.IsPlain := by
    simp only [lines, List.forall_mem_cons, Toml.Line.IsPlain, hboolean, hinteger, hstring,
      List.not_mem_nil, false_implies, implies_true, and_true, true_and]
    decide
  have hparse : Toml.parse (lines.flatMap Toml.Line.text) = .ok document :=
    Toml.parse_lines hplain rfl
  have hunset {α : Type} {s : Source α} (h : env s.place.variableName = none) (text : String) :
      env s.place.variableName = some text → ∀ v, ¬ s.Spelled text v := by
    rw [h]
    rintro ⟨⟩
  have hlayered : Layered env document s :=
    { detailed := .builtin rfl (hunset rfl)
      traceTokens := .builtin rfl (hunset rfl)
      maxInputLength := .spelled rfl rfl
        ⟨['0', '0', '1', '2'], by decide, List.all_eq_true.mp rfl, .inr rfl, rfl, by decide⟩
      maxDepth := .written rfl rfl
      traceProductions := .builtin rfl (hunset rfl)
      structured := .builtin rfl (hunset rfl)
      console := .builtin rfl fun text htext v => by
        obtain rfl := Option.some.inj htext
        have hcase : "False" ≠ toString v := by cases v <;> decide
        exact hcase
      minLevel := .written rfl .string
      timing := .builtin rfl (hunset rfl) }
  have hshape : Shaped document := by
    refine hlayered.shaped ?_
    have hlexical : document.lookup "lexical" = none := rfl
    simp only [List.forall_mem_cons, List.not_mem_nil, false_implies, implies_true, and_true]
    refine ⟨?_, ?_, ?_⟩ <;> intro item hitem
    · rw [hlexical] at hitem
      cases hitem
    · obtain rfl := Option.some.inj hitem
      trivial
    · obtain rfl := Option.some.inj hitem
      trivial
  obtain ⟨⟨t, ht, htext, -⟩, henv, -⟩ := ofText_layers env _ document hparse hshape
  obtain rfl := (ht s).mp hlayered
  refine ⟨hparse, hshape, hlayered, htext, (henv _ ?_).trans htext⟩
  simp only [Source.places, List.forall_mem_cons, List.not_mem_nil, false_implies, implies_true,
    and_true]
  refine ⟨fun _ => rfl, fun _ => rfl, fun _ => rfl, fun hno => ?_, fun _ => rfl, fun _ => rfl,
    fun _ => rfl, fun _ => rfl, fun _ => rfl⟩
  have hdepth : Source.maxDepth.place.item? document = some (.integer 16) := rfl
  rw [hdepth] at hno
  cases hno

end Settings
end ExprCheck
