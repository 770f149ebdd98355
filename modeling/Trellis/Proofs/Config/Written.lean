import Trellis.Config.Text
import Trellis.Proofs.Toml.Documents

/-! # Settings that are written

Valid settings are written as a document, and the document is read as the same settings.

* `present` are the settings that are set, out of the fields of a section. `lookup_present`: each is found
  by its name, and nothing is found for a setting that is not set.
* `IsSettings` says that a text is the lines of the settings that are set. It holds of the line of each
  setting, and is closed under `append`; thus it holds of the lines of each section.
* `readSetting_present` and `readList_present` read a setting out of its section, and the sections follow.
* `parse_of_write`: what is written is read back. -/

namespace Trellis.Config

open Decimal (Binary digitChars)
open Toml (IsLines IsDocument IsValue isBareKey)

/-! ### Fields -/

/-- The settings that are set, with their values. -/
def present (fields : List (String × Option Toml)) : List (String × Toml) :=
  fields.filterMap fun field => field.2.map (field.1, ·)

section fields
variable {fields more : List (String × Option Toml)} {name key s t : String} {v : Toml}

theorem present_append (fields more : List (String × Option Toml)) :
    present (fields ++ more) = present fields ++ present more := List.filterMap_append ..

theorem mem_present : (name, v) ∈ present fields ↔ (name, some v) ∈ fields := by
  simp [present]

theorem names_present_sublist (fields : List (String × Option Toml)) :
    ((present fields).map Prod.fst).Sublist (fields.map Prod.fst) := by
  induction fields with
  | nil => exact .slnil
  | cons field fields ih =>
      obtain ⟨key, x⟩ := field
      cases x with
      | none => exact ih.cons key
      | some v => exact ih.cons_cons key

theorem lookup_eq_none {entries : List (String × Toml)} (h : ∀ v, (name, v) ∉ entries) :
    Toml.lookup name entries = none := by
  induction entries with
  | nil => rfl
  | cons entry entries ih =>
      have hne : ¬ entry.1 = name := fun heq => h entry.2 (heq ▸ List.mem_cons_self)
      rw [Toml.lookup, if_neg hne, ih fun v hmem => h v (List.mem_cons_of_mem _ hmem)]

theorem lookup_of_mem {entries : List (String × Toml)} (hnames : (entries.map Prod.fst).Nodup)
    (h : (name, v) ∈ entries) : Toml.lookup name entries = some v := by
  induction entries with
  | nil => cases h
  | cons entry entries ih =>
      rw [List.map_cons, List.nodup_cons] at hnames
      rcases List.mem_cons.mp h with rfl | hmem
      · exact if_pos rfl
      · have hne : ¬ entry.1 = name := by
          rintro rfl
          exact hnames.1 (List.mem_map.mpr ⟨_, hmem, rfl⟩)
        rw [Toml.lookup, if_neg hne, ih hnames.2 hmem]

/-- A setting is found by its name if it is set, and only then. -/
theorem lookup_present {x : Option Toml} (hnames : (fields.map Prod.fst).Nodup) (h : (name, x) ∈ fields) :
    Toml.lookup name (present fields) = x := by
  cases x with
  | some v => exact lookup_of_mem (hnames.sublist (names_present_sublist fields)) (mem_present.mpr h)
  | none =>
      refine lookup_eq_none fun v hv => ?_
      -- Two fields of one name are the same field, and this one has no value.
      have hsame := List.inj_on_of_nodup_map hnames h (mem_present.mp hv) rfl
      cases hsame

/-! ### Lines -/

/-- Whether a text is the lines of the settings that are set. -/
def IsSettings (text : String) (fields : List (String × Option Toml)) : Prop :=
  IsLines text (present fields)

theorem IsSettings.append (hs : IsSettings s fields) (ht : IsSettings t more) :
    IsSettings (s ++ t) (fields ++ more) := by
  rw [IsSettings, present_append]
  exact IsLines.append hs ht

/-- The line of a setting, or no line. -/
theorem isSettings_settingLine {α : Type} {write : α → String} {value : α → Toml} {x : Option α}
    (hkey : isBareKey key = true) (h : ∀ a ∈ x, IsValue (write a).toList (value a)) :
    IsSettings (settingLine key write x) [(key, x.map value)] := by
  cases x with
  | none => exact .nil
  | some a => exact .line hkey (h a rfl)

/-- A list of texts as a value. -/
def textsField (ss : List String) : Option Toml := some (.array (ss.map .string))

theorem isSettings_texts (hkey : isBareKey key = true) (ss : List String) :
    IsSettings (Toml.line key (Toml.textsValue ss)) [(key, textsField ss)] :=
  .line hkey (Toml.isValue_textsValue ss)

theorem isSettings_text (hkey : isBareKey key = true) (x : Option String) :
    IsSettings (settingLine key Toml.textValue x) [(key, x.map .string)] :=
  isSettings_settingLine hkey fun s _ => Toml.isValue_textValue s

theorem isSettings_truth (hkey : isBareKey key = true) (x : Option Bool) :
    IsSettings (settingLine key Toml.truthValue x) [(key, x.map .boolean)] :=
  isSettings_settingLine hkey fun b _ => Toml.isValue_of_isScalar (Toml.isScalar_truthValue b)

/-- A whole number as a value. -/
def numberField (x : Option Nat) : Option Toml := x.map fun n : Nat => .integer n

/-- The line of a whole number, if the format can hold it. -/
theorem exists_natLine? {x : Option Nat} (key : String) (hkey : isBareKey key = true)
    (h : ∀ n ∈ x, n ≤ 2 ^ 63 - 1) : ∃ text, natLine? key x = some text ∧ IsSettings text [(key, numberField x)] := by
  cases x with
  | none => exact ⟨"", rfl, .nil⟩
  | some n =>
      have hn : n < Nat.pow 2 63 := Nat.lt_of_le_sub_one (by decide) (h n rfl)
      refine ⟨Toml.line key (toString n), ?_, .line hkey ?_⟩
      · rw [natLine?, natValue?, if_pos hn]
        rfl
      · have htext : (toString n).toList = digitChars n := Nat.toList_repr
        rw [htext]
        exact Toml.isValue_of_isScalar (Toml.isScalar_digitChars hn)

/-! ### Settings in their sections -/

section readers
variable {α : Type} (hnames : (fields.map Prod.fst).Nodup) (place : Nat) (name : String)
include hnames

/-- A setting is read out of its section if it is set, and is unset otherwise. -/
theorem readSetting_present (read : Reader α) {value : α → Toml} {x : Option α}
    (hfield : fields[place]? = some (name, x.map value)) (hread : ∀ a ∈ x, read (value a) = some a) :
    readSetting (.table (present fields)) read place name = some x := by
  rw [readSetting, settingAt?, lookup_present hnames (List.mem_of_getElem? hfield)]
  cases x with
  | none => rfl
  | some a =>
      rw [Option.map_some]
      dsimp only
      rw [hread a rfl]
      rfl

theorem readText_present {x : Option String} (hfield : fields[place]? = some (name, x.map .string)) :
    readSetting (.table (present fields)) readString place name = some x :=
  readSetting_present hnames place name _ hfield fun _ _ => rfl

theorem readTruth_present {x : Option Bool} (hfield : fields[place]? = some (name, x.map .boolean)) :
    readSetting (.table (present fields)) readBool place name = some x :=
  readSetting_present hnames place name _ hfield fun _ _ => rfl

theorem readNumber_present {x : Option Nat} (hfield : fields[place]? = some (name, numberField x)) :
    readSetting (.table (present fields)) readNat place name = some x := by
  refine readSetting_present hnames place name _ hfield fun n _ => ?_
  rw [readNat, if_neg (by omega), Int.toNat_natCast]

/-- A list is read out of its section. -/
theorem readList_present {ss : List String} (hfield : fields[place]? = some (name, textsField ss)) :
    readList (.table (present fields)) place name = some ss := by
  have htexts (ss : List String) : (ss.map Toml.string).mapM readString = some ss := by
    induction ss with
    | nil => rfl
    | cons s ss ih =>
        rw [List.map_cons, List.mapM_cons, ih]
        rfl
  rw [readList, settingAt?, lookup_present hnames (List.mem_of_getElem? hfield), textsField]
  exact htexts ss

end readers

end fields

/-! ### The section on files -/

/-- The settings on files, in order. -/
def Scan.fields (s : Scan) : List (String × Option Toml) :=
  [("max_file_size", numberField s.maxFileSize),
    ("include", textsField s.includes),
    ("extra_ignore", textsField s.extraIgnore),
    ("follow_symlinks", s.followSymlinks.map .boolean),
    ("extensions", textsField s.extensions),
    ("test_dir_names", textsField s.testDirNames),
    ("test_file_markers", textsField s.testFileMarkers)]

theorem Scan.nodup_fields (s : Scan) : (s.fields.map Prod.fst).Nodup := by
  simp [Scan.fields]

theorem Scan.exists_lines {s : Scan} (h : ∀ n ∈ s.maxFileSize, n ≤ 2 ^ 63 - 1) :
    ∃ text, s.lines? = some text ∧ IsSettings text s.fields := by
  obtain ⟨size, hsize, hlines⟩ := exists_natLine? "max_file_size" rfl h
  refine ⟨_, by rw [Scan.lines?, hsize]; rfl, ?_⟩
  exact hlines
    |>.append (isSettings_texts rfl _)
    |>.append (isSettings_texts rfl _)
    |>.append (isSettings_truth rfl _)
    |>.append (isSettings_texts rfl _)
    |>.append (isSettings_texts rfl _)
    |>.append (isSettings_texts rfl _)

theorem Scan.ofToml?_present (s : Scan) : Scan.ofToml? (.table (present s.fields)) = some s := by
  have hnames := s.nodup_fields
  have hsize := readNumber_present hnames 0 "max_file_size" rfl
  have hincludes := readList_present hnames 1 "include" rfl
  have hignore := readList_present hnames 2 "extra_ignore" rfl
  have hlinks := readTruth_present hnames 3 "follow_symlinks" rfl
  have hextensions := readList_present hnames 4 "extensions" rfl
  have hdirectories := readList_present hnames 5 "test_dir_names" rfl
  have hmarkers := readList_present hnames 6 "test_file_markers" rfl
  rw [Scan.ofToml?, hsize, hincludes, hignore, hlinks, hextensions, hdirectories, hmarkers]
  rfl

/-! ### The section on modules -/

/-- The settings on modules, in order. -/
def Generation.fields (g : Generation) : List (String × Option Toml) :=
  [("framework", g.framework.map fun f => .string f.name),
    ("variants", g.variants.map .boolean),
    ("max_buttons", numberField g.maxButtons),
    ("max_inputs", numberField g.maxInputs),
    ("test_suffix", g.testSuffix.map .string),
    ("test_directory", g.testDirectory.map .string),
    ("render_module", g.renderModule.map .string),
    ("user_event_module", g.userEventModule.map .string),
    ("wrapper_import", g.wrapperImport.map .string),
    ("wrapper_name", g.wrapperName.map .string)]

theorem Generation.nodup_fields (g : Generation) : (g.fields.map Prod.fst).Nodup := by
  simp [Generation.fields]

theorem isSettings_framework (x : Option Framework) :
    IsSettings (settingLine "framework" (fun f => Toml.textValue f.name) x)
      [("framework", x.map fun f => .string f.name)] :=
  isSettings_settingLine rfl fun f _ => Toml.isValue_textValue f.name

theorem Generation.exists_lines {g : Generation} (hbuttons : ∀ n ∈ g.maxButtons, n ≤ 2 ^ 63 - 1)
    (hinputs : ∀ n ∈ g.maxInputs, n ≤ 2 ^ 63 - 1) :
    ∃ text, g.lines? = some text ∧ IsSettings text g.fields := by
  obtain ⟨buttons, hbuttons, hbuttonLine⟩ := exists_natLine? "max_buttons" rfl hbuttons
  obtain ⟨inputs, hinputs, hinputLine⟩ := exists_natLine? "max_inputs" rfl hinputs
  refine ⟨_, by rw [Generation.lines?, hbuttons, hinputs]; rfl, ?_⟩
  exact isSettings_framework g.framework
    |>.append (isSettings_truth rfl _)
    |>.append hbuttonLine
    |>.append hinputLine
    |>.append (isSettings_text rfl _)
    |>.append (isSettings_text rfl _)
    |>.append (isSettings_text rfl _)
    |>.append (isSettings_text rfl _)
    |>.append (isSettings_text rfl _)
    |>.append (isSettings_text rfl _)

theorem readFramework_name (f : Framework) : readFramework (.string f.name) = some f := by
  cases f <;> rfl

theorem Generation.ofToml?_present (g : Generation) :
    Generation.ofToml? (.table (present g.fields)) = some g := by
  have hnames := g.nodup_fields
  have hframework := readSetting_present hnames 0 "framework" readFramework rfl
    fun f _ => readFramework_name f
  have hvariants := readTruth_present hnames 1 "variants" rfl
  have hbuttons := readNumber_present hnames 2 "max_buttons" rfl
  have hinputs := readNumber_present hnames 3 "max_inputs" rfl
  have hsuffix := readText_present hnames 4 "test_suffix" rfl
  have hdirectory := readText_present hnames 5 "test_directory" rfl
  have hrender := readText_present hnames 6 "render_module" rfl
  have huser := readText_present hnames 7 "user_event_module" rfl
  have himport := readText_present hnames 8 "wrapper_import" rfl
  have hname := readText_present hnames 9 "wrapper_name" rfl
  rw [Generation.ofToml?, hframework, hvariants, hbuttons, hinputs, hsuffix, hdirectory, hrender,
    huser, himport, hname]
  rfl

/-! ### The section on coverage -/

/-- The settings on coverage, in order. -/
def Coverage.fields (c : Coverage) : List (String × Option Toml) :=
  [("enabled", c.enabled.map .boolean),
    ("threshold", c.threshold.map .float),
    ("command", textsField c.command),
    ("summary_path", c.summaryPath.map .string),
    ("timeout_seconds", numberField c.timeoutSeconds),
    ("inherit_output", c.inheritOutput.map .boolean)]

theorem Coverage.nodup_fields (c : Coverage) : (c.fields.map Prod.fst).Nodup := by
  simp [Coverage.fields]

/-- A percentage is neither infinite nor no number. -/
theorem isValue_plain {x : Binary} (hpercentage : isPercentage x = true) (hcanonical : x.IsCanonical) :
    IsValue x.plain.toList (.float x) := by
  cases x with
  | notANumber => exact absurd hpercentage (by decide)
  | infinite negative => cases negative <;> exact absurd hpercentage (by decide)
  | finite negative m e => exact Toml.isValue_of_isScalar (Toml.isScalar_plain hcanonical)

theorem Coverage.exists_lines {c : Coverage} (htimeout : ∀ n ∈ c.timeoutSeconds, n ≤ 2 ^ 63 - 1)
    (hthreshold : ∀ x ∈ c.threshold, isPercentage x = true ∧ x.IsCanonical) :
    ∃ text, c.lines? = some text ∧ IsSettings text c.fields := by
  obtain ⟨timeout, htimeout, htimeoutLine⟩ := exists_natLine? "timeout_seconds" rfl htimeout
  have hthresholdLine : IsSettings (settingLine "threshold" Binary.plain c.threshold)
      [("threshold", c.threshold.map .float)] :=
    isSettings_settingLine rfl fun x hx => isValue_plain (hthreshold x hx).1 (hthreshold x hx).2
  refine ⟨_, by rw [Coverage.lines?, htimeout]; rfl, ?_⟩
  exact isSettings_truth rfl c.enabled
    |>.append hthresholdLine
    |>.append (isSettings_texts rfl _)
    |>.append (isSettings_text rfl _)
    |>.append htimeoutLine
    |>.append (isSettings_truth rfl _)

theorem Coverage.ofToml?_present (c : Coverage) :
    Coverage.ofToml? (.table (present c.fields)) = some c := by
  have hnames := c.nodup_fields
  have henabled := readTruth_present hnames 0 "enabled" rfl
  have hthreshold := readSetting_present hnames 1 "threshold" readBinary (x := c.threshold) rfl
    fun _ _ => rfl
  have hcommand := readList_present hnames 2 "command" rfl
  have hsummary := readText_present hnames 3 "summary_path" rfl
  have htimeout := readNumber_present hnames 4 "timeout_seconds" rfl
  have houtput := readTruth_present hnames 5 "inherit_output" rfl
  rw [Coverage.ofToml?, henabled, hthreshold, hcommand, hsummary, htimeout, houtput]
  rfl

/-! ### All settings -/

/-- The whole numbers that are set. -/
def integers (c : Config) : List Nat :=
  [c.scan.maxFileSize, c.generation.maxButtons, c.generation.maxInputs,
    c.coverage.timeoutSeconds].filterMap id

/-- Settings that the format can hold. -/
structure Fits (c : Config) : Prop where
  /-- The whole numbers have no more than 63 bits. -/
  integers : ∀ n ∈ c.integers, n ≤ 2 ^ 63 - 1
  /-- The threshold is a number with 64 bits, as every number is that is read or rounded. -/
  threshold : ∀ x ∈ c.coverage.threshold, x.IsCanonical

instance (c : Config) : Decidable c.Fits :=
  decidable_of_iff ((∀ n ∈ c.integers, n ≤ 2 ^ 63 - 1) ∧ ∀ x ∈ c.coverage.threshold, x.IsCanonical)
    ⟨fun h => ⟨h.1, h.2⟩, fun h => ⟨h.integers, h.threshold⟩⟩

/-- The sections, each with the settings that are set in it. -/
def sections (c : Config) : List (String × List (String × Toml)) :=
  [("scan", present c.scan.fields), ("generation", present c.generation.fields),
    ("coverage", present c.coverage.fields)]

variable {c : Config}

theorem isPercentage_of_isValid (h : c.isValid = true) :
    ∀ x ∈ c.coverage.threshold, isPercentage x = true := by
  rw [isValid, List.all_eq_true] at h
  have hrule := h _ List.mem_cons_self
  intro x hx
  rw [Option.mem_def] at hx
  rw [hx] at hrule
  exact hrule

/-- Valid settings that the format can hold are written as a document of their sections. -/
theorem exists_toToml? (hvalid : c.isValid = true) (hfits : c.Fits) :
    ∃ text, c.toToml? = some text ∧ IsDocument text c.sections := by
  have hsmall {x : Option Nat} (hx : x ∈ [c.scan.maxFileSize, c.generation.maxButtons,
      c.generation.maxInputs, c.coverage.timeoutSeconds]) : ∀ n ∈ x, n ≤ 2 ^ 63 - 1 := by
    rintro n rfl
    exact hfits.integers n (List.mem_filterMap.mpr ⟨some n, hx, rfl⟩)
  obtain ⟨scan, hscan, hscanLines⟩ := Scan.exists_lines (s := c.scan) (hsmall (by simp))
  obtain ⟨generation, hgeneration, hgenerationLines⟩ :=
    Generation.exists_lines (g := c.generation) (hsmall (by simp)) (hsmall (by simp))
  obtain ⟨coverage, hcoverage, hcoverageLines⟩ := Coverage.exists_lines (c := c.coverage)
    (hsmall (by simp)) fun x hx => ⟨isPercentage_of_isValid hvalid x hx, hfits.threshold x hx⟩
  refine ⟨_, by rw [toToml?, hscan, hgeneration, hcoverage]; rfl, ?_⟩
  have hdocument : IsDocument _ c.sections :=
    .cons rfl hscanLines (.cons rfl hgenerationLines (.last rfl hcoverageLines))
  have htext : "[" ++ "scan" ++ "]\n" ++ scan ++ "\n" ++
      ("[" ++ "generation" ++ "]\n" ++ generation ++ "\n" ++ ("[" ++ "coverage" ++ "]\n" ++ coverage)) =
      "[scan]\n" ++ scan ++ "\n[generation]\n" ++ generation ++ "\n[coverage]\n" ++ coverage := by
    rw [← String.toList_inj]
    simp
  rwa [htext] at hdocument

/-- The names of the sections, and those in each, are distinct. -/
theorem nodup_sections (c : Config) : (c.sections.map Prod.fst).Nodup ∧
    ∀ sec ∈ c.sections, (sec.2.map Prod.fst).Nodup := by
  refine ⟨by simp [sections], ?_⟩
  simp only [sections, List.forall_mem_cons]
  exact ⟨c.scan.nodup_fields.sublist (names_present_sublist _),
    c.generation.nodup_fields.sublist (names_present_sublist _),
    c.coverage.nodup_fields.sublist (names_present_sublist _), List.forall_mem_nil _⟩

theorem ofToml?_sections (c : Config) :
    ofToml? (c.sections.map fun sec => (sec.1, .table sec.2)) = some c := by
  simp only [sections, List.map_cons, List.map_nil, ofToml?, readSection, Toml.lookup]
  simp only [String.reduceEq, if_true, if_false, Scan.ofToml?_present, Generation.ofToml?_present,
    Coverage.ofToml?_present]
  rfl

/-- Valid settings that the format can hold are written, and what is written is read as the same
settings. -/
theorem parse_of_write (hvalid : check c = .ok c) (hfits : c.Fits) :
    ∃ text, write c = .ok text ∧ parse text = .ok c := by
  obtain ⟨hobeys, -⟩ := (check_eq_ok_iff c c).mp hvalid
  obtain ⟨text, htext, hdocument⟩ := exists_toToml? hobeys hfits
  obtain ⟨hnames, hentries⟩ := c.nodup_sections
  have hread : readText "<string>" text = .ok c := by
    rw [readText, Toml.read?_of_isDocument hdocument hnames hentries]
    dsimp only
    rw [ofToml?_sections]
  refine ⟨text, by rw [write, htext], ?_⟩
  rw [parse, hread]
  exact hvalid

/-- Settings with quotes, backslashes, line breaks and control characters in their texts, a negative zero
and the greatest whole number. -/
def quoted : Config :=
  { scan := { Scan.empty with
      maxFileSize := some (2 ^ 63 - 1)
      includes := ["src/**", "it's", "\"\"\"", "'''\\\n\"\"\"\"", "\n\r\n", "\u0000\u007f", "", "ünï 𝄞"]
      extraIgnore := ["dist\\"]
      followSymlinks := some false }
    generation := { Generation.empty with
      framework := some .vitest
      maxButtons := some 0
      testSuffix := some "a\"b'c"
      wrapperImport := some "C:\\ui"
      wrapperName := some "\t''" }
    coverage := { Coverage.empty with
      threshold := some (.zero true)
      command := ["sh", "-c", "echo \"$1\" | sed 's/a/b/'\n"] } }

theorem parse_of_write_quoted : check quoted = .ok quoted ∧ quoted.Fits ∧
    ∃ text, write quoted = .ok text ∧ parse text = .ok quoted := by
  have hvalid : check quoted = .ok quoted := (check_eq_ok_iff _ _).mpr ⟨by decide +kernel, rfl⟩
  have hfits : quoted.Fits := by decide
  exact ⟨hvalid, hfits, parse_of_write hvalid hfits⟩

end Trellis.Config
