import Mathlib.Data.Option.Basic
import Trellis.Config.Load
import Trellis.Proofs.Source.Names

/-! # Settings one by one

Every setting of a loaded config comes from the highest layer that sets it.

* `Setting` names the settings; `Config.get?` is the value that a config sets, if it sets one: a list
  is set when it holds something. A config is determined by the values of its settings
  (`Config.ext_get?`).
* `Config.get?_merge`: of two layers the higher one gives the value of a setting wherever it sets it.
  From this follow the laws of `Config.merge`.
* `Layers` are the four places from which settings come, `Layers.Found` says what each of them holds,
  and `Config.load_layered` that a load gives the settings of its layers, one by one, whenever these
  are valid together. -/

namespace Trellis

/-! ### Settings -/

/-- A setting. -/
inductive Setting where
  | maxFileSize
  | includes
  | extraIgnore
  | followSymlinks
  | extensions
  | testDirNames
  | testFileMarkers
  | framework
  | variants
  | maxButtons
  | maxInputs
  | testSuffix
  | testDirectory
  | renderModule
  | userEventModule
  | wrapperImport
  | wrapperName
  | enabled
  | threshold
  | command
  | summaryPath
  | timeoutSeconds
  | inheritOutput
  deriving DecidableEq, Repr

/-- The values of a setting. -/
def Setting.Value : Setting → Type
  | maxFileSize | maxButtons | maxInputs | timeoutSeconds => Nat
  | includes | extraIgnore | extensions | testDirNames | testFileMarkers | command => List String
  | followSymlinks | variants | enabled | inheritOutput => Bool
  | framework => Framework
  | threshold => Decimal.Binary
  | testSuffix | testDirectory | renderModule | userEventModule | wrapperImport | wrapperName
  | summaryPath => String

namespace Config

/-- A list, when it holds something. -/
def listed (l : List String) : Option (List String) := if l.isEmpty then none else some l

/-- The value that a config sets for a setting. -/
def get? (c : Config) : (k : Setting) → Option k.Value
  | .maxFileSize => c.scan.maxFileSize
  | .includes => listed c.scan.includes
  | .extraIgnore => listed c.scan.extraIgnore
  | .followSymlinks => c.scan.followSymlinks
  | .extensions => listed c.scan.extensions
  | .testDirNames => listed c.scan.testDirNames
  | .testFileMarkers => listed c.scan.testFileMarkers
  | .framework => c.generation.framework
  | .variants => c.generation.variants
  | .maxButtons => c.generation.maxButtons
  | .maxInputs => c.generation.maxInputs
  | .testSuffix => c.generation.testSuffix
  | .testDirectory => c.generation.testDirectory
  | .renderModule => c.generation.renderModule
  | .userEventModule => c.generation.userEventModule
  | .wrapperImport => c.generation.wrapperImport
  | .wrapperName => c.generation.wrapperName
  | .enabled => c.coverage.enabled
  | .threshold => c.coverage.threshold
  | .command => listed c.coverage.command
  | .summaryPath => c.coverage.summaryPath
  | .timeoutSeconds => c.coverage.timeoutSeconds
  | .inheritOutput => c.coverage.inheritOutput

theorem listed_inj {a b : List String} (h : listed a = listed b) : a = b := by
  unfold listed at h
  cases a <;> cases b <;> simp_all

/-- A config is what it sets. -/
theorem ext_get? {c d : Config} (h : ∀ k, c.get? k = d.get? k) : c = d := by
  obtain ⟨⟨_, _, _, _, _, _, _⟩, ⟨_, _, _, _, _, _, _, _, _, _⟩, ⟨_, _, _, _, _, _⟩⟩ := c
  obtain ⟨⟨_, _, _, _, _, _, _⟩, ⟨_, _, _, _, _, _, _, _, _, _⟩, ⟨_, _, _, _, _, _⟩⟩ := d
  simp only [Config.mk.injEq, Scan.mk.injEq, Generation.mk.injEq, Coverage.mk.injEq]
  refine ⟨⟨h .maxFileSize, listed_inj (h .includes), listed_inj (h .extraIgnore),
    h .followSymlinks, listed_inj (h .extensions), listed_inj (h .testDirNames),
    listed_inj (h .testFileMarkers)⟩, ⟨h .framework, h .variants, h .maxButtons, h .maxInputs,
    h .testSuffix, h .testDirectory, h .renderModule, h .userEventModule, h .wrapperImport,
    h .wrapperName⟩, ⟨h .enabled, h .threshold, listed_inj (h .command), h .summaryPath,
    h .timeoutSeconds, h .inheritOutput⟩⟩

/-! ### Layers over each other -/

theorem pick_eq_or {α : Type} (low high : Option α) : pick low high = high.or low := by
  cases high <;> rfl

theorem listed_pickList (low high : List String) :
    listed (pickList low high) = (listed high).or (listed low) := by
  cases high <;> rfl

/-- Of two layers the higher one gives the value of a setting wherever it sets it. -/
theorem get?_merge (low high : Config) (k : Setting) :
    (low.merge high).get? k = (high.get? k).or (low.get? k) := by
  cases k <;> first | exact pick_eq_or _ _ | exact listed_pickList _ _

theorem get?_empty (k : Setting) : Config.empty.get? k = none := by
  cases k <;> rfl

theorem empty_merge (c : Config) : Config.empty.merge c = c :=
  ext_get? fun k => by rw [get?_merge, get?_empty, Option.or_none]

theorem merge_empty (c : Config) : c.merge .empty = c :=
  ext_get? fun k => by rw [get?_merge, get?_empty, Option.none_or]

theorem merge_assoc (a b c : Config) : (a.merge b).merge c = a.merge (b.merge c) :=
  ext_get? fun k => by simp only [get?_merge, Option.or_assoc]

end Config

/-! ### Variables and arguments -/

namespace Setting

/-- The environment variable of a setting, if it has one. -/
def nameInEnvironment? : Setting → Option String
  | maxFileSize => some "SCAFFOLD_SCAN_MAX_FILE_SIZE"
  | framework => some "SCAFFOLD_FRAMEWORK"
  | variants => some "SCAFFOLD_VARIANTS"
  | enabled => some "SCAFFOLD_COVERAGE_ENABLED"
  | threshold => some "SCAFFOLD_COVERAGE_THRESHOLD"
  | timeoutSeconds => some "SCAFFOLD_COVERAGE_TIMEOUT"
  | _ => none

/-- The value for which the text of a variable stands, if it parses. -/
def parse? : (k : Setting) → String → Option k.Value
  | maxFileSize | timeoutSeconds => Config.readWord?
  | framework => Framework.ofName?
  | variants | enabled => Config.readTruth?
  | threshold => Config.readNumber?
  | _ => fun _ => none

/-- The value of a setting in the environment: that of its variable, if it parses. -/
def inEnvironment (env : Config.Environment) (k : Setting) : Option k.Value :=
  k.nameInEnvironment?.bind fun name => (env.get? name).bind k.parse?

/-- The value of a setting on the command line. -/
def onCommandLine (cli : Config.Overrides) : (k : Setting) → Option k.Value
  | framework => cli.framework
  | variants => cli.variants
  | enabled => cli.coverageEnabled
  | threshold => cli.coverageThreshold
  | _ => none

end Setting

namespace Config

theorem get?_ofEnvironment (env : Environment) (k : Setting) :
    (ofEnvironment env).get? k = k.inEnvironment env := by
  cases k <;> rfl

theorem get?_layer (cli : Overrides) (k : Setting) : cli.layer.get? k = k.onCommandLine cli := by
  cases k <;> rfl

/-! ### Files -/

/-- Whether a file can be read and sets the settings of a config. -/
def FileSets (s : Store) (p : Path) (c : Config) : Prop :=
  ∃ text, s.readText p = .ok text ∧ Config.readText p.text text = .ok c

/-- Whether a config is what the user's file sets: nothing without a file that can be read. -/
def UserSets (s : Store) (env : Environment) (c : Config) : Prop :=
  (∃ p, userFile? env = some p ∧ FileSets s p c) ∨
    ((∀ p, userFile? env = some p → ∀ text, s.readText p ≠ .ok text) ∧ c = .empty)

/-- Whether a config is what the project's file, or the file in its place, sets: nothing where no
file was named and none stands. -/
def ProjectSets (s : Store) (root : Path) (chosen : Option Path) (c : Config) : Prop :=
  match chosen with
  | some p => FileSets s p c
  | none =>
    FileSets s (root.join ⟨projectFile⟩) c ∨
      (isThere s (root.join ⟨projectFile⟩) = false ∧ c = .empty)

section files
variable {s : Store} {p : Path} {c : Config}

theorem isThere_of_readText {text : String} (h : s.readText p = .ok text) :
    isThere s p = true := by
  obtain ⟨place, hloc⟩ := Store.read_ok_iff.mp (Store.readText_ok_iff.mp h)
  unfold isThere Store.entry?
  rw [hloc]
  rfl

theorem readFile_ok_iff : readFile s p = .ok c ↔ FileSets s p c := by
  unfold readFile FileSets
  cases s.readText p <;> simp

/-- A text that is no settings document is the only fault of a document. -/
theorem exists_parseError_of_readText {path text : String} {e : ConfigFault}
    (h : readText path text = .error e) : ∃ reason, e = .parseError path reason := by
  unfold readText at h
  split at h
  · exact ⟨_, (Except.error.inj h).symm⟩
  · split at h
    · exact ⟨_, (Except.error.inj h).symm⟩
    · cases h

/-- A user's file that cannot be read counts as absent. -/
theorem userLayer_of_unread {env : Environment}
    (h : ∀ p, userFile? env = some p → ∀ text, s.readText p ≠ .ok text) :
    userLayer s env = .ok .empty := by
  unfold userLayer
  cases hp : userFile? env with
  | none => rfl
  | some p =>
      dsimp only
      split
      · cases htext : s.readText p with
        | error e => rw [readFile, htext]
        | ok text => exact absurd htext (h p hp text)
      · rfl

theorem userLayer_of_read {env : Environment} {text : String} (hp : userFile? env = some p)
    (htext : s.readText p = .ok text) : userLayer s env = readText p.text text := by
  have hfile : readFile s p = readText p.text text := by rw [readFile, htext]
  simp only [userLayer, hp, if_pos (isThere_of_readText htext), hfile]
  cases hread : readText p.text text with
  | error e =>
      obtain ⟨reason, rfl⟩ := exists_parseError_of_readText hread
      rfl
  | ok d => rfl

theorem userLayer_ok_iff {env : Environment} : userLayer s env = .ok c ↔ UserSets s env c := by
  unfold UserSets
  by_cases h : ∃ p text, userFile? env = some p ∧ s.readText p = .ok text
  · obtain ⟨p, text, hp, htext⟩ := h
    rw [userLayer_of_read hp htext]
    constructor
    · exact fun hc => .inl ⟨p, hp, text, htext, hc⟩
    · rintro (⟨q, hq, t, ht, hc⟩ | ⟨hno, _⟩)
      · cases hp.symm.trans hq
        cases htext.symm.trans ht
        exact hc
      · exact absurd htext (hno p hp text)
  · have hno (p : Path) (hp : userFile? env = some p) (text : String) :
        s.readText p ≠ .ok text := fun htext => h ⟨p, text, hp, htext⟩
    rw [userLayer_of_unread hno]
    constructor
    · rintro ⟨⟩
      exact .inr ⟨hno, rfl⟩
    · rintro (⟨p, hp, text, htext, _⟩ | ⟨_, rfl⟩)
      · exact absurd htext (hno p hp text)
      · rfl

theorem projectLayer_ok_iff {root : Path} {chosen : Option Path} :
    projectLayer s root chosen = .ok c ↔ ProjectSets s root chosen c := by
  have hthere {p : Path} (h : FileSets s p c) : isThere s p = true := by
    obtain ⟨text, htext, _⟩ := h
    exact isThere_of_readText htext
  unfold projectLayer ProjectSets
  cases chosen with
  | some p =>
      dsimp only
      split
      · exact readFile_ok_iff
      · rename_i hno
        exact ⟨fun h => (nomatch h), fun h => absurd (hthere h) hno⟩
  | none =>
      dsimp only
      split
      · rename_i hyes
        rw [readFile_ok_iff]
        exact ⟨.inl, fun h => h.resolve_right fun hno => by simp [hno.1] at hyes⟩
      · rename_i hno
        constructor
        · rintro ⟨⟩
          exact .inr ⟨by simpa using hno, rfl⟩
        · rintro (h | ⟨_, rfl⟩)
          · exact absurd (hthere h) hno
          · rfl

end files

/-! ### Loading -/

/-- The places from which settings come. -/
structure Layers where
  /-- The command line. -/
  cli : Overrides
  /-- The environment. -/
  env : Environment
  /-- What the project's file, or the file in its place, sets. -/
  project : Config
  /-- What the user's file sets. -/
  user : Config

namespace Layers

/-- The values of a setting, from the highest layer down. -/
def values (l : Layers) (k : Setting) : List (Option k.Value) :=
  [k.onCommandLine l.cli, k.inEnvironment l.env, l.project.get? k, l.user.get? k]

/-- The value of a setting in the highest layer that sets it. -/
def get? (l : Layers) (k : Setting) : Option k.Value := (l.values k).findSome? id

/-- All layers over each other. -/
def config (l : Layers) : Config :=
  (((Config.empty.merge l.user).merge l.project).merge (ofEnvironment l.env)).override l.cli

/-- Whether the layers are those of a load. -/
structure Found (l : Layers) (s : Store) (env : Environment) (root : Path) (cli : Overrides) :
    Prop where
  /-- The command line. -/
  cli_eq : l.cli = cli
  /-- The environment. -/
  env_eq : l.env = env
  /-- The file of the project, or the one that the command line names. -/
  project_sets : ProjectSets s root cli.configPath l.project
  /-- The file of the user. -/
  user_sets : UserSets s env l.user

theorem get?_config (l : Layers) (k : Setting) : l.config.get? k = l.get? k := by
  have hor {α : Type} (a b c d : Option α) :
      a.or (b.or (c.or (d.or none))) = [a, b, c, d].findSome? id := by
    cases a <;> cases b <;> cases c <;> cases d <;> rfl
  simp only [config, override, get?_merge, get?_layer, get?_ofEnvironment, get?_empty]
  exact hor _ _ _ _

/-- Where a load finds its layers, it finds no others. -/
theorem Found.unique {l l' : Layers} {s : Store} {env : Environment} {root : Path}
    {cli : Overrides} (h : l.Found s env root cli) (h' : l'.Found s env root cli) : l = l' := by
  have hproject : l.project = l'.project :=
    Except.ok.inj ((projectLayer_ok_iff.mpr h.project_sets).symm.trans
      (projectLayer_ok_iff.mpr h'.project_sets))
  have huser : l.user = l'.user :=
    Except.ok.inj ((userLayer_ok_iff.mpr h.user_sets).symm.trans
      (userLayer_ok_iff.mpr h'.user_sets))
  obtain ⟨_, _, _, _⟩ := l
  obtain ⟨_, _, _, _⟩ := l'
  rw [mk.injEq]
  exact ⟨h.cli_eq.trans h'.cli_eq.symm, h.env_eq.trans h'.env_eq.symm, hproject, huser⟩

end Layers

section load
variable {s : Store} {env : Environment} {root : Path} {cli : Overrides} {c : Config}

/-- A load lays the layers over each other and checks the result. -/
theorem load_ok_iff : load s env root cli = .ok c ↔
    ∃ l : Layers, l.Found s env root cli ∧ c = l.config ∧ c.isValid = true := by
  unfold load
  constructor
  · intro h
    cases huser : userLayer s env with
    | error e => simp [huser, bind, Except.bind] at h
    | ok user =>
        cases hproject : projectLayer s root cli.configPath with
        | error e => simp [huser, hproject, bind, Except.bind] at h
        | ok project =>
            simp only [huser, hproject, bind, Except.bind, check_eq_ok_iff] at h
            obtain ⟨hvalid, rfl⟩ := h
            exact ⟨⟨cli, env, project, user⟩,
              ⟨rfl, rfl, projectLayer_ok_iff.mp hproject, userLayer_ok_iff.mp huser⟩, rfl, hvalid⟩
  · rintro ⟨⟨cli', env', project, user⟩, ⟨rfl, rfl, hproject, huser⟩, rfl, hvalid⟩
    rw [userLayer_ok_iff.mpr huser]
    simp only [bind, Except.bind, projectLayer_ok_iff.mpr hproject, check_eq_ok_iff]
    exact ⟨hvalid, rfl⟩

theorem isValid_of_parse {text : String} (h : parse text = .ok c) : c.isValid = true := by
  unfold parse at h
  cases hread : readText "<string>" text with
  | error e => simp [hread, bind, Except.bind] at h
  | ok d =>
      simp only [hread, bind, Except.bind, check_eq_ok_iff] at h
      exact h.2 ▸ h.1

end load

/-- What is promised of settings in layers. -/
structure AreLayered : Prop where
  /-- A load accepts a config exactly when each setting has the value of the highest layer that sets
  it, is unset when no layer sets it, and all of them are valid together; the layers need not be
  valid. -/
  load_iff : ∀ s env root cli c, load s env root cli = .ok c ↔
    ∃ l : Layers, l.Found s env root cli ∧ (∀ k, c.get? k = l.get? k) ∧ c.isValid = true
  /-- Layers that agree on one setting give it one value, whatever they say of all others. -/
  apart : ∀ {s env root cli c} {s' env' root' cli' c'} {l l' : Layers} (k : Setting),
    load s env root cli = .ok c → l.Found s env root cli →
    load s' env' root' cli' = .ok c' → l'.Found s' env' root' cli' →
    l.values k = l'.values k → c.get? k = c'.get? k
  /-- Laying one config over another is associative. -/
  assoc : ∀ a b c : Config, (a.merge b).merge c = a.merge (b.merge c)
  /-- A config over the one that sets nothing stays as it is. -/
  over_empty : ∀ c : Config, Config.empty.merge c = c
  /-- The config that sets nothing changes nothing. -/
  under_empty : ∀ c : Config, c.merge .empty = c
  /-- The settings in a text are valid if they are accepted. -/
  parse_valid : ∀ text c, parse text = .ok c → check c = .ok c
  /-- Loaded settings are valid. -/
  load_valid : ∀ s env root cli c, load s env root cli = .ok c → check c = .ok c

/-- Settings come from the highest layer that sets them, one by one, and are valid together. -/
theorem load_layered : AreLayered where
  load_iff s env root cli c := by
    rw [load_ok_iff]
    refine exists_congr fun l => and_congr_right fun _ => and_congr_left fun _ => ?_
    constructor
    · rintro rfl k
      exact l.get?_config k
    · exact fun h => ext_get? fun k => (h k).trans (l.get?_config k).symm
  apart := by
    intro s env root cli c s' env' root' cli' c' l l' k h hl h' hl' hk
    obtain ⟨l₁, hl₁, rfl, _⟩ := load_ok_iff.mp h
    obtain ⟨l₂, hl₂, rfl, _⟩ := load_ok_iff.mp h'
    rw [hl₁.unique hl, hl₂.unique hl', Layers.get?_config, Layers.get?_config, Layers.get?,
      Layers.get?, hk]
  assoc := merge_assoc
  over_empty := empty_merge
  under_empty := merge_empty
  parse_valid text c h := (check_eq_ok_iff c c).mpr ⟨isValid_of_parse h, rfl⟩
  load_valid s env root cli c h := by
    obtain ⟨_, _, _, hvalid⟩ := load_ok_iff.mp h
    exact (check_eq_ok_iff c c).mpr ⟨hvalid, rfl⟩

/-! ### An invalid value that is replaced -/

namespace Overlaid

/-- A user's file with an invalid threshold, and a project's file that sets another. -/
def store : Store :=
  { entries :=
      [(["home"], .directory), (["home", ".scaffold"], .directory),
        (["home", ".scaffold", "config.toml"],
          .file (.text "[coverage]\nthreshold = 150\n[generation]\nvariants = false\n")),
        (["p"], .directory),
        (["p", "scaffold.toml"],
          .file (.text "[coverage]\nthreshold = 40\n[scan]\ninclude = [\"src/**\"]\n"))]
    cwd := ["p"] }

/-- Two variables; the value of the second does not parse. -/
def env : Environment :=
  [("HOME", "/home"), ("SCAFFOLD_COVERAGE_TIMEOUT", "7"), ("SCAFFOLD_VARIANTS", "maybe")]

/-- A command line with a framework. -/
def cli : Overrides := { Overrides.none with framework := some .vitest }

/-- What the user's file sets. -/
def user : Config :=
  { Config.empty with
    generation := { Generation.empty with variants := some false }
    coverage := { Coverage.empty with threshold := some (Decimal.Binary.ofNat 150) } }

/-- What the project's file sets. -/
def project : Config :=
  { Config.empty with
    scan := { Scan.empty with includes := ["src/**"] }
    coverage := { Coverage.empty with threshold := some (Decimal.Binary.ofNat 40) } }

/-- The four layers. -/
def layers : Layers := ⟨cli, env, project, user⟩

theorem userLayer_eq : userLayer store env = .ok user := by
  have h : (userLayer store env).toOption.map id = some user := by decide +kernel
  obtain ⟨c, hc, rfl⟩ := exists_ok_of_map h
  exact hc

theorem projectLayer_eq : projectLayer store ⟨"/p"⟩ none = .ok project := by
  have h : (projectLayer store ⟨"/p"⟩ none).toOption.map id = some project := by decide +kernel
  obtain ⟨c, hc, rfl⟩ := exists_ok_of_map h
  exact hc

theorem found : layers.Found store env ⟨"/p"⟩ cli :=
  ⟨rfl, rfl, projectLayer_ok_iff.mp projectLayer_eq, userLayer_ok_iff.mp userLayer_eq⟩

end Overlaid

/-- The user's threshold alone is refused, but the project's takes its place: the load gives each
setting from the layer that wins. -/
theorem load_layered_overlaid :
    (∃ e, check Overlaid.user = .error e) ∧
      ∃ c, load Overlaid.store Overlaid.env ⟨"/p"⟩ Overlaid.cli = .ok c ∧ check c = .ok c ∧
        c.get? .framework = some Framework.vitest ∧ c.get? .timeoutSeconds = some (7 : Nat) ∧
        c.get? .threshold = some (Decimal.Binary.ofNat 40) ∧
        c.get? .includes = some ["src/**"] ∧ c.get? .variants = some false ∧
        c.get? .command = none := by
  have hload := (load_layered.load_iff Overlaid.store Overlaid.env ⟨"/p"⟩ Overlaid.cli
    Overlaid.layers.config).mpr
      ⟨_, Overlaid.found, Overlaid.layers.get?_config, by decide +kernel⟩
  refine ⟨⟨_, rfl⟩, _, hload, load_layered.load_valid _ _ _ _ _ hload, ?_⟩
  exact ⟨rfl, rfl, rfl, rfl, rfl, rfl⟩

end Config

end Trellis
