import Trellis.Config.Validation
import Trellis.Proofs.Batch.Succession
import Trellis.Proofs.Scan.Filter

/-! # Targets and candidates

Whether the module that is generated for a candidate is taken for a candidate itself.

* `Placement.Reserved` says that the name or the directory of a target is one of a test for the
  filter. -/

namespace Trellis

/-! ### Targets -/

namespace Placement

/-- The components by which the directory of a target lies below that of its source. -/
def Policy.below (policy : Policy) (source : Path) : List Path.Component :=
  (policy.targetDir source).components.drop source.parent.components.length

/-- Whether the name of a target, or a directory on the way to it from its source, is that of a test
for a filter. -/
def Reserved (f : CandidateFilter) (policy : Policy) (source : Path) : Prop :=
  (∃ m ∈ f.testFileMarkers, Text.contains (policy.fileName source) m = true) ∨
    ∃ x ∈ policy.below source, CandidateFilter.componentText x ∈ f.testDirNames

/-- Whether a policy is one that valid settings describe. -/
structure Policy.IsValid (policy : Policy) : Prop where
  /-- The suffix is a name without dots. -/
  suffix : Config.isSuffix policy.suffix = true
  /-- The directory is a relative path. -/
  directory : ∀ sub, policy.directory = some sub → sub.isAbsolute = false

theorem Policy.isValid_ofConfig {c : Config} (h : c.isValid = true) :
    (Policy.ofConfig c.generation).IsValid := by
  simp only [Config.isValid, Config.rules, List.all_cons, Bool.and_eq_true] at h
  obtain ⟨_, _, hsuffix, hdirectory, _⟩ := h
  constructor
  · unfold ofConfig Config.Generation.effectiveTestSuffix
    cases hs : c.generation.testSuffix with
    | none => exact (by decide : Config.isSuffix "test" = true)
    | some suffix =>
        rw [hs] at hsuffix
        exact hsuffix
  · intro sub hsub
    obtain ⟨text, htext, rfl⟩ := Option.map_eq_some_iff.mp hsub
    rw [htext] at hdirectory
    simp only [Config.unsetOr, Config.isTestDirectory, Bool.and_eq_true, Bool.not_eq_true'] at hdirectory
    exact hdirectory.1.2

section target
variable {f : CandidateFilter} {policy : Policy} {source root : Path} {ext : String}

theorem components_targetDir (hp : policy.IsValid) :
    (policy.targetDir source).components = source.parent.components ++ policy.below source := by
  have hprefix : source.parent.components <+: (policy.targetDir source).components := by
    unfold Policy.targetDir
    cases hd : policy.directory with
    | none => exact List.prefix_refl _
    | some sub =>
        dsimp only
        rw [Path.components_join _ (hp.directory sub hd)]
        split
        · rename_i hempty
          rw [Path.components, hempty]
          exact List.nil_prefix
        · exact List.prefix_append _ _
  obtain ⟨more, hmore⟩ := hprefix
  rw [Policy.below, ← hmore, List.drop_left]

/-- The characters of a target's name: those of its source, with the suffix before the extension. -/
theorem fileName_toList (policy : Policy) (hext : source.extension? = some ext) : ∃ before, before ≠ [] ∧
    (∀ c ∈ before, c ≠ '/') ∧ (∀ c ∈ ext.toList, c ≠ '/' ∧ c ≠ '.') ∧
    (policy.fileName source).toList = before ++ '.' :: policy.suffix.toList ++ '.' :: ext.toList := by
  obtain ⟨name, before, hname, hsplit, hne, hdots⟩ := Path.extension?_eq_some_iff.mp hext
  have hslash := Path.ne_of_mem_components
    (List.mem_of_getLast? (Path.fileName?_eq_some_iff.mp hname))
  rw [hsplit] at hslash
  refine ⟨before, hne, fun c hc => hslash c (List.mem_append_left _ hc), fun c hc => ⟨?_, hdots c hc⟩,
    ?_⟩
  · exact hslash c (List.mem_append_right _ (List.mem_cons_of_mem _ hc))
  · have hstem := Path.stem_eq hname (Path.splitName?_eq_some_iff.mpr ⟨hsplit, hne, hdots⟩)
    rw [Policy.fileName, hstem, hext]
    simp

theorem components_targetPath (hp : policy.IsValid) (hext : source.extension? = some ext) :
    (policy.targetPath source).components =
      source.parent.components ++ policy.below source ++ [.normal (policy.fileName source)] := by
  have hsuffix := hp.suffix
  simp only [Config.isSuffix, Bool.and_eq_true, List.all_eq_true, decide_eq_true_eq] at hsuffix
  obtain ⟨before, hne, hbefore, hafter, hname⟩ := fileName_toList policy hext
  have hslash : ∀ c ∈ (policy.fileName source).toList, c ≠ '/' := by
    intro c hc
    rw [hname] at hc
    simp only [List.mem_append, List.mem_cons] at hc
    rcases hc with (hc | rfl | hc) | rfl | hc
    · exact hbefore c hc
    · decide
    · exact (hsuffix.2 c hc).1.1
    · decide
    · exact (hafter c hc).1
  have hcomponent : Path.componentOf? (policy.fileName source).toList =
      some (.normal (policy.fileName source)) := by
    have hlength : 2 < (policy.fileName source).toList.length := by
      have hpos := List.length_pos_of_ne_nil hne
      rw [hname]
      simp only [List.length_append, List.length_cons]
      omega
    have hlong (piece : List Char) (h : piece.length ≤ 2) :
        (policy.fileName source).toList ≠ piece := by
      intro heq
      rw [heq] at hlength
      omega
    simp [Path.componentOf?, hlong [] (by decide), hlong ['.'] (by decide),
      hlong ['.', '.'] (by decide)]
  rw [Policy.targetPath, Path.components_join_name _ hslash hcomponent, components_targetDir hp]

theorem extension?_targetPath (hp : policy.IsValid) (hext : source.extension? = some ext) :
    (policy.targetPath source).fileName? = some (policy.fileName source) ∧
      (policy.targetPath source).extension? = some ext := by
  obtain ⟨before, _, _, hafter, hname⟩ := fileName_toList policy hext
  have hfile : (policy.targetPath source).fileName? = some (policy.fileName source) := by
    rw [Path.fileName?_eq_some_iff, components_targetPath hp hext, List.getLast?_concat]
  exact ⟨hfile, Path.extension?_eq_some_iff.mpr
    ⟨_, _, hfile, hname, by simp, fun c hc => (hafter c hc).2⟩⟩

/-- The target of a candidate is no candidate exactly if its name or its directory is reserved. -/
theorem accepts_targetPath_iff (hp : policy.IsValid) (hbelow : source.IsBelow root)
    (haccepts : f.accepts source root = true) :
    f.accepts (policy.targetPath source) root = false ↔ Reserved f policy source := by
  obtain ⟨rest, hrest, hsource⟩ := hbelow
  obtain ⟨hextension, hdirs, _⟩ := (CandidateFilter.accepts_below_iff hrest hsource).mp haccepts
  obtain ⟨ext, hext⟩ := CandidateFilter.exists_extension haccepts
  obtain ⟨hname, hext'⟩ := extension?_targetPath hp hext
  have htarget : (policy.targetPath source).components = root.components ++
      (rest.dropLast ++ policy.below source ++ [.normal (policy.fileName source)]) := by
    rw [components_targetPath hp hext, Path.components_parent, hsource,
      List.dropLast_append_of_ne_nil hrest]
    simp only [List.append_assoc]
  have hsame : f.hasExtension (policy.targetPath source) = true := by
    rw [CandidateFilter.hasExtension, hext']
    rw [CandidateFilter.hasExtension, hext] at hextension
    exact hextension
  rw [← Bool.not_eq_true, CandidateFilter.accepts_below_iff (by simp) htarget, List.dropLast_concat,
    hname, Option.getD_some, Reserved]
  constructor
  · intro h
    by_contra hno
    rw [not_or] at hno
    refine h ⟨hsame, fun x hx => ?_, fun m hm => ?_⟩
    · rcases List.mem_append.mp hx with hx | hx
      · exact hdirs x hx
      · exact fun hmem => hno.2 ⟨x, hx, hmem⟩
    · exact Bool.not_eq_true _ ▸ fun hmem => hno.1 ⟨m, hm, hmem⟩
  · rintro (⟨m, hm, hmem⟩ | ⟨x, hx, hmem⟩) ⟨_, hdirs', hmarkers⟩
    · rw [hmarkers m hm] at hmem
      cases hmem
    · exact hdirs' x (List.mem_append_right _ hx) hmem

/-! ### Settings that set targets apart -/

/-- Whether settings set all targets apart from candidates: a fragment by which tests are known
occurs around the suffix, or a directory of test files is one of the filter. -/
def Shields (c : Config) : Prop :=
  (∃ m ∈ (CandidateFilter.ofConfig c.scan).testFileMarkers,
    Text.contains ("." ++ (Policy.ofConfig c.generation).suffix ++ ".") m = true) ∨
  ∃ sub name, c.generation.testDirectory = some sub ∧ .normal name ∈ (Path.mk sub).components ∧
    name ∈ (CandidateFilter.ofConfig c.scan).testDirNames

/-- The names of a test directory lie between a source and its target. -/
theorem mem_below (hp : policy.IsValid) {sub : Path} {name : String}
    (hsub : policy.directory = some sub) (h : .normal name ∈ sub.components) :
    .normal name ∈ policy.below source := by
  have hjoin := Path.components_join source.parent (hp.directory sub hsub)
  rw [Policy.below, Policy.targetDir, hsub]
  dsimp only
  rw [hjoin]
  split
  · rename_i hempty
    rw [Path.components, hempty]
    exact h
  · rw [List.drop_left]
    rw [Path.components, Path.componentsOf_eq, List.mem_append] at h
    refine h.resolve_left fun hlead => ?_
    unfold Path.leading at hlead
    split at hlead <;> simp at hlead

theorem reserved_of_shields {c : Config} (hvalid : c.isValid = true) (h : Shields c)
    (hext : source.extension? = some ext) :
    Reserved (.ofConfig c.scan) (.ofConfig c.generation) source := by
  rcases h with ⟨m, hm, hmem⟩ | ⟨sub, name, hsub, hname, hmem⟩
  · obtain ⟨before, _, _, _, hchars⟩ := fileName_toList (Policy.ofConfig c.generation) hext
    refine .inl ⟨m, hm, (Text.contains_iff _ _).mpr (((Text.contains_iff _ _).mp hmem).trans ?_)⟩
    rw [hchars]
    exact ⟨before, ext.toList, by simp⟩
  · refine .inr ⟨.normal name, ?_, hmem⟩
    exact mem_below (Policy.isValid_ofConfig hvalid) (by rw [Policy.ofConfig, hsub]; rfl) hname

/-- Settings that leave the suffix and the fragments as they are set all targets apart. -/
theorem shields_of_defaults {c : Config} (hsuffix : c.generation.testSuffix = none)
    (hmarkers : c.scan.testFileMarkers = []) : Shields c := by
  refine .inl ⟨".test.", ?_, ?_⟩
  · rw [CandidateFilter.ofConfig, Config.Scan.effectiveTestFileMarkers, hmarkers]
    exact List.mem_cons_self
  · rw [Policy.ofConfig, Config.Generation.effectiveTestSuffix, hsuffix]
    exact (by decide : Text.contains ("." ++ "test" ++ ".") ".test." = true)

end target

end Placement

/-! ### The next run -/

namespace Batch

variable {μ : Type} {b : Batch μ}

/-- What is generated for a source stands at its target. -/
theorem target_of_process {g : Progress μ} {p target : Path} {components : List String}
    {pass : Pass} {placement : Placement} {feedback : Option Coverage.Report}
    (h : (b.process g p).2 = .generated target components pass placement feedback) :
    target = b.policy.targetPath p := by
  rcases b.process_cases g p with ⟨e, _, _, ho⟩ | ⟨source, _, ⟨_, _, ho⟩ | ⟨_, ho⟩⟩
  · rw [ho] at h
    cases h
  · rw [ho] at h
    cases h
  · obtain ⟨steps, _, way⟩ := b.place_way p source (componentsIn g.world.store source) g.world
    rw [← ho, h] at way
    generalize steps.map Coverage.Step.event = es at way
    cases way with
    | written => rfl
    | measured => rfl

theorem target_of_run {g : Progress μ} {paths : List Path} {r : FileReport}
    (hr : r ∈ (b.run g paths).2.files) {target : Path} {components : List String} {pass : Pass}
    {placement : Placement} {feedback : Option Coverage.Report}
    (h : r.outcome = .generated target components pass placement feedback) :
    target = b.policy.targetPath r.source := by
  obtain ⟨i, hi⟩ := List.mem_iff_getElem?.mp hr
  rw [run_files_getElem?] at hi
  obtain ⟨p, _, rfl⟩ := Option.map_eq_some_iff.mp hi
  exact target_of_process h

/-- The filter accepts every candidate of a run. -/
theorem accepts_of_mem_candidates {s : Store} {chosen : List Path} {q : Path}
    (h : q ∈ b.candidates s chosen) :
    (CandidateFilter.ofConfig b.config.scan).accepts q b.root = true := by
  unfold candidates at h
  split at h
  · exact (List.mem_filter.mp (List.mem_mergeSort.mp h)).2
  · have hdistinct {seen paths : List Path} (hq : q ∈ distinctPaths seen paths) : q ∈ paths := by
      induction paths generalizing seen with
      | nil => cases hq
      | cons p paths ih =>
          rw [distinctPaths] at hq
          split at hq
          · exact List.mem_cons_of_mem _ (ih hq)
          · rcases List.mem_cons.mp hq with rfl | hq
            · exact List.mem_cons_self
            · exact List.mem_cons_of_mem _ (ih hq)
    exact (List.mem_filter.mp (hdistinct h)).2

/-- How the targets of the candidates of a project are set apart from its candidates. -/
structure TargetsApart (c : Config) (root : Path) : Prop where
  /-- The target of a candidate is no candidate exactly if its name or its directory is that of a
  test. -/
  rejected_iff : ∀ source, source.IsBelow root →
    (CandidateFilter.ofConfig c.scan).accepts source root = true →
    ((CandidateFilter.ofConfig c.scan).accepts
      ((Placement.Policy.ofConfig c.generation).targetPath source) root = false ↔
        Placement.Reserved (.ofConfig c.scan) (.ofConfig c.generation) source)
  /-- Settings may set all targets apart at once. -/
  of_shields : Placement.Shields c → ∀ source,
    (CandidateFilter.ofConfig c.scan).accepts source root = true →
    Placement.Reserved (.ofConfig c.scan) (.ofConfig c.generation) source
  /-- The default suffix and the default fragments do. -/
  of_defaults : c.generation.testSuffix = none → c.scan.testFileMarkers = [] →
    Placement.Shields c
  /-- After a run, whatever the store is then, no candidate of the next run is a path at which a
  module was generated that is set apart. -/
  next_run : ∀ {μ : Type} (b : Batch μ) (g : Progress μ) (paths : List Path), b.config = c →
    b.root = root → ∀ r ∈ (b.run g paths).2.files,
    ∀ target components pass placement feedback,
    r.outcome = .generated target components pass placement feedback → r.source.IsBelow root →
    (CandidateFilter.ofConfig c.scan).accepts r.source root = true →
    Placement.Reserved (.ofConfig c.scan) (.ofConfig c.generation) r.source →
    ∀ s chosen, ∀ q ∈ b.candidates s chosen, q.same target = false

/-- Valid settings set the targets of candidates apart exactly where the suffix or the directory of
test files is one of the filter. -/
theorem targets_apart {c : Config} (hvalid : c.isValid = true) (root : Path) :
    TargetsApart c root where
  rejected_iff source hbelow haccepts :=
    Placement.accepts_targetPath_iff (Placement.Policy.isValid_ofConfig hvalid) hbelow haccepts
  of_shields h source haccepts := by
    obtain ⟨ext, hext⟩ := CandidateFilter.exists_extension haccepts
    exact Placement.reserved_of_shields hvalid h hext
  of_defaults := Placement.shields_of_defaults
  next_run := by
    rintro μ b g paths rfl rfl r hr target components pass placement feedback hout hbelow haccepts
      hreserved s chosen q hq
    have hrejected := (Placement.accepts_targetPath_iff
      (Placement.Policy.isValid_ofConfig hvalid) hbelow haccepts).mpr hreserved
    rw [Bool.eq_false_iff]
    intro hsame
    have haccepted := accepts_of_mem_candidates hq
    rw [CandidateFilter.accepts_congr ((Path.same_iff q target).mp hsame),
      target_of_run hr hout] at haccepted
    exact Bool.false_ne_true (hrejected.symm.trans haccepted)

/-! ### A target that is set apart, and one that is not -/

namespace Shielded

/-- Settings with a suffix of their own; the test directory is one of the filter. -/
def config : Config :=
  { Config.empty with
    generation := { Config.Generation.empty with
      testSuffix := some "unit", testDirectory := some "src/__tests__" } }

/-- A project with one component. -/
def batch : Batch Unit := ⟨⟨"/p"⟩, config, none, false⟩

/-- The start of a run. -/
def start : Store :=
  ⟨[(["p"], .directory), (["p", "A.tsx"], .file (.text "export const A=()=><p/>"))], ["p"]⟩

/-- The state in which the run starts. -/
def progress : Progress Unit := ⟨⟨start, (), []⟩, .empty⟩

/-- The source. -/
def source : Path := ⟨"/p/A.tsx"⟩

theorem hasComponents : HasComponents start source :=
  exists_components (by decide +kernel)

/-- The directories of the target are made, and nothing stands at it. -/
theorem room : (Placement.makeRoom start (batch.policy.targetPath source)).2 = none ∧
    (Placement.room start (batch.policy.targetPath source)).locate true
      (batch.policy.targetPath source) = .ok (.free ["p", "src", "__tests__"] "A.unit.tsx") ∧
    Placement.check start (batch.policy.targetPath source) = .ok .create := by
  decide +kernel

/-- What the run generates. -/
theorem exists_generated : ∃ r ∈ (batch.run progress [source]).2.files, r.source = source ∧
    ∃ components, r.outcome =
      .generated (batch.policy.targetPath source) components batch.firstPass .create none := by
  obtain ⟨read, hread, hne⟩ := hasComponents
  have hlands : Placement.Lands start (batch.policy.targetPath source)
      ["p", "src", "__tests__", "A.unit.tsx"] := ⟨room.1, _, room.2.1, .free _ _⟩
  have hout := (process_of_lands (g := progress) rfl hread hne hlands room.2.2 rfl).2
  rw [run_files_singleton, hout]
  exact ⟨_, List.mem_singleton_self _, rfl, _, rfl⟩

theorem isBelow : source.IsBelow batch.root := ⟨[.normal "A.tsx"], by decide +kernel⟩

/-- The source is a candidate, its name stays no test's, and its directory becomes one's. -/
theorem accepted : (CandidateFilter.ofConfig config.scan).accepts source batch.root = true ∧
    .normal "__tests__" ∈ (Placement.Policy.ofConfig config.generation).below source ∧
    "__tests__" ∈ (CandidateFilter.ofConfig config.scan).testDirNames := by
  decide +kernel

theorem reserved :
    Placement.Reserved (.ofConfig config.scan) (.ofConfig config.generation) source :=
  .inr ⟨_, accepted.2.1, accepted.2.2⟩

end Shielded

/-- A target in a directory of test files is no candidate, and no candidate after the run that
generates it. -/
theorem targets_apart_shielded :
    Shielded.config.isValid = true ∧
      (CandidateFilter.ofConfig Shielded.config.scan).accepts
        (Shielded.batch.policy.targetPath Shielded.source) Shielded.batch.root = false ∧
      ∃ r ∈ (Shielded.batch.run Shielded.progress [Shielded.source]).2.files,
        (∃ components, r.outcome = .generated (Shielded.batch.policy.targetPath Shielded.source)
          components Shielded.batch.firstPass .create none) ∧
        ∀ s chosen, ∀ q ∈ Shielded.batch.candidates s chosen,
          q.same (Shielded.batch.policy.targetPath Shielded.source) = false := by
  have hvalid : Shielded.config.isValid = true := by decide +kernel
  have h := targets_apart hvalid Shielded.batch.root
  obtain ⟨r, hr, hsource, components, hout⟩ := Shielded.exists_generated
  refine ⟨hvalid, ?_, r, hr, ⟨components, hout⟩, ?_⟩
  · exact (h.rejected_iff _ Shielded.isBelow Shielded.accepted.1).mpr Shielded.reserved
  · refine h.next_run Shielded.batch _ _ rfl rfl r hr _ _ _ _ _ hout ?_ ?_ ?_
    · exact hsource ▸ Shielded.isBelow
    · exact hsource ▸ Shielded.accepted.1
    · exact hsource ▸ Shielded.reserved

/-- Valid settings need not set targets apart: with a suffix that no fragment knows, the target of a
candidate is a candidate. -/
theorem unshielded_target :
    ∃ (c : Config) (root source : Path), c.isValid = true ∧ source.IsBelow root ∧
      (CandidateFilter.ofConfig c.scan).accepts source root = true ∧
      (CandidateFilter.ofConfig c.scan).accepts
        ((Placement.Policy.ofConfig c.generation).targetPath source) root = true :=
  ⟨{ Config.empty with generation := { Config.Generation.empty with testSuffix := some "check" } },
    ⟨"/p"⟩, ⟨"/p/A.tsx"⟩, by decide +kernel, ⟨[.normal "A.tsx"], by decide +kernel⟩,
    by decide +kernel, by decide +kernel⟩

end Batch

end Trellis
