import Trellis.Proofs.Scan.Targets

/-! # Targets stay below their sources and link back

Where valid settings put the test files of absolute sources, and where the specifiers lead by which
test files import their sources.

* `Path.lexical` takes `.` and `..` out of a path without looking at the file store.
* `Placement.components_targetPath_of_isValid`: a target lies below the directory of its source, and
  only names lead to it.
* `Placement.Policy.LinksBack` says that targets are confined, distinct and linked back to their
  sources; `Placement.links_back` that valid settings see to it. -/

namespace Trellis

namespace Path

/-! ### Paths without `.` and `..` -/

/-- Goes on by one component from a reversed path without `.` and `..`. -/
def walk : List Component → Component → List Component
  | rev, .current => rev
  | .normal _ :: rev, .parent => rev
  | .root :: rev, .parent => .root :: rev
  | rev, x => x :: rev

/-- The components of a path, with each `.` left out and each `..` undoing the name before it. -/
def lexical (cs : List Component) : List Component := (cs.foldl walk []).reverse

theorem walk_normal (rev : List Component) (name : String) :
    walk rev (.normal name) = .normal name :: rev := by
  cases rev with
  | nil => rfl
  | cons x rev => cases x <;> rfl

/-- Names are walked down one after the other. -/
theorem foldl_walk_names {down : List Component} (h : ∀ x ∈ down, ∃ name, x = .normal name)
    (rev : List Component) : down.foldl walk rev = down.reverse ++ rev := by
  induction down generalizing rev with
  | nil => rfl
  | cons x down ih =>
      obtain ⟨name, rfl⟩ := h x List.mem_cons_self
      rw [List.foldl_cons, walk_normal, ih fun y hy => h y (List.mem_cons_of_mem _ hy)]
      simp

/-- As many steps up as names lead down lead back. -/
theorem foldl_walk_up {up : List Component} (h : ∀ x ∈ up, ∃ name, x = .normal name)
    (rev : List Component) :
    (List.replicate up.length Component.parent).foldl walk (up ++ rev) = rev := by
  induction up with
  | nil => rfl
  | cons x up ih =>
      obtain ⟨name, rfl⟩ := h x List.mem_cons_self
      rw [List.length_cons, List.replicate_succ, List.foldl_cons]
      exact ih fun y hy => h y (List.mem_cons_of_mem _ hy)

/-- Down and up again comes to nothing. -/
theorem lexical_down_up {down : List Component} (h : ∀ x ∈ down, ∃ name, x = .normal name)
    (start rest : List Component) :
    lexical (start ++ down ++ List.replicate down.length .parent ++ rest) =
      lexical (start ++ rest) := by
  have hup := foldl_walk_up (fun x hx => h x (List.mem_reverse.mp hx))
    (start.foldl walk [])
  rw [List.length_reverse] at hup
  simp only [lexical, List.foldl_append]
  rw [foldl_walk_names h, hup]

/-- A path from the root that has neither `.` nor `..` stays as it is. -/
theorem lexical_root_names {names : List Component} (h : ∀ x ∈ names, ∃ name, x = .normal name) :
    lexical (.root :: names) = .root :: names := by
  rw [lexical, List.foldl_cons, foldl_walk_names h]
  simp [walk]

/-! ### Components of absolute paths -/

variable {p : Path}

/-- A piece occurs in its text. -/
theorem isInfix_of_mem_pieces {s piece : List Char} (h : piece ∈ pieces s) : piece <:+: s := by
  unfold pieces at h
  -- The first piece starts the text, and a character before it makes it longer.
  suffices hall : ∃ first more, Text.Search.splitWhere (· = '/') s = first :: more ∧ first <+: s ∧
      ∀ q ∈ more, q <:+: s by
    obtain ⟨first, more, hs, hfirst, hmore⟩ := hall
    rw [hs] at h
    rcases List.mem_cons.mp h with rfl | h
    · exact hfirst.isInfix
    · exact hmore piece h
  clear h
  induction s with
  | nil => exact ⟨[], [], rfl, List.prefix_refl _, fun q hq => absurd hq List.not_mem_nil⟩
  | cons c s ih =>
      obtain ⟨first, more, hs, hfirst, hmore⟩ := ih
      rw [Text.Search.splitWhere.eq_2, hs]
      dsimp only
      split
      · refine ⟨_, _, rfl, List.nil_prefix, fun q hq => ?_⟩
        rcases List.mem_cons.mp hq with rfl | hq
        · exact hfirst.isInfix.trans (List.suffix_cons c s).isInfix
        · exact (hmore q hq).trans (List.suffix_cons c s).isInfix
      · refine ⟨_, _, rfl, List.cons_prefix_cons.mpr ⟨rfl, hfirst⟩, fun q hq => ?_⟩
        exact (hmore q hq).trans (List.suffix_cons c s).isInfix

/-- Behind a separator stand names and `..` only. -/
theorem name_or_parent_of_mem_namesOf {s : List Char} {x : Component} (h : x ∈ namesOf s) :
    (∃ name, x = .normal name) ∨ x = .parent ∧ ['.', '.'] <:+: s := by
  obtain ⟨piece, hpiece, hx⟩ := List.mem_filterMap.mp h
  unfold componentOf? at hx
  split at hx
  · cases hx
  · split at hx
    · rename_i hup
      cases hx
      exact .inr ⟨rfl, hup ▸ isInfix_of_mem_pieces hpiece⟩
    · cases hx
      exact .inl ⟨_, rfl⟩

/-- An absolute path with a file name lies in a directory with a text. -/
theorem components_parent_of_isAbsolute (h : p.isAbsolute = true) {name : String}
    (hname : p.fileName? = some name) :
    (∃ names, p.parent.components = .root :: names ∧ p.parent.text ≠ "") ∧
      p.components = p.parent.components ++ [.normal name] := by
  have hlast := fileName?_eq_some_iff.mp hname
  have hall : p.components = p.parent.components ++ [.normal name] := by
    rw [components_parent, List.dropLast_append_getLast? _ hlast]
  have hroot := components_of_isAbsolute h
  have hparent : ∃ names, p.parent.components = .root :: names := by
    rw [hall] at hroot
    cases hp : p.parent.components with
    | nil =>
        rw [hp] at hroot
        cases hroot
    | cons x names =>
        rw [hp, List.cons_append] at hroot
        exact ⟨names, by rw [(List.cons.inj hroot).1]⟩
  obtain ⟨names, hnames⟩ := hparent
  refine ⟨⟨names, hnames, fun hempty => ?_⟩, hall⟩
  rw [components, hempty] at hnames
  cases hnames

end Path

namespace Placement

/-! ### Sources and their targets -/

/-- Whether a path is absolute and ends in a name with an extension. -/
structure IsSource (p : Path) : Prop where
  /-- It starts at the root. -/
  isAbsolute : p.isAbsolute = true
  /-- Its file name has an extension. -/
  extension : ∃ ext, p.extension? = some ext

section target
variable {c : Config} {policy : Policy} {source p q : Path}

/-- The name of a source is its stem, a dot and its extension. -/
theorem IsSource.name (h : IsSource source) : ∃ name ext, source.fileName? = some name ∧
    source.extension? = some ext ∧ name.toList = source.stem.toList ++ '.' :: ext.toList ∧
    source.stem.toList ≠ [] ∧ (∀ c ∈ ext.toList, c ≠ '.') ∧ ∀ c ∈ source.stem.toList, c ≠ '/' := by
  obtain ⟨ext, hext⟩ := h.extension
  obtain ⟨name, before, hname, hsplit, hne, hdots⟩ := Path.extension?_eq_some_iff.mp hext
  have hstem : source.stem.toList = before := by
    rw [Path.stem_eq hname (Path.splitName?_eq_some_iff.mpr ⟨hsplit, hne, hdots⟩),
      String.toList_ofList]
  have hslash := Path.ne_of_mem_components
    (List.mem_of_getLast? (Path.fileName?_eq_some_iff.mp hname))
  rw [hsplit] at hslash
  rw [hstem]
  exact ⟨name, ext, hname, hext, hsplit, hne, hdots,
    fun c hc => hslash c (List.mem_append_left _ hc)⟩

/-- The directory of a source starts at the root, and its name follows. -/
theorem IsSource.components (h : IsSource source) : ∃ names name,
    source.parent.components = .root :: names ∧ source.parent.text ≠ "" ∧
      source.fileName? = some name ∧
      source.components = source.parent.components ++ [.normal name] := by
  obtain ⟨name, _, hname, _⟩ := h.name
  obtain ⟨⟨names, hroot, hne⟩, hall⟩ := Path.components_parent_of_isAbsolute h.isAbsolute hname
  exact ⟨names, name, hroot, hne, hname, hall⟩

/-- The names of the test directory lie between a source and its target. -/
theorem below_eq (hp : policy.IsValid) (h : IsSource source) : policy.below source =
    (policy.directory.map fun sub => Path.namesOf sub.text.toList).getD [] := by
  obtain ⟨names, _, _, hne, _⟩ := h.components
  rw [Policy.below, Policy.targetDir]
  cases hd : policy.directory with
  | none => exact List.drop_length
  | some sub =>
      dsimp only
      rw [Path.components_join _ (hp.directory sub hd), if_neg hne, List.drop_left]
      rfl

/-- A test directory of valid settings is spelled by names only. -/
theorem names_of_directory (hvalid : c.isValid = true) {sub : Path}
    (hsub : (Policy.ofConfig c.generation).directory = some sub) :
    ∀ x ∈ Path.namesOf sub.text.toList, ∃ name, x = .normal name := by
  intro x hx
  rcases Path.name_or_parent_of_mem_namesOf hx with hname | ⟨_, hup⟩
  · exact hname
  · simp only [Config.isValid, Config.rules, List.all_cons, Bool.and_eq_true] at hvalid
    obtain ⟨_, _, _, hdirectory, _⟩ := hvalid
    obtain ⟨text, htext, rfl⟩ := Option.map_eq_some_iff.mp hsub
    rw [htext] at hdirectory
    simp only [Config.unsetOr, Config.isTestDirectory, Bool.and_eq_true,
      Bool.not_eq_true'] at hdirectory
    have hcontains : Text.contains text ".." = true := (Text.contains_iff text "..").mpr hup
    exact absurd (hcontains.symm.trans hdirectory.2) (by decide)

theorem below_names (hvalid : c.isValid = true) (h : IsSource source) :
    ∀ x ∈ (Policy.ofConfig c.generation).below source, ∃ name, x = .normal name := by
  rw [below_eq (Policy.isValid_ofConfig hvalid) h]
  cases hd : (Policy.ofConfig c.generation).directory with
  | none => exact fun x hx => absurd hx List.not_mem_nil
  | some sub => exact names_of_directory hvalid hd

/-- The specifier of an import goes up as many steps as names lead down to the target. -/
theorem depth_directory (hvalid : c.isValid = true) (h : IsSource source) :
    ((Policy.ofConfig c.generation).directory.map depth).getD 0 =
      ((Policy.ofConfig c.generation).below source).length := by
  have hp := Policy.isValid_ofConfig hvalid
  rw [below_eq hp h]
  cases hd : (Policy.ofConfig c.generation).directory with
  | none => rfl
  | some sub =>
      have hleading : Path.leading sub.text.toList = [] ∨ ∃ x, x.rank < 3 ∧
          Path.leading sub.text.toList = [x] := by
        unfold Path.leading
        split
        · exact .inr ⟨_, by decide, rfl⟩
        · exact .inr ⟨_, by decide, rfl⟩
        · exact .inr ⟨_, by decide, rfl⟩
        · exact .inl rfl
      simp only [Option.map_some, Option.getD_some]
      rw [depth, Path.components, Path.componentsOf_eq, List.filter_append]
      refine (congrArg List.length (congrArg₂ (· ++ ·) ?_ (List.filter_eq_self.mpr ?_))).trans
        (congrArg List.length (List.nil_append _))
      · rcases hleading with hnil | ⟨x, hx, hone⟩
        · rw [hnil]
          rfl
        · rw [hone]
          cases x with
          | normal name => exact absurd hx (Nat.lt_irrefl 3)
          | root => rfl
          | current => rfl
          | parent => rfl
      · intro x hx
        obtain ⟨name, rfl⟩ := names_of_directory hvalid hd x hx
        rfl

/-- The target of a source lies in its directory, below the names of the test directory. -/
theorem components_target (hvalid : c.isValid = true) (h : IsSource source) :
    ((Policy.ofConfig c.generation).targetPath source).components =
      source.parent.components ++ ((Policy.ofConfig c.generation).below source ++
        [.normal ((Policy.ofConfig c.generation).fileName source)]) := by
  obtain ⟨ext, hext⟩ := h.extension
  rw [components_targetPath (Policy.isValid_ofConfig hvalid) hext, List.append_assoc]

/-- The name of a target is split into what comes from the stem and the extension of the source. -/
theorem splitName?_fileName (policy : Policy) (h : IsSource source) :
    ∃ ext, source.extension? = some ext ∧ Path.splitName? (policy.fileName source) =
      some (source.stem.toList ++ '.' :: policy.suffix.toList, ext.toList) := by
  obtain ⟨_, ext, _, hext, _, hne, hdots, _⟩ := h.name
  refine ⟨ext, hext, Path.splitName?_eq_some_iff.mpr ⟨?_, by simp, hdots⟩⟩
  rw [Policy.fileName, hext]
  simp

/-- The name of a target is longer than that of its source. -/
theorem fileName_ne (h : IsSource source) {name : String} (hname : source.fileName? = some name) :
    policy.fileName source ≠ name := by
  intro heq
  obtain ⟨ext, hext, hsplit⟩ := splitName?_fileName policy h
  obtain ⟨name', ext', hname', hext', hchars, _⟩ := h.name
  rw [hname, Option.some.injEq] at hname'
  rw [hext, Option.some.injEq] at hext'
  have hlength := congrArg List.length (Path.splitName?_eq_some_iff.mp hsplit).1
  rw [heq, hname', hchars, hext'] at hlength
  simp only [List.length_append, List.length_cons] at hlength
  omega

/-- Two sources whose targets have one name have one name. -/
theorem fileName?_of_fileName (hp : IsSource p) (hq : IsSource q)
    (h : policy.fileName p = policy.fileName q) : p.fileName? = q.fileName? := by
  obtain ⟨ext, hext, hsplit⟩ := splitName?_fileName policy hp
  obtain ⟨ext', hext', hsplit'⟩ := splitName?_fileName policy hq
  rw [h, hsplit', Option.some.injEq, Prod.mk.injEq] at hsplit
  have hstem : p.stem.toList = q.stem.toList := (List.append_cancel_right hsplit.1).symm
  obtain ⟨name, _, hname, he, hchars, _⟩ := hp.name
  obtain ⟨name', _, hname', he', hchars', _⟩ := hq.name
  rw [hext, Option.some.injEq] at he
  rw [hext', Option.some.injEq] at he'
  rw [hname, hname', Option.some.injEq, String.ext_iff, hchars, hchars', hstem, ← he, ← he',
    hsplit.2]

/-! ### Imports -/

/-- Each step up of a specifier is a component of its own. -/
theorem namesOf_up (n : Nat) (s : List Char) :
    Path.namesOf ((String.join (List.replicate n "../")).toList ++ s) =
      List.replicate n .parent ++ Path.namesOf s := by
  induction n with
  | zero => rfl
  | succ n ih =>
      rw [List.replicate_succ, String.join_cons, String.toList_append, List.append_assoc]
      exact (Path.namesOf_append ['.', '.'] _).trans (congrArg (Path.Component.parent :: ·) ih)

/-- A specifier goes up to the directory of the source and then to its stem. -/
theorem namesOf_importPath (hvalid : c.isValid = true) (h : IsSource source) :
    Path.namesOf ((Policy.ofConfig c.generation).importPath source).toList =
      List.replicate ((Policy.ofConfig c.generation).below source).length .parent ++
        Path.namesOf source.stem.toList := by
  rw [Policy.importPath, depth_directory hvalid h, String.toList_append]
  split
  · rename_i hzero
    rw [hzero]
    exact Path.namesOf_append ['.'] _
  · exact namesOf_up _ _

theorem isAbsolute_importPath (policy : Policy) (source : Path) :
    (⟨policy.importPath source⟩ : Path).isAbsolute = false := by
  rw [Path.isAbsolute, decide_eq_false_iff_not, Policy.importPath]
  dsimp only
  rw [String.toList_append]
  cases (policy.directory.map depth).getD 0 with
  | zero => simp
  | succ n =>
      rw [if_neg (Nat.succ_ne_zero n), List.replicate_succ, String.join_cons, String.toList_append]
      simp

/-- The specifier as seen from the directory of the target. -/
theorem components_import (hvalid : c.isValid = true) (h : IsSource source) :
    (((Policy.ofConfig c.generation).targetPath source).parent.join
      ⟨(Policy.ofConfig c.generation).importPath source⟩).components =
        source.parent.components ++ (Policy.ofConfig c.generation).below source ++
          List.replicate ((Policy.ofConfig c.generation).below source).length .parent ++
            Path.namesOf source.stem.toList := by
  have hdir : ((Policy.ofConfig c.generation).targetPath source).parent.components =
      source.parent.components ++ (Policy.ofConfig c.generation).below source := by
    rw [Path.components_parent, components_target hvalid h, ← List.append_assoc,
      List.dropLast_concat]
  obtain ⟨names, _, hroot, _⟩ := h.components
  have hne : ((Policy.ofConfig c.generation).targetPath source).parent.text ≠ "" := by
    intro hempty
    rw [Path.components, hempty, hroot] at hdir
    cases hdir
  rw [Path.components_join _ (isAbsolute_importPath _ source), if_neg hne, hdir,
    namesOf_importPath hvalid h]
  simp only [List.append_assoc]

/-- The stem of a source as seen from its directory. -/
theorem components_stem (h : IsSource source) :
    (source.parent.join ⟨source.stem⟩).components =
      source.parent.components ++ Path.namesOf source.stem.toList := by
  obtain ⟨_, _, _, hne, _⟩ := h.components
  obtain ⟨_, _, _, _, _, _, _, hslash⟩ := h.name
  have hrelative : (⟨source.stem⟩ : Path).isAbsolute = false := by
    rw [Path.isAbsolute, decide_eq_false_iff_not]
    exact fun hhead => hslash '/' (List.mem_of_mem_head? hhead) rfl
  rw [Path.components_join _ hrelative, if_neg hne]

/-- Where the directory of a source is written without `..` and its stem is a name, both are so
together. -/
theorem lexical_stem (h : IsSource source) (hup : .parent ∉ source.parent.components)
    (hdot : source.stem ≠ ".") (hdots : source.stem ≠ "..") :
    Path.lexical (source.parent.join ⟨source.stem⟩).components =
      source.parent.components ++ [.normal source.stem] := by
  obtain ⟨names, _, hroot, _, _, hall⟩ := h.components
  obtain ⟨_, _, _, _, _, hne, _, hslash⟩ := h.name
  have hstem : Path.namesOf source.stem.toList = [.normal source.stem] := by
    rw [Path.namesOf_name hslash, Path.componentOf?, if_neg, if_neg]
    · rw [String.ofList_toList]
      rfl
    · exact fun heq => hdots (String.ext heq)
    · rw [Bool.or_eq_true, decide_eq_true_eq, decide_eq_true_eq]
      exact fun heq => heq.elim hne fun heq => hdot (String.ext heq)
  have hnames : ∀ x ∈ names, ∃ name, x = .normal name := by
    intro x hx
    have hcs := Path.components_of_isAbsolute h.isAbsolute
    rw [hall, hroot, List.cons_append] at hcs
    have hmem : x ∈ Path.namesOf source.text.toList :=
      (List.cons.inj hcs).2 ▸ List.mem_append_left _ hx
    rcases Path.name_or_parent_of_mem_namesOf hmem with hname | ⟨rfl, _⟩
    · exact hname
    · exact absurd (hroot ▸ List.mem_cons_of_mem _ hx) hup
  rw [components_stem h, hstem, hroot, List.cons_append]
  refine Path.lexical_root_names fun x hx => ?_
  rcases List.mem_append.mp hx with hx | hx
  · exact hnames x hx
  · exact ⟨_, List.mem_singleton.mp hx⟩

end target

/-! ### Confined, distinct and linked back -/

/-- How the targets of a policy relate to their sources. -/
structure Policy.LinksBack (policy : Policy) : Prop where
  /-- A target lies below the directory of its source, and only names lead to it. -/
  confined : ∀ source, IsSource source → ∃ down, down ≠ [] ∧
    (∀ x ∈ down, ∃ name, x = .normal name) ∧
    (policy.targetPath source).components = source.parent.components ++ down
  /-- A target is not its source. -/
  apart : ∀ source, IsSource source → (policy.targetPath source).same source = false
  /-- Different sources have different targets. -/
  distinct : ∀ p q, IsSource p → IsSource q → p.same q = false →
    (policy.targetPath p).same (policy.targetPath q) = false
  /-- As seen from the directory of a target, the specifier of the import is the stem of the source
  in its directory. -/
  linked : ∀ source, IsSource source →
    Path.lexical ((policy.targetPath source).parent.join ⟨policy.importPath source⟩).components =
      Path.lexical (source.parent.join ⟨source.stem⟩).components
  /-- It is so to the letter where the directory is written without `..` and the stem is a name. -/
  linked_exactly : ∀ source, IsSource source → .parent ∉ source.parent.components →
    source.stem ≠ "." → source.stem ≠ ".." →
    Path.lexical ((policy.targetPath source).parent.join ⟨policy.importPath source⟩).components =
      source.parent.components ++ [.normal source.stem]

/-- Valid settings confine targets to the directories of their sources, keep them apart, and link
them back. -/
theorem links_back {c : Config} (hvalid : c.isValid = true) :
    (Policy.ofConfig c.generation).LinksBack where
  confined source h := by
    refine ⟨_, by simp, fun x hx => ?_, components_target hvalid h⟩
    rcases List.mem_append.mp hx with hx | hx
    · exact below_names hvalid h x hx
    · exact ⟨_, List.mem_singleton.mp hx⟩
  apart source h := by
    obtain ⟨_, name, _, _, hname, hall⟩ := h.components
    rw [Path.same, decide_eq_false_iff_not, components_target hvalid h, hall,
      List.append_cancel_left_eq]
    intro heq
    have hlength := congrArg List.length heq
    rw [List.length_append, List.length_singleton, List.length_singleton, Nat.add_eq_right,
      List.length_eq_zero_iff] at hlength
    rw [hlength, List.nil_append, List.singleton_inj, Path.Component.normal.injEq] at heq
    exact fileName_ne h hname heq
  distinct p q hp hq hne := by
    rw [Bool.eq_false_iff, ne_eq, Path.same_iff] at hne ⊢
    intro heq
    obtain ⟨_, name, _, _, hname, hall⟩ := hp.components
    obtain ⟨_, name', _, _, hname', hall'⟩ := hq.components
    have hbelow := below_eq (Policy.isValid_ofConfig hvalid) hp
    rw [← below_eq (Policy.isValid_ofConfig hvalid) hq] at hbelow
    rw [components_target hvalid hp, components_target hvalid hq, hbelow] at heq
    obtain ⟨hparent, hlast⟩ := List.append_inj' heq (by simp)
    rw [List.append_cancel_left_eq, List.singleton_inj, Path.Component.normal.injEq] at hlast
    have hsame := fileName?_of_fileName hp hq hlast
    rw [hname, hname', Option.some.injEq] at hsame
    exact hne (by rw [hall, hall', hparent, hsame])
  linked source h := by
    rw [components_import hvalid h, components_stem h]
    exact Path.lexical_down_up (below_names hvalid h) _ _
  linked_exactly source h hup hdot hdots := by
    rw [components_import hvalid h, Path.lexical_down_up (below_names hvalid h),
      ← components_stem h]
    exact lexical_stem h hup hdot hdots

/-! ### A source with a dotted name and a test directory of two names -/

namespace Nested

/-- Settings with a test directory that is spelled with dots. -/
def config : Config :=
  { Config.empty with
    generation := { Config.Generation.empty with
      testSuffix := some "spec", testDirectory := some "./unit/./tests" } }

/-- The source. -/
def source : Path := ⟨"/app/src/.Card.view.tsx"⟩

theorem isSource : IsSource source := ⟨by decide +kernel, "tsx", by decide +kernel⟩

end Nested

/-- The target lies two directories below the source, and the specifier goes up twice. -/
theorem links_back_nested : Nested.config.isValid = true ∧
    ((Policy.ofConfig Nested.config.generation).targetPath Nested.source).text =
      "/app/src/./unit/./tests/.Card.view.spec.tsx" ∧
    (Policy.ofConfig Nested.config.generation).importPath Nested.source = "../../.Card.view" ∧
    Path.lexical (((Policy.ofConfig Nested.config.generation).targetPath Nested.source).parent.join
      ⟨(Policy.ofConfig Nested.config.generation).importPath Nested.source⟩).components =
        [.root, .normal "app", .normal "src", .normal ".Card.view"] := by
  have hvalid : Nested.config.isValid = true := by decide +kernel
  refine ⟨hvalid, by decide +kernel, by decide +kernel, ?_⟩
  rw [(links_back hvalid).linked_exactly _ Nested.isSource (by decide +kernel) (by decide +kernel)
    (by decide +kernel)]
  decide +kernel

end Placement

end Trellis
