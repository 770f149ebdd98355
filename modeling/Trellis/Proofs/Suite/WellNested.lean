import Trellis.Proofs.Contract.OneLine
import Trellis.Proofs.Suite.Bindings
import Trellis.Proofs.Suite.Blocks
import Trellis.Proofs.Suite.Nesting
import Trellis.Proofs.Suite.Quotations

/-! # Well-nested modules

The lines of a module are nested.

* `Suite.OnLines` and `Suite.AreOnLines` say that no line ends in what a component, the settings and the
  target put into a module.
* `Suite.IsCase.balanced`, `Suite.balanced_inside`: a test leaves what is open as it was, and so does what
  stands in a group.
* `Suite.isWellNested`: a module is its head and its groups with a blank line before each, all of them
  nested; `Config.Generation.wellNested` says so of every analyzed source. -/

namespace Trellis

open Syntax Layout

/-! ### Values -/

theorem Text.notMem_literal (s : String) : '\n' ∉ (literal s).toList :=
  (isLiteral_literal s).unbroken.1

namespace Mock

variable {p : ComponentProp}

theorem notMem_fallback (f : Framework) (p : ComponentProp) (shape : TypeShape) :
    '\n' ∉ (fallback f p shape).toList := by
  unfold fallback
  split
  · cases f <;> decide
  · split
    · decide
    · decide
    · split
      · exact Text.notMem_literal _
      · decide

/-- No line ends in the value of a prop with a type on one line. -/
theorem notMem_value (f : Framework) (h : '\n' ∉ p.type.toList) : '\n' ∉ (value f p).toList := by
  unfold value
  split
  · decide
  · split
    · decide
    · next hx => exact TypeText.literal_notMem (.inl hx) h
    · exact Text.notMem_literal _
    · next hx => exact TypeText.literal_notMem (.inr hx) h
    · decide
    · decide
    · split
      · decide
      · exact notMem_fallback f p _
    · exact notMem_fallback f p _

theorem notMem_forced (f : Framework) (h : '\n' ∉ p.type.toList) (truthy : Bool) :
    '\n' ∉ (forced f p truthy).toList := by
  unfold forced
  split
  · cases truthy <;> decide
  · split
    · decide
    · split
      · decide
      · exact notMem_value f h

end Mock

namespace Suite

/-- Whether no line ends in what a module has of a component. -/
structure OnLines (c : Component) : Prop where
  /-- In its name. -/
  name : '\n' ∉ c.name.toList
  /-- In the types of its props. -/
  type : ∀ p ∈ c.props, '\n' ∉ p.type.toList

/-- Whether no line ends in the texts that the settings and the target put into a module. -/
structure AreOnLines (s : Settings) (target : Target) : Prop where
  /-- In the file name of the tested module. -/
  sourceName : '\n' ∉ target.sourceName.toList
  /-- In the path by which it is imported. -/
  importPath : '\n' ∉ target.importPath.toList
  /-- In the module that renders. -/
  renderModule : '\n' ∉ s.renderModule.toList
  /-- In the module that acts as a user. -/
  userEventModule : '\n' ∉ s.userEventModule.toList
  /-- In the module and the name of the component around every render. -/
  wrapper : ∀ w ∈ s.wrapper, '\n' ∉ w.1.toList ∧ '\n' ∉ w.2.toList

section pieces
variable {c : Component}

theorem notMem_of_isName {name : String} (h : isName name = true) : '\n' ∉ name.toList :=
  fun hmem => absurd (isNamePart_of_isName h _ hmem) (by decide)

theorem notMem_propKey (name : String) : '\n' ∉ (propKey name).toList := by
  unfold propKey
  split
  · next h => exact notMem_of_isName h
  · exact Text.notMem_literal name

theorem notMem_propAccess (name : String) : '\n' ∉ (propAccess name).toList := by
  unfold propAccess
  split
  · next h => simp [notMem_of_isName h]
  · simp [Text.notMem_literal name]

theorem notMem_query (x : Selector) : '\n' ∉ x.query.toList := by
  unfold Selector.query
  cases x.strategy <;> simp [Text.notMem_literal]

theorem notMem_renderHelper (h : OnLines c) : '\n' ∉ (renderHelper c).toList := by
  simp [renderHelper, h.name]

theorem plain_expectPresent {x : String} (h : '\n' ∉ x.toList) : Plain (expectPresent x) :=
  .around (by decide) h (by decide)

theorem plain_expectCalled (name : String) : Plain (expectCalled name) :=
  .around (by decide) (notMem_propAccess name) (by decide)

theorem plain_renderCall (h : OnLines c) : Plain (renderCall c) := by
  exact .around (a := "render") (by decide) h.name (by decide)

theorem plain_inputUse (kind : InputKind) (target : String) :
    Plain (inputUse kind target).2.1 ∧ Plain (inputUse kind target).2.2 := by
  have htype (s : String) : Plain (typeText s) := .around (by decide) (Text.notMem_literal s) (by decide)
  have hclick : Plain "await user.click(field);" := by decide
  have hchecked : Plain "expect(field).toBeChecked();" := by decide
  have hnumber : Plain "expect(field).toHaveValue(42);" := by decide
  cases kind with
  | text => exact ⟨htype _, .around (by decide) (Text.notMem_literal _) (by decide)⟩
  | number => exact ⟨htype _, hnumber⟩
  | checkbox => exact ⟨hclick, hchecked⟩
  | radio => exact ⟨hclick, hchecked⟩
  | select => exact ⟨hclick, plain_expectPresent (by decide)⟩

theorem plain_inputCheck (e : InteractiveElement) {effect : String} (h : Plain effect) :
    Plain (inputCheck e effect) := by
  unfold inputCheck
  split
  · exact plain_expectCalled _
  · split
    · exact plain_expectPresent (by decide)
    · exact h

end pieces

section cases
variable {s : Settings} {pass : Pass} {c : Component} {t : TestCase}

/-- The line that opens a test opens a block, and its statements open and close nothing. -/
theorem IsCase.opening (h : IsCase s pass c t) : Opening t.opening := by
  cases h with
  | crash => exact (by decide : Opening "it('renders without crashing', () => \x7b")
  | defaults => exact (by decide : Opening "it('renders with default props', () => \x7b")
  | presence => exact .around (by decide) (Text.notMem_literal _) (by decide)
  | conditional => exact .around (by decide) (Text.notMem_literal _) (by decide)
  | variant => exact .around (by decide) (Text.notMem_literal _) (by decide)
  | click =>
      unfold clickCase
      dsimp only
      split
      · exact .around (by decide) (Text.notMem_literal _) (by decide)
      · exact .around (by decide) (Text.notMem_literal _) (by decide)
  | input => exact .around (by decide) (Text.notMem_literal _) (by decide)
  | snapshot => exact (by decide : Opening "it('matches the snapshot', () => \x7b")

/-- What an override puts into a statement is on one line. -/
theorem notMem_entry (hc : OnLines c) {e : ConditionalElement} {o : Override}
    (ho : o ∈ overrides s.framework c e) : '\n' ∉ o.entry.toList := by
  have hforced {truthy : Bool} {names : List String} (h : o ∈ forcedProps s.framework c truthy names) :
      '\n' ∉ o.value.toList := by
    obtain ⟨name, -, hname⟩ := List.mem_filterMap.mp h
    obtain ⟨p, hp, rfl⟩ := Option.map_eq_some_iff.mp hname
    exact Mock.notMem_forced _ (hc.type p (List.mem_of_find?_eq_some hp)) truthy
  have hvalue : '\n' ∉ o.value.toList := (List.mem_append.mp ho).elim hforced hforced
  simp [Override.entry, notMem_propKey, hvalue]

/-- The statements of a test open and close nothing. -/
theorem IsCase.plain (h : IsCase s pass c t) (hc : OnLines c) : ∀ line ∈ t.body, Plain line := by
  have hcontainer : Plain (expectPresent "container") := plain_expectPresent (by decide)
  have hsetup : Plain "const user = userEvent.setup();" := by decide
  have hrendered (a : String) (ha : '\n' ∉ a.toList ∧ a.toList.head?.any beginsPlain = true) :
      Plain (a ++ renderCall c) := by
    rw [renderCall, ← String.append_assoc]
    exact .around ha (notMem_renderHelper hc) (by decide)
  have hconst := hrendered "const \x7b container \x7d = " (by decide)
  cases h with
  | crash =>
      intro line hl
      rw [List.mem_singleton.mp hl]
      exact .around (by decide) (notMem_renderHelper hc) (by decide)
  | defaults =>
      simp only [defaultsCase, List.forall_mem_cons]
      exact ⟨hconst, hcontainer, List.forall_mem_nil _⟩
  | presence =>
      simp only [presenceCase, TestCase.titled, List.forall_mem_cons]
      exact ⟨plain_renderCall hc, plain_expectPresent (notMem_query _), List.forall_mem_nil _⟩
  | @conditional e =>
      simp only [conditionalCase, TestCase.titled, List.forall_mem_cons]
      refine ⟨?_, plain_expectPresent (notMem_query _), List.forall_mem_nil _⟩
      obtain ⟨entries, hentries, heq⟩ : ∃ entries, '\n' ∉ entries.toList ∧
          String.intercalate ", " ((overrides s.framework c e).map Override.entry) = entries := by
        refine ⟨_, Text.notMem_intercalate (by decide) fun x hx => ?_, rfl⟩
        obtain ⟨o, ho, rfl⟩ := List.mem_map.mp hx
        exact notMem_entry hc ho
      have hcall : renderHelper c ++ "(\x7b " ++ entries ++ " \x7d);" =
          "render" ++ (c.name ++ "(\x7b " ++ entries) ++ " \x7d);" := by
        simp only [renderHelper, String.append_assoc]
      rw [heq, hcall]
      exact .around (by decide) (by simp [hc.name, hentries]) (by decide)
  | @variant p =>
      simp only [variantCase, List.forall_mem_cons]
      refine ⟨?_, hcontainer, List.forall_mem_nil _⟩
      have hcall : "const \x7b container \x7d = " ++ renderHelper c ++ "(\x7b " ++ propKey p.name ++
            ": value \x7d);" =
          "const \x7b container \x7d = " ++ (renderHelper c ++ "(\x7b " ++ propKey p.name) ++
            ": value \x7d);" := by
        simp only [String.append_assoc]
      rw [hcall]
      exact .around (by decide) (by simp [notMem_renderHelper hc, notMem_propKey]) (by decide)
  | @click e =>
      have hclick : Plain ("await user.click(" ++ e.selector.query ++ ");") :=
        .around (by decide) (notMem_query _) (by decide)
      unfold clickCase
      dsimp only
      split
      · simp only [TestCase.waiting, List.forall_mem_cons]
        exact ⟨hsetup, plain_renderCall hc, hclick, plain_expectCalled _, List.forall_mem_nil _⟩
      · simp only [TestCase.waiting, List.forall_mem_cons]
        exact ⟨hsetup, hconst, hclick, hcontainer, List.forall_mem_nil _⟩
  | @input e kind =>
      obtain ⟨haction, heffect⟩ := plain_inputUse kind (e.selector.describe e.kind)
      simp only [inputCase, TestCase.waiting, List.forall_mem_cons]
      exact ⟨hsetup, plain_renderCall hc, .around (by decide) (notMem_query _) (by decide), haction,
        plain_inputCheck e heffect, List.forall_mem_nil _⟩
  | snapshot =>
      simp only [snapshotCase, List.forall_mem_cons]
      have hmatch : Plain "expect(asFragment()).toMatchSnapshot();" := by decide
      exact ⟨hrendered _ (by decide), hmatch, List.forall_mem_nil _⟩

/-- A test leaves what is open. -/
theorem IsCase.balanced (h : IsCase s pass c t) (hc : OnLines c) : Balanced 1 t.layout := by
  have hclosing : Closing "\x7d);" := by decide
  have hblock := (balanced_block h.opening hclosing (balanced_lines (h.plain hc) 2)).append
    (balanced_gap 1)
  rwa [List.append_assoc] at hblock

end cases

/-! ### Groups -/

section groups
variable {c : Component} {typed : Bool}

theorem notMem_propsType (h : OnLines c) : '\n' ∉ (propsType c).toList :=
  Text.notMem_append (Text.notMem_append (by decide) h.name) (by decide)

theorem begins_propKey (name : String) : (propKey name).toList.head?.any beginsPlain = true := by
  unfold propKey
  split
  · next h =>
    unfold isName at h
    split at h
    · next x rest hname =>
      have hx := (Bool.and_eq_true_iff.mp h).1
      rw [hname, List.head?_cons, Option.any_some, beginsPlain, Bool.and_eq_true, decide_eq_true_eq,
        decide_eq_true_eq]
      constructor <;> rintro rfl <;> exact absurd hx (by decide)
    · cases h
  · rw [Text.toList_literal]
    rfl

/-- The object of default props leaves what is open. -/
theorem balanced_defaultsLayout {g : Group} (hc : OnLines g.component)
    (hvalues : ∀ d ∈ g.defaults, '\n' ∉ d.2.toList) (typed : Bool) :
    Balanced 1 (defaultsLayout typed g) := by
  have hassertion : '\n' ∉ (if typed then " as " ++ propsType g.component else "").toList := by
    split
    · simp [notMem_propsType hc]
    · decide
  unfold defaultsLayout
  dsimp only
  generalize (if typed then " as " ++ propsType g.component else "") = assertion at hassertion ⊢
  split
  · have hempty : Plain ("const defaultProps = \x7b\x7d" ++ assertion ++ ";") :=
      .around (by decide) hassertion (by decide)
    exact hempty.balanced 1
  · have hopening : Opening "const defaultProps = \x7b" := by decide
    refine balanced_block hopening (.around (by decide) hassertion (by decide)) ?_
    rw [List.map_eq_flatMap]
    refine balanced_flatMap fun d hd => IsText.balanced (.around ?_ (hvalues d hd) (by decide)) 2
    have hbegins := begins_propKey d.1.name
    refine ⟨by simp [notMem_propKey], ?_⟩
    rw [String.toList_append, List.head?_append]
    cases hhead : (propKey d.1.name).toList.head? with
    | none => rw [hhead] at hbegins; cases hbegins
    | some x => rw [hhead] at hbegins; exact hbegins

theorem arrow_helper (hc : OnLines c) (typed : Bool) :
    Arrow ("const " ++ renderHelper c ++ " = (" ++ overridesParameter typed c ++ ") =>") := by
  have hparameter : '\n' ∉ (overridesParameter typed c).toList := by
    unfold overridesParameter
    split
    · simp [notMem_propsType hc]
    · decide
  have hline : "const " ++ renderHelper c ++ " = (" ++ overridesParameter typed c ++ ") =>" =
      "const " ++ (renderHelper c ++ " = (" ++ overridesParameter typed c) ++ ") =>" := by
    simp only [String.append_assoc]
  rw [hline]
  refine ⟨.around (by decide) (by simp [notMem_renderHelper hc, hparameter]) (by decide), ?_⟩
  rw [String.toList_append]
  have harrow : ['=', '>'] <:+ ") =>".toList := by decide
  exact harrow.trans (List.suffix_append _ _)

theorem plain_renderStatement (hc : OnLines c) {wrapper : Option String}
    (hwrapper : ∀ name ∈ wrapper, '\n' ∉ name.toList) : Plain (renderStatement wrapper c) := by
  have helement : '\n' ∉ (renderedElement c).toList := by simp [renderedElement, hc.name]
  unfold renderStatement
  split
  · next name =>
    have hline : "render(" ++ renderedElement c ++ ", \x7b wrapper: " ++ name ++ " \x7d);" =
        "render(" ++ (renderedElement c ++ ", \x7b wrapper: " ++ name) ++ " \x7d);" := by
      simp only [String.append_assoc]
    rw [hline]
    exact .around (by decide) (by simp [helement, hwrapper name rfl]) (by decide)
  · exact .around (by decide) helement (by decide)

theorem balanced_resetLayout (f : Framework) : Balanced 1 (resetLayout f) := by
  have hopening : Opening "beforeEach(() => \x7b" := by decide
  have hclosing : Closing "\x7d);" := by decide
  have hclear : Plain f.clearMocks := by cases f <;> decide
  exact balanced_block hopening hclosing (hclear.balanced 2)

/-- What stands in a group between its first and its last line. -/
def Group.inside (s : Settings) (typed : Bool) (g : Group) : List Layout :=
  defaultsLayout typed g ++ [Layout.gap] ++
    helperLayout typed (s.wrapper.map Prod.snd) g.component ++ [Layout.gap] ++
    (if g.hasStubs then resetLayout s.framework ++ [Layout.gap] else []) ++
    g.cases.flatMap TestCase.layout

/-- The line that opens a group. -/
def groupLine (c : Component) : String := "describe(" ++ Text.literal c.name ++ ", () => \x7b"

theorem Group.layout_eq (s : Settings) (typed : Bool) (g : Group) : g.layout s typed =
    .line 0 (groupLine g.component) :: g.inside s typed ++ [.closing 0 "\x7d);"] := by
  simp only [layout, inside, groupLine, List.append_assoc, List.cons_append]

variable {s : Settings} {target : Target}

/-- What stands in a group leaves what is open. -/
theorem balanced_inside (hs : AreOnLines s target) (hc : OnLines c) (typed : Bool) (pass : Pass) :
    Balanced 1 ((Group.ofComponent s pass c).inside s typed) := by
  have hgap := balanced_gap 1
  have hdefaults : Balanced 1 (defaultsLayout typed (Group.ofComponent s pass c)) := by
    refine balanced_defaultsLayout hc (fun d hd => ?_) typed
    obtain ⟨p, hp, rfl⟩ := List.mem_map.mp hd
    exact Mock.notMem_value _ (hc.type p (List.mem_filter.mp hp).1)
  have hwrapper : ∀ name ∈ s.wrapper.map Prod.snd, '\n' ∉ name.toList := by
    intro name hname
    obtain ⟨w, hw, rfl⟩ := Option.map_eq_some_iff.mp hname
    exact (hs.wrapper w hw).2
  have hhelper : Balanced 1 (helperLayout typed (s.wrapper.map Prod.snd) c) :=
    (arrow_helper hc typed).balanced (plain_renderStatement hc hwrapper) 1
  have hreset : Balanced 1 (if (Group.ofComponent s pass c).hasStubs then
      resetLayout s.framework ++ [.gap] else []) := by
    split
    · exact (balanced_resetLayout s.framework).append hgap
    · exact balanced_nil 1
  have hcases : Balanced 1 ((testCases s pass c).flatMap TestCase.layout) :=
    balanced_flatMap fun t ht => (isCase_of_mem ht).balanced hc
  exact ((((hdefaults.append hgap).append hhelper).append hgap).append hreset).append hcases

/-- The lines of a group: the line that opens it, nested lines, and the line that closes it. -/
theorem exists_groupLines (hs : AreOnLines s target) (hc : OnLines c) (typed : Bool) (pass : Pass) :
    ∃ inside, groupText s typed pass c =
        ofLines (lineOf 0 (groupLine c) :: inside ++ [lineOf 0 "\x7d);"]) ∧
      IsPart (lineOf 0 (groupLine c) :: inside ++ [lineOf 0 "\x7d);"]) ∧
      ∀ l ∈ inside, l = [] ∨ 2 ≤ indentation l := by
  have hopening : Opening (groupLine c) := .around (by decide) (Text.notMem_literal c.name) (by decide)
  have hclosing : Closing "\x7d);" := by decide
  have hinside := balanced_inside hs hc typed pass
  obtain ⟨hnested, hrender⟩ := isNested_written (balanced_block hopening hclosing hinside).leads
  obtain ⟨hblank, -, hcloses, -⟩ := hopening.opening_reads 0
  have hne : lineOf 0 (groupLine c) ≠ [] := by
    intro hnil
    rw [hnil] at hblank
    cases hblank
  obtain ⟨inside, hwritten, hmem⟩ := exists_written_block hne "\x7d);"
    ((Group.ofComponent s pass c).inside s typed)
  rw [hwritten] at hnested hrender
  refine ⟨inside, ?_, ⟨hnested, ⟨_, rfl, hblank, hcloses⟩, ⟨_, List.getLast?_concat, by decide⟩⟩,
    fun l hl => (hmem l hl).imp_right fun ⟨item, hitem, hline⟩ => hinside.inside item hitem l hline⟩
  rw [← hrender, ← (writes_group s typed pass c).render_eq, Group.layout_eq]
  rfl

end groups

/-! ### Modules -/

section modules
variable {s : Settings} {target : Target} {pass : Pass} {cs : List Component}

theorem plain_sourceLine (hs : AreOnLines s target) (pass : Pass) :
    Plain (sourceLine target pass) := by
  have hline : sourceLine target pass = "// Source: " ++
      (target.sourceName ++ " (pass " ++ toString pass.number ++ ", " ++ pass.label) ++ ")" := by
    unfold sourceLine
    simp only [String.append_assoc]
  have hpass : '\n' ∉ (toString pass.number).toList ∧ '\n' ∉ pass.label.toList := by
    cases pass <;> decide
  have hnamed := Text.notMem_append hs.sourceName (by decide : '\n' ∉ " (pass ".toList)
  have hcomma : '\n' ∉ ", ".toList := by decide
  rw [hline]
  exact .around (by decide)
    (Text.notMem_append (Text.notMem_append (Text.notMem_append hnamed hpass.1) hcomma) hpass.2)
    (by decide)

theorem notMem_importClause (hc : ∀ c ∈ cs, OnLines c)
    (halias : ∀ c ∈ cs, c.exportKind = .named → '\n' ∉ c.exportedAs.toList) :
    '\n' ∉ (importClause cs).toList := by
  have hspecifier : ∀ x ∈ (cs.filter (·.exportKind = .named)).map importSpecifier,
      '\n' ∉ x.toList := by
    intro x hx
    obtain ⟨c, hmem, rfl⟩ := List.mem_map.mp hx
    obtain ⟨hmem, hkind⟩ := List.mem_filter.mp hmem
    unfold importSpecifier
    split
    · exact (hc c hmem).name
    · exact Text.notMem_append (Text.notMem_append (halias c hmem (of_decide_eq_true hkind))
        (by decide)) (hc c hmem).name
  have hbraces : '\n' ∉ (importBraces ((cs.filter (·.exportKind = .named)).map
      importSpecifier)).toList :=
    Text.notMem_append (Text.notMem_append (by decide)
      (Text.notMem_intercalate (by decide) hspecifier)) (by decide)
  unfold importClause
  dsimp only
  split
  · next c hfind =>
    have hname := (hc c (List.mem_of_find?_eq_some hfind)).name
    split
    · exact hname
    · exact Text.notMem_append (Text.notMem_append hname (by decide)) hbraces
  · exact hbraces

/-- The imports of a module open and close nothing. -/
theorem plain_imports (hs : AreOnLines s target) (hc : ∀ c ∈ cs, OnLines c)
    (halias : ∀ c ∈ cs, c.exportKind = .named → '\n' ∉ c.exportedAs.toList) (gs : List Group) :
    ∀ line ∈ imports s target cs gs, Plain line := by
  have hglobals : ∀ line ∈ s.framework.globalsImport (usedGlobals s.framework gs), Plain line := by
    have hnames : ∀ x ∈ usedGlobals s.framework gs, '\n' ∉ x.toList := by
      have hnamespace : '\n' ∉ s.framework.mockNamespace.toList := by cases s.framework <;> decide
      unfold usedGlobals
      split
      · simp [hnamespace]
      · simp
    intro line hline
    unfold Framework.globalsImport at hline
    split at hline
    · cases hline
    · obtain rfl := Option.some.inj hline
      exact .around (by decide) (Text.notMem_intercalate (by decide) hnames) (by decide)
  -- names in braces from a module
  have hfrom {names path : String} (hnames : '\n' ∉ names.toList) (hpath : '\n' ∉ path.toList) :
      Plain ("import \x7b " ++ names ++ " \x7d from '" ++ path ++ "';") := by
    have hline : "import \x7b " ++ names ++ " \x7d from '" ++ path ++ "';" =
        "import \x7b " ++ (names ++ " \x7d from '" ++ path) ++ "';" := by
      simp only [String.append_assoc]
    rw [hline]
    exact .around (by decide) (Text.notMem_append (Text.notMem_append hnames (by decide)) hpath)
      (by decide)
  have hreact : Plain "import React from 'react';" := by decide
  have huser : Plain ("import userEvent from '" ++ s.userEventModule ++ "';") :=
    .around (by decide) hs.userEventModule (by decide)
  have hmatchers : Plain s.framework.matchersImport := by cases s.framework <;> decide
  have hcomponents : Plain (componentImport cs target.importPath) := by
    have hline : componentImport cs target.importPath =
        "import " ++ (importClause cs ++ " from '" ++ target.importPath) ++ "';" := by
      simp only [componentImport, String.append_assoc]
    rw [hline]
    exact .around (by decide) (Text.notMem_append (Text.notMem_append
      (notMem_importClause hc halias) (by decide)) hs.importPath) (by decide)
  unfold imports
  simp only [List.forall_mem_append, List.forall_mem_cons, Option.mem_toList]
  refine ⟨⟨⟨⟨⟨hglobals, hreact, ?_, List.forall_mem_nil _⟩, ?_⟩, hmatchers, List.forall_mem_nil _⟩, ?_⟩, hcomponents, List.forall_mem_nil _⟩
  · exact hfrom (by split <;> decide) hs.renderModule
  · split
    · simpa using huser
    · exact List.forall_mem_nil _
  · split
    · next path name hw =>
      obtain ⟨hpath, hname⟩ := hs.wrapper (path, name) hw
      simpa using hfrom hname hpath
    · exact List.forall_mem_nil _

/-- The lines of the header and the imports. -/
def headLines (s : Settings) (target : Target) (pass : Pass) (cs : List Component)
    (gs : List Group) : List (List Char) :=
  [header, sourceLine target pass].map (lineOf 0) ++ [] :: (imports s target cs gs).map (lineOf 0)

theorem headText_eq (gs : List Group) :
    headText s target pass cs gs = ofLines (headLines s target pass cs gs) := by
  have hgap : ofLines [[]] = ['\n'] := rfl
  rw [headLines, List.append_cons, ofLines_append, ofLines_append, ofLines_map, ofLines_map, hgap,
    headText]
  simp

theorem isPart_headLines (hs : AreOnLines s target) (hc : ∀ c ∈ cs, OnLines c)
    (halias : ∀ c ∈ cs, c.exportKind = .named → '\n' ∉ c.exportedAs.toList) (gs : List Group) :
    IsPart (headLines s target pass cs gs) := by
  have hheader : Plain header := by decide
  have hmarked : ∀ t ∈ [header, sourceLine target pass], Plain t := by
    simpa using ⟨hheader, plain_sourceLine hs pass⟩
  have hne : imports s target cs gs ≠ [] := by simp [imports]
  exact (isPart_lines (by simp) hmarked).gap (isPart_lines hne (plain_imports hs hc halias gs))

/-- How the lines of a module are nested. -/
structure IsWellNested (s : Settings) (target : Target) (pass : Pass) (cs : List Component)
    (ls : List (List Char)) : Prop where
  /-- They are the lines of its text. -/
  text_eq : text s target pass cs = String.ofList (ofLines ls)
  /-- The first line is the header. -/
  header : ls.head? = some header.toList
  /-- The text ends with one line break. -/
  ends : EndsLine (ofLines ls).reverse
  /-- Each line that is not blank is indented by what is open at it, and in the end nothing is open. No
  blank line follows another, and none stands before a closing line. -/
  nested : IsNested (.within 0) ls (.within 0)
  /-- After the head, and after a blank line each, stand the groups. The line that opens a group and the
  line that closes it stand at the margin; those between them are blank or indented. -/
  groups : ∃ inside : Component → List (List Char),
    ls = headLines s target pass cs (cs.map (Group.ofComponent s pass)) ++
      cs.flatMap (fun c => [] :: ((groupLine c).toList :: inside c ++ ["\x7d);".toList])) ∧
    ∀ c ∈ cs, ∀ l ∈ inside c, l = [] ∨ 2 ≤ indentation l

/-- A part ends in a line that is not blank. -/
theorem endsLine_ofLines {ls : List (List Char)} (h : IsPart ls) :
    EndsLine (ofLines ls).reverse := by
  obtain ⟨l, hl, hblank⟩ := h.last
  rcases exists_last_line h.nested.unbroken with rfl | ⟨init, rfl⟩ | ⟨init, x, c, hc, rfl⟩
  · cases hl
  · rw [List.getLast?_concat] at hl
    obtain rfl := Option.some.inj hl
    cases hblank
  · exact ⟨c, _, reverse_ofLines_concat init x c, hc⟩

theorem isWellNested (hs : AreOnLines s target) (hc : ∀ c ∈ cs, OnLines c)
    (halias : ∀ c ∈ cs, c.exportKind = .named → '\n' ∉ c.exportedAs.toList) (pass : Pass) :
    ∃ ls, IsWellNested s target pass cs ls := by
  have hgroup (c : Component) (hc : OnLines c) := exists_groupLines hs hc target.typed pass
  choose! inside htext hpart hinside using hgroup
  simp only [lineOf_zero] at htext hpart
  obtain ⟨ls, hls⟩ : ∃ ls, ls = headLines s target pass cs (cs.map (Group.ofComponent s pass)) ++
      cs.flatMap fun c => [] :: ((groupLine c).toList :: inside c ++ ["\x7d);".toList]) := ⟨_, rfl⟩
  have hgroups : (cs.flatMap fun c => '\n' :: groupText s target.typed pass c) =
      ofLines (cs.flatMap fun c => [] :: ((groupLine c).toList :: inside c ++ ["\x7d);".toList])) := by
    rw [ofLines, List.flatMap_assoc]
    refine List.flatMap_congr fun c hmem => ?_
    rw [htext c (hc c hmem), ← ofLines_blank, ofLines]
  have heq : (text s target pass cs).toList = ofLines ls := by
    rw [text_eq_groups, finish_headLayout, headText_eq, hgroups, hls, ofLines_append]
  have hwhole : IsPart ls :=
    hls ▸ (isPart_headLines hs hc halias _).gaps fun c hmem => hpart c (hc c hmem)
  refine ⟨ls, by rw [← heq, String.ofList_toList], ?_, endsLine_ofLines hwhole,
    hwhole.nested, inside, hls, fun c hmem => hinside c (hc c hmem)⟩
  rw [hls, headLines, List.map_cons, lineOf_zero]
  rfl

end modules

end Suite

/-! ### Analyzed sources -/

/-- The lines of the module of an analyzed source are nested. -/
theorem Config.Generation.wellNested {path : Path} {dialect : Dialect} {text : String}
    {source : Source} (hsource : Source.parse path dialect text = .ok source) (modules : Modules)
    (g : Generation) (target : Suite.Target)
    (hg : ∀ x ∈ [g.renderModule, g.userEventModule, g.wrapperImport, g.wrapperName],
      ∀ t ∈ x, '\n' ∉ t.toList)
    (htarget : '\n' ∉ target.sourceName.toList ∧ '\n' ∉ target.importPath.toList)
    (halias : ∀ c ∈ Analysis.components modules source,
      c.exportKind = .named → Lexeme.IsWord c.exportedAs.toList) (pass : Pass) :
    ∃ ls, Suite.IsWellNested g.suiteSettings target pass (Analysis.components modules source) ls := by
  have honLines : ∀ c ∈ Analysis.components modules source, Suite.OnLines c := fun c hc =>
    ⟨(Analysis.isImportable (Source.isSpelled_of_parse hsource) hc).word.notMem,
      fun p hp => Analysis.type_notMem hc hp⟩
  have hgetD {x : Option String} {default : String} (hx : ∀ t ∈ x, '\n' ∉ t.toList)
      (hdefault : '\n' ∉ default.toList) : '\n' ∉ (x.getD default).toList := by
    cases x with
    | none => exact hdefault
    | some t => exact hx t rfl
  simp only [List.forall_mem_cons] at hg
  obtain ⟨hrender, huser, himport, hname, -⟩ := hg
  have hsettings : Suite.AreOnLines g.suiteSettings target := by
    refine ⟨htarget.1, htarget.2, hgetD hrender (by decide), hgetD huser (by decide), ?_⟩
    rintro ⟨path, name⟩ hw
    change g.wrapper = some (path, name) at hw
    unfold wrapper at hw
    split at hw
    · next h h' =>
      cases hw
      exact ⟨himport path h, hname name h'⟩
    · cases hw
  exact Suite.isWellNested hsettings honLines (fun c hc hk => (halias c hc hk).notMem) pass

namespace Renamed

/-- A module that exports a component with a callback under another name. -/
def text : String :=
  "const B=(p:\x7bonGo:()=>void\x7d)=><button onClick=\x7bp.onGo\x7d/>;export \x7bB as Box\x7d;"

/-- Settings with a wrapper. -/
def settings : Config.Generation :=
  { Config.Generation.empty with
    framework := some .vitest, wrapperImport := some "./wrap", wrapperName := some "Wrap" }

end Renamed

theorem wellNested_renamed : ∃ source,
    Source.parse ⟨"src/B.tsx"⟩ .tsx Renamed.text = .ok source ∧
    (Analysis.components .none source).map (·.exportedAs) = ["Box"] ∧
    ∃ ls, Suite.IsWellNested Renamed.settings.suiteSettings ⟨"B.tsx", "./B", true⟩ .enriched
      (Analysis.components .none source) ls := by
  have h : ∃ source ∈ (Source.parse ⟨"src/B.tsx"⟩ .tsx Renamed.text).toOption,
      (Analysis.components .none source).map (·.exportedAs) = ["Box"] := by decide +kernel
  obtain ⟨source, hsource, hnames⟩ := h
  have hparse := Source.ok_of_toOption hsource
  have halias : ∀ c ∈ Analysis.components .none source,
      c.exportKind = .named → Lexeme.IsWord c.exportedAs.toList := by
    intro c hc _
    have hmem := List.mem_map_of_mem (f := (·.exportedAs)) hc
    rw [hnames, List.mem_singleton] at hmem
    rw [hmem]
    decide
  exact ⟨source, hparse, hnames, Config.Generation.wellNested hparse .none Renamed.settings
    ⟨"B.tsx", "./B", true⟩ (by decide) (by decide) halias .enriched⟩

end Trellis
