import Trellis.Proofs.Contract.Components
import Trellis.Suite.Module

/-! # The tests of a component

Which tests a group has, and how their statements begin.

* `TestCase.IsOf` has one case per kind of test; `Suite.isOf_of_mem` says that a component has no
  others.
* `Text.Begins` says how a text begins. Two beginnings of one text are comparable, so a text that
  begins with one literal does not begin with another that parts from it
  (`Text.Begins.startsWith_eq_false`); this tells the statements of a test apart, whatever names
  they hold. -/

namespace Trellis

/-! ### Beginnings of texts -/

namespace Text

/-- Whether two texts part, so that no text begins with both. -/
def parts (a b : String) : Bool :=
  !a.toList.isPrefixOf b.toList && !b.toList.isPrefixOf a.toList

/-- Whether a text begins with another. -/
def Begins (line head : String) : Prop := head.toList <+: line.toList

namespace Begins

variable {line head p : String}

theorem of_isPrefixOf (h : head.toList.isPrefixOf line.toList = true) : Begins line head :=
  List.isPrefixOf_iff_prefix.mp h

/-- What begins a text begins it still when something is put after it. -/
theorem append_right (h : Begins line head) (rest : String) : Begins (line ++ rest) head := by
  unfold Begins at h ⊢
  rw [String.toList_append]
  exact h.trans (List.prefix_append _ _)

/-- Something put before a text comes before what begins it. -/
theorem append_left (h : Begins line head) (first : String) :
    Begins (first ++ line) (first ++ head) := by
  unfold Begins at h ⊢
  rw [String.toList_append, String.toList_append]
  exact List.prefix_append_right_inj _ |>.mpr h

/-- What begins with a text begins with the first part of it. -/
theorem of_append (h : Begins line (head ++ p)) : Begins line head := by
  unfold Begins at h ⊢
  rw [String.toList_append] at h
  exact (List.prefix_append _ _).trans h

theorem startsWith (h : Begins line head) : Text.startsWith line head = true :=
  List.isPrefixOf_iff_prefix.mpr h

/-- A text does not begin with what parts from its beginning. -/
theorem startsWith_eq_false (h : Begins line head) (hp : parts p head = true) :
    Text.startsWith line p = false := by
  simp only [parts, Bool.and_eq_true, Bool.not_eq_true', Bool.eq_false_iff, ne_eq,
    List.isPrefixOf_iff_prefix] at hp
  rw [Text.startsWith, Bool.eq_false_iff, ne_eq, List.isPrefixOf_iff_prefix]
  intro hline
  rcases List.prefix_or_prefix_of_prefix hline h with hpre | hpre
  · exact hp.1 hpre
  · exact hp.2 hpre

/-- A text begins with none of some texts that all part from its beginning. -/
theorem any_startsWith_eq_false (h : Begins line head) {ps : List String}
    (hp : ∀ p ∈ ps, parts p head = true) : ps.any (Text.startsWith line) = false := by
  rw [List.any_eq_false]
  intro p hmem
  rw [h.startsWith_eq_false (hp p hmem)]
  exact Bool.false_ne_true

theorem any_startsWith (h : Begins line head) {ps : List String} (hmem : head ∈ ps) :
    ps.any (Text.startsWith line) = true :=
  List.any_eq_true.mpr ⟨head, hmem, h.startsWith⟩

end Begins

end Text

/-! ### Queries -/

/-- A query looks on the screen. -/
theorem Selector.begins_query (s : Selector) : Text.Begins s.query "screen." := by
  have h : ∀ lit rest : String, "screen.".toList.isPrefixOf lit.toList = true →
      ∀ last, Text.Begins (lit ++ rest ++ last) "screen." :=
    fun lit rest hlit last => ((Text.Begins.of_isPrefixOf hlit).append_right rest).append_right last
  unfold query
  cases s.strategy with
  | testId => exact h _ _ (by decide) _
  | accessibleLabel => exact h _ _ (by decide) _
  | visibleText => exact h _ _ (by decide) _
  | placeholder => exact h _ _ (by decide) _
  | structuralRole => exact h _ _ (by decide) _

/-! ### Kinds of tests -/

namespace Suite

/-- A test of a component, by what it is for. -/
inductive IsCase (s : Settings) (pass : Pass) (c : Component) : TestCase → Prop
  | crash : IsCase s pass c (crashCase c)
  | defaults : IsCase s pass c (defaultsCase c)
  | presence {e : InteractiveElement} : e ∈ c.interactive →
      IsCase s pass c (presenceCase c e)
  | conditional {e : ConditionalElement} : pass = .enriched → e ∈ c.conditional →
      overrides s.framework c e ≠ [] →
      IsCase s pass c (conditionalCase c e (overrides s.framework c e))
  | variant {p : ComponentProp} : p ∈ c.booleanProps → IsCase s pass c (variantCase c p)
  | click {e : InteractiveElement} : e ∈ c.interactive → IsCase s pass c (clickCase c e)
  | input {e : InteractiveElement} {kind : InputKind} : e ∈ c.interactive →
      IsCase s pass c (inputCase c e kind)
  | snapshot : IsCase s pass c (snapshotCase c)

section cases
variable {s : Settings} {pass : Pass} {c : Component} {t : TestCase}

theorem mem_of_mem_distinctSelectors {seen : List Selector} {es : List InteractiveElement}
    {e : InteractiveElement} (h : e ∈ distinctSelectors seen es) : e ∈ es := by
  induction es generalizing seen with
  | nil => exact h
  | cons x es ih =>
      unfold distinctSelectors at h
      split at h
      · exact List.mem_cons_of_mem _ (ih h)
      · rcases List.mem_cons.mp h with rfl | h
        · exact List.mem_cons_self
        · exact List.mem_cons_of_mem _ (ih h)

theorem isCase_of_mem_presence (h : t ∈ presenceCases s.maxButtons s.maxInputs c) :
    IsCase s pass c t := by
  obtain ⟨e, he, rfl⟩ := List.mem_map.mp h
  refine .presence ?_
  rcases List.mem_append.mp (mem_of_mem_distinctSelectors he) with he | he
  · exact (List.mem_filter.mp (List.mem_of_mem_take he)).1
  · exact (List.mem_filter.mp (List.mem_of_mem_take he)).1

theorem isCase_of_mem_conditional (h : t ∈ conditionalCases s.framework c)
    (hpass : pass = .enriched) : IsCase s pass c t := by
  obtain ⟨e, he, ht⟩ := List.mem_filterMap.mp h
  unfold conditionalCase? at ht
  dsimp only at ht
  split at ht
  · cases ht
  · rename_i hne
    cases ht
    exact .conditional hpass he (by simpa using hne)

theorem isCase_of_mem_interaction (h : t ∈ interactionCases c) : IsCase s pass c t := by
  obtain ⟨e, he, ht⟩ := List.mem_filterMap.mp h
  have hmem := (List.mem_filter.mp (mem_of_mem_distinctSelectors he)).1
  unfold interactionCase? at ht
  split at ht
  · cases ht
    exact .click hmem
  · cases ht
    exact .input hmem
  · cases ht

/-- A component has no other tests. -/
theorem isCase_of_mem (h : t ∈ testCases s pass c) : IsCase s pass c t := by
  simp only [testCases, List.mem_append, List.mem_cons, List.not_mem_nil, or_false] at h
  rcases h with (((rfl | rfl) | h) | h) | rfl
  · exact .crash
  · exact .defaults
  · exact isCase_of_mem_presence h
  · cases pass with
    | minimal => cases h
    | enriched =>
        simp only [enrichedCases, List.mem_append] at h
        rcases h with (h | h) | h
        · exact isCase_of_mem_conditional h rfl
        · split at h
          · obtain ⟨p, hp, rfl⟩ := List.mem_map.mp h
            exact .variant hp
          · cases h
        · exact isCase_of_mem_interaction h
  · exact .snapshot

end cases

/-! ### Kinds of statements -/

/-- How the statements begin that look for an element on the screen. -/
def screenHeads : List String :=
  ["expect(screen.", "const field = screen.", "await user.click(screen."]

/-- How the statement begins that sets a user up. -/
def userHead : String := "const user = userEvent.setup()"

/-- How the statements begin that assert something of a default prop. -/
def defaultHead : String := "expect(defaultProps"

/-- How all other statements begin. -/
def plainHeads : List String :=
  ["render", "expect(() => ", "const \x7b ", "expect(container)", "expect(asFragment())",
    "expect(field)", "await user.type(", "await user.click(field"]

/-- Whether a statement looks for an element on the screen. -/
def queriesScreen (line : String) : Bool := screenHeads.any (Text.startsWith line)

/-- Whether a statement sets a user up. -/
def setsUpUser (line : String) : Bool := Text.startsWith line userHead

/-- Whether a statement asserts something of a default prop. -/
def assertsDefault (line : String) : Bool := Text.startsWith line defaultHead

/-- A statement of a test of a component. -/
inductive IsStatement (c : Component) (scenario : Scenario) : String → Prop
  | plain {line head : String} : head ∈ plainHeads → Text.Begins line head →
      IsStatement c scenario line
  | query {line head : String} : scenario.queriesScreen = true → head ∈ screenHeads →
      Text.Begins line head → IsStatement c scenario line
  | setup : scenario.actsAsUser = true → IsStatement c scenario "const user = userEvent.setup();"
  | called {e : InteractiveElement} {name : String} : e ∈ c.interactive →
      name ∈ e.handlerProps → IsStatement c scenario (expectCalled name)

theorem begins_renderCall (c : Component) : Text.Begins (renderCall c) "render" :=
  ((Text.Begins.of_isPrefixOf (by decide)).append_right c.name).append_right "();"

theorem begins_propAccess (name : String) : Text.Begins (propAccess name) "defaultProps" := by
  unfold propAccess
  split
  · exact (Text.Begins.of_isPrefixOf (by decide)).append_right name
  · exact ((Text.Begins.of_isPrefixOf (by decide)).append_right _).append_right "]"

theorem begins_expectCalled (name : String) : Text.Begins (expectCalled name) defaultHead :=
  ((begins_propAccess name).append_left "expect(").append_right ").toHaveBeenCalled();"

section statements
variable {c : Component} {scenario : Scenario} {line : String}

/-- Only a test that is meant to looks on the screen. -/
theorem IsStatement.of_queriesScreen (h : IsStatement c scenario line)
    (hq : queriesScreen line = true) : scenario.queriesScreen = true := by
  have hparts : ∀ head ∈ plainHeads, ∀ p ∈ screenHeads, Text.parts p head = true := by decide
  unfold queriesScreen at hq
  cases h with
  | plain hmem hb =>
      rw [hb.any_startsWith_eq_false (hparts _ hmem)] at hq
      cases hq
  | query hs _ _ => exact hs
  | setup => exact absurd hq (by decide)
  | called _ _ =>
      rw [(begins_expectCalled _).any_startsWith_eq_false (by decide)] at hq
      cases hq

/-- Only a test that is meant to sets a user up. -/
theorem IsStatement.of_setsUpUser (h : IsStatement c scenario line)
    (hu : setsUpUser line = true) : scenario.actsAsUser = true := by
  have hplain : ∀ head ∈ plainHeads, Text.parts userHead head = true := by decide
  have hscreen : ∀ head ∈ screenHeads, Text.parts userHead head = true := by decide
  unfold setsUpUser at hu
  cases h with
  | plain hmem hb =>
      rw [hb.startsWith_eq_false (hplain _ hmem)] at hu
      cases hu
  | query _ hmem hb =>
      rw [hb.startsWith_eq_false (hscreen _ hmem)] at hu
      cases hu
  | setup hs => exact hs
  | called _ _ =>
      rw [(begins_expectCalled _).startsWith_eq_false (by decide)] at hu
      cases hu

/-- What is asserted of a default prop is that a handler was called. -/
theorem IsStatement.of_assertsDefault (h : IsStatement c scenario line)
    (ha : assertsDefault line = true) :
    ∃ e ∈ c.interactive, ∃ name ∈ e.handlerProps, line = expectCalled name := by
  have hplain : ∀ head ∈ plainHeads, Text.parts defaultHead head = true := by decide
  have hscreen : ∀ head ∈ screenHeads, Text.parts defaultHead head = true := by decide
  unfold assertsDefault at ha
  cases h with
  | plain hmem hb =>
      rw [hb.startsWith_eq_false (hplain _ hmem)] at ha
      cases ha
  | query _ hmem hb =>
      rw [hb.startsWith_eq_false (hscreen _ hmem)] at ha
      cases ha
  | setup => exact absurd ha (by decide)
  | @called e name he hname => exact ⟨e, he, name, hname, rfl⟩

end statements

/-! ### Statements of tests -/

section bodies
variable {s : Settings} {pass : Pass} {c : Component} {t : TestCase}

/-- A statement is plain if its first part is. -/
theorem IsStatement.of_head {scenario : Scenario} (head : String) {first : String}
    (hmem : head ∈ plainHeads) (hfirst : head.toList.isPrefixOf first.toList = true)
    (rest : String) : IsStatement c scenario (first ++ rest) :=
  .plain hmem ((Text.Begins.of_isPrefixOf hfirst).append_right rest)

theorem isStatement_renderCall (c : Component) (scenario : Scenario) :
    IsStatement c scenario (renderCall c) :=
  .plain (by decide) (begins_renderCall c)

/-- That an element is present is asserted by a query. -/
theorem isStatement_expectPresent {scenario : Scenario} (hs : scenario.queriesScreen = true)
    (x : Selector) : IsStatement c scenario (expectPresent x.query) := by
  have hb : Text.Begins (expectPresent x.query) "expect(screen." :=
    (x.begins_query.append_left "expect(").append_right ").toBeInTheDocument();"
  exact .query hs (by decide) hb

theorem isStatement_click (x : Selector) :
    IsStatement c .interaction ("await user.click(" ++ x.query ++ ");") := by
  have hb : Text.Begins ("await user.click(" ++ x.query ++ ");") "await user.click(screen." :=
    (x.begins_query.append_left "await user.click(").append_right ");"
  exact .query rfl (by decide) hb

theorem isStatement_field (x : Selector) :
    IsStatement c .interaction ("const field = " ++ x.query ++ ";") := by
  have hb : Text.Begins ("const field = " ++ x.query ++ ";") "const field = screen." :=
    (x.begins_query.append_left "const field = ").append_right ";"
  exact .query rfl (by decide) hb

theorem isStatement_typeText (text : String) :
    IsStatement c .interaction (typeText text) := by
  have hb : Text.Begins (typeText text) "await user.type(" :=
    ((Text.Begins.of_isPrefixOf (by decide)).append_right _).append_right ");"
  exact .plain (by decide) hb

theorem isStatement_clickField : IsStatement c .interaction "await user.click(field);" := by
  have hb : Text.Begins "await user.click(field);" "await user.click(field" :=
    .of_isPrefixOf (by decide)
  exact .plain (by decide) hb

theorem isStatement_expectField {line : String} (h : Text.Begins line "expect(field)") :
    IsStatement c .interaction line :=
  .plain (by decide) h

theorem begins_expectField : Text.Begins (expectPresent "field") "expect(field)" :=
  .of_isPrefixOf (by decide)

theorem isStatement_expectContainer (scenario : Scenario) :
    IsStatement c scenario (expectPresent "container") := by
  have hb : Text.Begins (expectPresent "container") "expect(container)" :=
    .of_isPrefixOf (by decide)
  exact .plain (by decide) hb

/-- The action and the effect of using an input are plain statements. -/
theorem isStatement_inputUse (kind : InputKind) (target : String) :
    IsStatement c .interaction (inputUse kind target).2.1 ∧
      IsStatement c .interaction (inputUse kind target).2.2 := by
  have hchecked : Text.Begins "expect(field).toBeChecked();" "expect(field)" :=
    .of_isPrefixOf (by decide)
  cases kind with
  | text =>
      have hb : Text.Begins
          ("expect(field).toHaveValue(" ++ Text.literal "Test input" ++ ");") "expect(field)" :=
        ((Text.Begins.of_isPrefixOf (by decide)).append_right _).append_right ");"
      exact ⟨isStatement_typeText _, isStatement_expectField hb⟩
  | number =>
      have hb : Text.Begins "expect(field).toHaveValue(42);" "expect(field)" :=
        .of_isPrefixOf (by decide)
      exact ⟨isStatement_typeText _, isStatement_expectField hb⟩
  | checkbox => exact ⟨isStatement_clickField, isStatement_expectField hchecked⟩
  | radio => exact ⟨isStatement_clickField, isStatement_expectField hchecked⟩
  | select => exact ⟨isStatement_clickField, isStatement_expectField begins_expectField⟩

theorem isStatement_inputCheck {e : InteractiveElement} (he : e ∈ c.interactive) {effect : String}
    (heffect : IsStatement c .interaction effect) :
    IsStatement c .interaction (inputCheck e effect) := by
  unfold inputCheck
  split
  · rename_i name hname
    exact .called he (List.mem_of_head? hname)
  · split
    · exact isStatement_expectField begins_expectField
    · exact heffect

theorem isStatement_of_mem_click {e : InteractiveElement} (he : e ∈ c.interactive) {line : String}
    (h : line ∈ (clickCase c e).body) : IsStatement c .interaction line := by
  unfold clickCase at h
  dsimp only at h
  split at h
  · rename_i name hname
    simp only [TestCase.waiting, List.mem_cons, List.not_mem_nil, or_false] at h
    rcases h with rfl | rfl | rfl | rfl
    · exact .setup rfl
    · exact isStatement_renderCall c _
    · exact isStatement_click _
    · exact .called he (List.mem_of_head? hname)
  · simp only [TestCase.waiting, List.mem_cons, List.not_mem_nil, or_false] at h
    rcases h with rfl | rfl | rfl | rfl
    · exact .setup rfl
    · exact .of_head "const \x7b " (by decide) (by decide) _
    · exact isStatement_click _
    · exact isStatement_expectContainer _

theorem isStatement_of_mem_input {e : InteractiveElement} {kind : InputKind}
    (he : e ∈ c.interactive) {line : String} (h : line ∈ (inputCase c e kind).body) :
    IsStatement c .interaction line := by
  obtain ⟨haction, heffect⟩ := isStatement_inputUse (c := c) kind (e.selector.describe e.kind)
  simp only [inputCase, TestCase.waiting, List.mem_cons, List.not_mem_nil, or_false] at h
  rcases h with rfl | rfl | rfl | rfl | rfl
  · exact .setup rfl
  · exact isStatement_renderCall c _
  · exact isStatement_field _
  · exact haction
  · exact isStatement_inputCheck he heffect

theorem scenario_clickCase (c : Component) (e : InteractiveElement) :
    (clickCase c e).scenario = .interaction := by
  unfold clickCase
  dsimp only
  split <;> rfl

/-- Every statement of a test is of one of these kinds. -/
theorem isStatement_of_mem (h : IsCase s pass c t) {line : String} (hl : line ∈ t.body) :
    IsStatement c t.scenario line := by
  cases h with
  | crash =>
      rw [List.mem_singleton.mp hl]
      have hb : Text.Begins ("expect(() => " ++ renderHelper c ++ "()).not.toThrow();")
          "expect(() => " :=
        ((Text.Begins.of_isPrefixOf (by decide)).append_right _).append_right _
      exact .plain (by decide) hb
  | defaults =>
      simp only [defaultsCase, List.mem_cons, List.not_mem_nil, or_false] at hl
      rcases hl with rfl | rfl
      · exact .of_head "const \x7b " (by decide) (by decide) _
      · exact isStatement_expectContainer _
  | presence he =>
      simp only [presenceCase, TestCase.titled, List.mem_cons, List.not_mem_nil, or_false] at hl
      rcases hl with rfl | rfl
      · exact isStatement_renderCall c _
      · exact isStatement_expectPresent rfl _
  | conditional hpass he hne =>
      simp only [conditionalCase, TestCase.titled, List.mem_cons, List.not_mem_nil, or_false] at hl
      rcases hl with rfl | rfl
      · rw [renderHelper, String.append_assoc, String.append_assoc, String.append_assoc]
        exact .of_head "render" (by decide) (by decide) _
      · exact isStatement_expectPresent rfl _
  | variant hp =>
      simp only [variantCase, List.mem_cons, List.not_mem_nil, or_false] at hl
      rcases hl with rfl | rfl
      · rw [String.append_assoc, String.append_assoc, String.append_assoc]
        exact .of_head "const \x7b " (by decide) (by decide) _
      · exact isStatement_expectContainer _
  | click he =>
      rw [scenario_clickCase]
      exact isStatement_of_mem_click he hl
  | input he => exact isStatement_of_mem_input he hl
  | snapshot =>
      simp only [snapshotCase, List.mem_cons, List.not_mem_nil, or_false] at hl
      rcases hl with rfl | rfl
      · exact .of_head "const \x7b " (by decide) (by decide) _
      · have hb : Text.Begins "expect(asFragment()).toMatchSnapshot();" "expect(asFragment())" :=
          .of_isPrefixOf (by decide)
        exact .plain (by decide) hb

/-- A test that looks on the screen has a statement that does. -/
theorem IsCase.exists_queriesScreen (h : IsCase s pass c t)
    (hs : t.scenario.queriesScreen = true) : ∃ line ∈ t.body, queriesScreen line = true := by
  have hquery : ∀ {head line : String}, Text.Begins line head → head ∈ screenHeads →
      queriesScreen line = true := fun hb hmem => hb.any_startsWith hmem
  have hpresent (x : Selector) : queriesScreen (expectPresent x.query) = true :=
    hquery ((x.begins_query.append_left "expect(").append_right _) (by decide)
  cases h with
  | presence => exact ⟨_, List.mem_cons_of_mem _ List.mem_cons_self, hpresent _⟩
  | conditional => exact ⟨_, List.mem_cons_of_mem _ List.mem_cons_self, hpresent _⟩
  | @click e he =>
      refine ⟨"await user.click(" ++ e.selector.query ++ ");", ?_, ?_⟩
      · unfold clickCase
        dsimp only
        split <;> simp [TestCase.waiting]
      · exact hquery ((e.selector.begins_query.append_left "await user.click(").append_right ");")
          (by decide)
  | @input e kind he =>
      refine ⟨"const field = " ++ e.selector.query ++ ";", by simp [inputCase, TestCase.waiting], ?_⟩
      exact hquery ((e.selector.begins_query.append_left "const field = ").append_right ";")
        (by decide)
  | crash => cases hs
  | defaults => cases hs
  | variant => cases hs
  | snapshot => cases hs

/-- A test that acts as a user sets one up. -/
theorem IsCase.exists_setsUpUser (h : IsCase s pass c t) (hs : t.scenario.actsAsUser = true) :
    ∃ line ∈ t.body, setsUpUser line = true := by
  have hsetup : setsUpUser "const user = userEvent.setup();" = true := by decide
  cases h with
  | click =>
      refine ⟨_, ?_, hsetup⟩
      unfold clickCase
      dsimp only
      split <;> simp [TestCase.waiting]
  | input => exact ⟨_, List.mem_cons_self, hsetup⟩
  | crash => cases hs
  | defaults => cases hs
  | presence => cases hs
  | conditional => cases hs
  | variant => cases hs
  | snapshot => cases hs

/-- A test looks on the screen exactly when it is meant to. -/
theorem any_queriesScreen (h : IsCase s pass c t) :
    t.body.any queriesScreen = t.scenario.queriesScreen := by
  rw [Bool.eq_iff_iff, List.any_eq_true]
  constructor
  · rintro ⟨line, hl, hq⟩
    exact (isStatement_of_mem h hl).of_queriesScreen hq
  · exact h.exists_queriesScreen

/-- A test sets a user up exactly when it is meant to act as one. -/
theorem any_setsUpUser (h : IsCase s pass c t) :
    t.body.any setsUpUser = t.scenario.actsAsUser := by
  rw [Bool.eq_iff_iff, List.any_eq_true]
  constructor
  · rintro ⟨line, hl, hu⟩
    exact (isStatement_of_mem h hl).of_setsUpUser hu
  · exact h.exists_setsUpUser

end bodies

end Suite

end Trellis
