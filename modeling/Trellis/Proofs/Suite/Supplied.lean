import Trellis.Proofs.Suite.Blocks
import Trellis.Proofs.Suite.Entries

/-! # Supplied props

What every render of a component passes to it.

* `Suite.neededProps` are the props that a render has to supply, and
  `Suite.map_readPair?_defaultProps` says that the object of default props has one entry for each of
  them, and no other.
* `Suite.RendersOnce` says that among the statements of a test one calls the helper, and no other
  renders; `Suite.IsCase.rendersOnce` that every test is so.
* `Suite.Supplies` puts this together for the block of a component: the text of the object, and that
  the only statement that renders by itself spreads the object before anything else.
  `Suite.supplies`: this holds of every component of a source. -/

namespace Trellis

namespace Suite

/-! ### The object of default props -/

/-- The props that every render has to supply: the required ones and the callbacks. -/
def neededProps (c : Component) : List ComponentProp :=
  c.props.filter fun p => p.isRequired || p.isCallback

/-- The entries of the object of default props are read as the needed props with their values. -/
theorem map_readPair?_defaultProps (f : Framework) (c : Component) :
    ((defaultProps f c).map entryOf).map readPair? =
      (neededProps c).map fun p => some (p.name, Mock.value f p) := by
  rw [defaultProps, ← neededProps, List.map_map, List.map_map]
  exact List.map_congr_left fun p _ => readPair?_entry p.name (Mock.value f p)

theorem nodup_neededProps {c : Component} (h : c.IsAnalyzed) :
    ((neededProps c).map (·.name)).Nodup :=
  h.nodup.sublist (List.filter_sublist.map _)

/-! ### Calls -/

/-- What may stand before a call in a statement of a test. -/
def callLeads : List String :=
  ["", "const \x7b container \x7d = ", "const \x7b asFragment \x7d = ", "expect(() => "]

/-- Whether a line calls something, first thing or after a lead. -/
def beginsCall (head line : String) : Bool :=
  callLeads.any fun lead => Text.startsWith line (lead ++ head)

section calls
variable {line head : String} {c : Component}

/-- A line that begins otherwise does not render. -/
theorem beginsCall_of_begins (h : Text.Begins line head)
    (hp : ∀ lead ∈ callLeads, Text.parts (lead ++ "render") head = true) :
    beginsCall "render" line = false := by
  rw [beginsCall, List.any_eq_false]
  intro lead hlead
  rw [h.startsWith_eq_false (hp lead hlead)]
  exact Bool.false_ne_true

/-- A line without a call of a name does not call it in parentheses either. -/
theorem beginsCall_paren (h : beginsCall "render" line = false) :
    beginsCall "render(" line = false := by
  rw [beginsCall, List.any_eq_false] at h ⊢
  intro lead hlead hline
  have hpre : (lead ++ "render").toList <+: (lead ++ "render(").toList := by
    rw [String.toList_append, String.toList_append, List.prefix_append_right_inj]
    exact List.isPrefixOf_iff_prefix.mp (by decide)
  exact h lead hlead
    (List.isPrefixOf_iff_prefix.mpr (hpre.trans (List.isPrefixOf_iff_prefix.mp hline)))

/-- A call of the helper is no call of the library's function, since the name of a component begins
with a letter. -/
theorem beginsCall_helper (hname : Candidate.isComponentName c.name = true) {lead : String}
    (hlead : lead ∈ callLeads) (hcall : Text.Begins line (lead ++ renderHelper c)) :
    beginsCall "render(" line = false := by
  have hpairs : ∀ lead ∈ callLeads, ∀ lead' ∈ callLeads, lead' = lead ∨
      Text.parts (lead' ++ "render(") (lead ++ "render") = true := by decide
  have hrender : (lead ++ renderHelper c).toList =
      (lead ++ "render").toList ++ c.name.toList := by
    rw [renderHelper, ← String.append_assoc, String.toList_append]
  have hbegins : Text.Begins line (lead ++ "render") := by
    rw [renderHelper, ← String.append_assoc] at hcall
    exact hcall.of_append
  rw [beginsCall, List.any_eq_false]
  intro lead' hlead'
  rcases hpairs lead hlead lead' hlead' with rfl | hparts
  · intro hline
    -- Both begin the line, so the name of the component would begin with a parenthesis.
    have hopen : (lead' ++ "render(").toList = (lead' ++ "render").toList ++ ['('] := by
      have happend : "render(" = "render" ++ "(" := rfl
      rw [happend, ← String.append_assoc, String.toList_append]
      rfl
    unfold Candidate.isComponentName at hname
    cases hlist : c.name.toList with
    | nil => rw [hlist] at hname; cases hname
    | cons u more =>
        rw [hlist] at hname
        have hpre := List.isPrefixOf_iff_prefix.mp hline
        rw [Text.Begins, hrender, hlist] at hcall
        rw [hopen] at hpre
        obtain ⟨rest, hrest⟩ := hcall
        obtain ⟨rest', hrest'⟩ := hpre
        rw [← hrest', List.append_assoc, List.append_assoc] at hrest
        have hu : u = '(' := (List.cons.inj (List.append_cancel_left hrest)).1
        rw [hu] at hname
        exact absurd hname Bool.false_ne_true
  · rw [hbegins.startsWith_eq_false hparts]
    exact Bool.false_ne_true

end calls

/-! ### Statements that do not render -/

/-- How the statements of a test begin that do not render. -/
def otherHeads : List String :=
  screenHeads ++ [userHead, defaultHead, "expect(container)", "expect(asFragment())",
    "expect(field)", "await user.type(", "await user.click(field"]

/-- Whether a statement of a test is one of those that do not render. -/
def IsOther (line : String) : Prop := ∃ head ∈ otherHeads, Text.Begins line head

theorem IsOther.beginsCall {line : String} (h : IsOther line) :
    beginsCall "render" line = false := by
  have hparts : ∀ head ∈ otherHeads, ∀ lead ∈ callLeads,
      Text.parts (lead ++ "render") head = true := by decide
  obtain ⟨head, hmem, hbegins⟩ := h
  exact beginsCall_of_begins hbegins (hparts head hmem)

section others

theorem isOther_expectQuery (x : Selector) : IsOther (expectPresent x.query) :=
  ⟨"expect(screen.", by decide, (x.begins_query.append_left "expect(").append_right _⟩

theorem isOther_fieldQuery (x : Selector) : IsOther ("const field = " ++ x.query ++ ";") :=
  ⟨"const field = screen.", by decide, (x.begins_query.append_left "const field = ").append_right _⟩

theorem isOther_clickQuery (x : Selector) : IsOther ("await user.click(" ++ x.query ++ ");") :=
  ⟨"await user.click(screen.", by decide,
    (x.begins_query.append_left "await user.click(").append_right _⟩

theorem isOther_expectCalled (name : String) : IsOther (expectCalled name) :=
  ⟨defaultHead, by decide, begins_expectCalled name⟩

theorem isOther_setup : IsOther "const user = userEvent.setup();" :=
  ⟨userHead, by decide, .of_isPrefixOf (by decide)⟩

theorem isOther_expectContainer : IsOther (expectPresent "container") :=
  ⟨"expect(container)", by decide, .of_isPrefixOf (by decide)⟩

theorem isOther_expectField {line : String} (h : Text.Begins line "expect(field)") :
    IsOther line :=
  ⟨"expect(field)", by decide, h⟩

theorem isOther_typeText (text : String) : IsOther (typeText text) :=
  ⟨"await user.type(", by decide,
    ((Text.Begins.of_isPrefixOf (by decide)).append_right _).append_right _⟩

theorem isOther_clickField : IsOther "await user.click(field);" :=
  ⟨"await user.click(field", by decide, .of_isPrefixOf (by decide)⟩

/-- The action and the effect of using an input do not render. -/
theorem isOther_inputUse (kind : InputKind) (target : String) :
    IsOther (inputUse kind target).2.1 ∧ IsOther (inputUse kind target).2.2 := by
  have hchecked : Text.Begins "expect(field).toBeChecked();" "expect(field)" :=
    .of_isPrefixOf (by decide)
  cases kind with
  | text =>
      refine ⟨isOther_typeText _, isOther_expectField ?_⟩
      exact ((Text.Begins.of_isPrefixOf (by decide)).append_right _).append_right _
  | number =>
      have hvalue : Text.Begins "expect(field).toHaveValue(42);" "expect(field)" :=
        .of_isPrefixOf (by decide)
      exact ⟨isOther_typeText _, isOther_expectField hvalue⟩
  | checkbox => exact ⟨isOther_clickField, isOther_expectField hchecked⟩
  | radio => exact ⟨isOther_clickField, isOther_expectField hchecked⟩
  | select => exact ⟨isOther_clickField, isOther_expectField begins_expectField⟩

theorem isOther_inputCheck (e : InteractiveElement) {effect : String} (h : IsOther effect) :
    IsOther (inputCheck e effect) := by
  unfold inputCheck
  split
  · exact isOther_expectCalled _
  · split
    · exact isOther_expectField begins_expectField
    · exact h

end others

/-! ### Tests -/

/-- Whether one of some statements calls the helper, and no other renders. -/
def RendersOnce (c : Component) (body : List String) : Prop :=
  ∃ before call after, body = before ++ [call] ++ after ∧
    (∃ lead ∈ callLeads, Text.Begins call (lead ++ renderHelper c ++ "(")) ∧
    ∀ line ∈ before ++ after, beginsCall "render" line = false

section cases
variable {s : Settings} {pass : Pass} {c : Component} {t : TestCase}

/-- Statements among which one calls the helper, given by what stands before and after it. -/
theorem RendersOnce.of_others {args : String} (before : List String) (lead : String)
    (after : List String) (hlead : lead ∈ callLeads) (hargs : Text.Begins args "(")
    (hothers : ∀ line ∈ before ++ after, IsOther line) :
    RendersOnce c (before ++ [lead ++ (renderHelper c ++ args)] ++ after) := by
  refine ⟨before, _, after, rfl, ⟨lead, hlead, ?_⟩, fun line hl => (hothers line hl).beginsCall⟩
  rw [String.append_assoc]
  exact (hargs.append_left _).append_left _

theorem renderCall_eq (c : Component) : renderCall c = "" ++ (renderHelper c ++ "();") :=
  String.empty_append.symm

theorem conditionalCall_eq (c : Component) (entries : String) :
    renderHelper c ++ "(\x7b " ++ entries ++ " \x7d);" =
      "" ++ (renderHelper c ++ ("(\x7b " ++ entries ++ " \x7d);")) := by
  rw [String.empty_append]
  simp only [String.append_assoc]

/-- Every test of a component renders once, by the helper. -/
theorem IsCase.rendersOnce (h : IsCase s pass c t) : RendersOnce c t.body := by
  have hempty : Text.Begins "();" "(" := .of_isPrefixOf (by decide)
  cases h with
  | crash =>
      have hargs : Text.Begins "()).not.toThrow();" "(" := .of_isPrefixOf (by decide)
      rw [crashCase, String.append_assoc]
      exact .of_others [] "expect(() => " [] (by decide) hargs (by simp)
  | defaults =>
      refine .of_others [] "const \x7b container \x7d = " [_] (by decide) hempty ?_
      simpa using isOther_expectContainer
  | @presence e he =>
      rw [presenceCase, renderCall_eq]
      refine .of_others [] "" [_] (by decide) hempty ?_
      simpa using isOther_expectQuery e.selector
  | @conditional e _ _ _ =>
      rw [conditionalCase, conditionalCall_eq]
      refine .of_others [] "" [_] (by decide) ?_ (by simpa using isOther_expectQuery e.selector)
      exact ((Text.Begins.of_isPrefixOf (by decide)).append_right _).append_right _
  | @variant p hp =>
      rw [variantCase]
      simp only [String.append_assoc]
      refine .of_others [] "const \x7b container \x7d = " [_] (by decide) ?_ ?_
      · exact (Text.Begins.of_isPrefixOf (by decide)).append_right _
      · simpa using isOther_expectContainer
  | @click e he =>
      unfold clickCase
      dsimp only
      split
      · rw [renderCall_eq]
        refine .of_others [_] "" [_, _] (by decide) hempty ?_
        simpa using ⟨isOther_setup, isOther_clickQuery e.selector, isOther_expectCalled _⟩
      · refine .of_others [_] "const \x7b container \x7d = " [_, _] (by decide) hempty ?_
        simpa using ⟨isOther_setup, isOther_clickQuery e.selector, isOther_expectContainer⟩
  | @input e kind he =>
      obtain ⟨haction, heffect⟩ := isOther_inputUse kind (e.selector.describe e.kind)
      rw [inputCase, renderCall_eq]
      refine .of_others [_] "" [_, _, _] (by decide) hempty ?_
      simpa using ⟨isOther_setup, isOther_fieldQuery e.selector, haction,
        isOther_inputCheck e heffect⟩
  | snapshot =>
      have hfragment : IsOther "expect(asFragment()).toMatchSnapshot();" :=
        ⟨"expect(asFragment())", by decide, .of_isPrefixOf (by decide)⟩
      refine .of_others [] "const \x7b asFragment \x7d = " [_] (by decide) hempty ?_
      simpa using hfragment

end cases

/-! ### Blocks -/

end Suite

/-- Whether a line renders by the library's function. -/
def Layout.renders : Layout → Bool
  | line _ text => Suite.beginsCall "render(" text
  | closing _ text => Suite.beginsCall "render(" text
  | gap => false

namespace Suite

section blocks
variable {s : Settings} {pass : Pass} {typed : Bool} {c : Component}

/-- A bare key ends at the first character that is not part of a name. -/
theorem key?_append {p : List Char} (hstart : p.head?.any isNameStart = true)
    (hstop : p.dropWhile isNamePart ≠ []) (more : List Char) :
    key? (p ++ more) = some (p.takeWhile isNamePart, p.dropWhile isNamePart ++ more) := by
  have hhead : (p ++ more).head?.any isNameStart = true := by
    cases p with
    | nil => cases hstart
    | cons c p => exact hstart
  have hlength : (p.takeWhile isNamePart).length ≠ p.length := fun heq => by
    have hsum := congrArg List.length (List.takeWhile_append_dropWhile (p := isNamePart) (l := p))
    rw [List.length_append, heq] at hsum
    exact hstop (List.eq_nil_of_length_eq_zero (Nat.add_eq_left.mp hsum))
  rw [key?, if_pos hhead, List.takeWhile_append, if_neg hlength, List.dropWhile_append,
    if_neg (by simpa using hstop)]

/-- No entry of an object renders: after its key there is a colon. -/
theorem beginsCall_entry (name value : String) :
    beginsCall "render(" (propKey name ++ ": " ++ value) = false := by
  have hleads : ∀ lead ∈ callLeads, (lead ++ "render(").toList.head?.any isNameStart = true ∧
      ((lead ++ "render(").toList.dropWhile isNamePart).head?.any (· ≠ ':') = true := by decide
  have hentry : (propKey name ++ ": " ++ value).toList =
      (propKey name).toList ++ ':' :: ' ' :: value.toList := by
    rw [String.toList_append, String.toList_append, List.append_assoc]
    rfl
  have hkey : key? ((propKey name).toList ++ ':' :: ' ' :: value.toList) =
      some (name.toList, ':' :: ' ' :: value.toList) :=
    key?_propKey name fun c hc => by
      cases hc
      decide
  rw [beginsCall, List.any_eq_false]
  intro lead hlead hline
  obtain ⟨hstart, hstop⟩ := hleads lead hlead
  obtain ⟨more, hmore⟩ := List.isPrefixOf_iff_prefix.mp hline
  cases hdrop : (lead ++ "render(").toList.dropWhile isNamePart with
  | nil => rw [hdrop] at hstop; cases hstop
  | cons d rest =>
      rw [hdrop] at hstop
      rw [← hentry, ← hmore, key?_append hstart (by rw [hdrop]; exact List.cons_ne_nil d rest),
        hdrop] at hkey
      have hd : d = ':' := (List.cons.inj (Prod.mk.inj (Option.some.inj hkey)).2).1
      exact of_decide_eq_true hstop hd

theorem renders_of_begins {depth : Nat} {line head : String} (h : Text.Begins line head)
    (hp : ∀ lead ∈ callLeads, Text.parts (lead ++ "render") head = true) :
    (Layout.line depth line).renders = false :=
  beginsCall_paren (beginsCall_of_begins h hp)

/-- The object of default props does not render. -/
theorem renders_of_mem_defaultsLayout {g : Group} {item : Layout}
    (h : item ∈ defaultsLayout typed g) : item.renders = false := by
  have hopening {line : String} (h : Text.Begins line "const defaultProps") :
      (Layout.line 1 line).renders = false := renders_of_begins h (by decide)
  unfold defaultsLayout at h
  dsimp only at h
  split at h
  · rw [List.mem_singleton.mp h]
    refine hopening ?_
    exact ((Text.Begins.of_isPrefixOf (by decide)).append_right _).append_right _
  · simp only [List.cons_append, List.mem_cons, List.mem_append, List.mem_map, List.not_mem_nil,
      or_false] at h
    rcases h with rfl | ⟨d, _, rfl⟩ | rfl
    · exact hopening (.of_isPrefixOf (by decide))
    · rw [Layout.renders, String.append_assoc]
      exact beginsCall_entry d.1.name (d.2 ++ ",")
    · have hclosing (rest : String) : Text.Begins ("\x7d" ++ rest) "\x7d" :=
        (Text.Begins.of_isPrefixOf (by decide)).append_right rest
      rw [Layout.renders, String.append_assoc]
      exact beginsCall_paren (beginsCall_of_begins (hclosing _) (by decide))

/-- The reset of the stubs does not render. -/
theorem renders_of_mem_resetLayout {f : Framework} {item : Layout} (h : item ∈ resetLayout f) :
    item.renders = false := by
  simp only [resetLayout, List.mem_cons, List.not_mem_nil, or_false] at h
  rcases h with rfl | rfl | rfl
  · decide
  · cases f <;> decide
  · decide

/-- The line that opens a test. -/
theorem IsCase.begins_opening {t : TestCase} (h : IsCase s pass c t) :
    Text.Begins t.opening "it" := by
  have hplain (line : String) (hline : "it".toList.isPrefixOf line.toList = true) :
      Text.Begins line "it" := .of_isPrefixOf hline
  have htitle (first rest last : String) (hfirst : "it".toList.isPrefixOf first.toList = true) :
      Text.Begins (first ++ rest ++ last) "it" :=
    ((Text.Begins.of_isPrefixOf hfirst).append_right rest).append_right last
  cases h with
  | crash => exact hplain "it('renders without crashing', () => \x7b" (by decide)
  | defaults => exact hplain "it('renders with default props', () => \x7b" (by decide)
  | presence => exact htitle _ _ _ (by decide)
  | conditional => exact htitle _ _ _ (by decide)
  | variant => exact htitle _ _ _ (by decide)
  | click =>
      unfold clickCase
      dsimp only
      split <;> exact htitle _ _ _ (by decide)
  | input => exact htitle _ _ _ (by decide)
  | snapshot => exact hplain "it('matches the snapshot', () => \x7b" (by decide)

/-- A test does not render but by the helper. -/
theorem renders_of_mem_case (hname : Candidate.isComponentName c.name = true) {t : TestCase}
    (ht : t ∈ testCases s pass c) {item : Layout} (h : item ∈ t.layout) : item.renders = false := by
  have hcase := isCase_of_mem ht
  simp only [TestCase.layout, List.cons_append, List.mem_cons, List.mem_append, List.mem_map,
    List.not_mem_nil, or_false] at h
  rcases h with rfl | ⟨line, hl, rfl⟩ | rfl | rfl
  · exact renders_of_begins hcase.begins_opening (by decide)
  · obtain ⟨before, call, after, hbody, ⟨lead, hlead, hcall⟩, hothers⟩ := hcase.rendersOnce
    rw [hbody, List.mem_append, List.mem_append, List.mem_singleton] at hl
    rcases hl with (hl | rfl) | hl
    · exact beginsCall_paren (hothers line (List.mem_append_left _ hl))
    · exact beginsCall_helper hname hlead hcall.of_append
    · exact beginsCall_paren (hothers line (List.mem_append_right _ hl))
  · decide
  · rfl

end blocks

section supplies
variable {c : Component}

/-- The statement of the helper spreads the object of default props first. -/
theorem exists_renderStatement (wrapper : Option String) (c : Component) : ∃ others,
    renderStatement wrapper c = "render(<" ++ c.name ++ " \x7b...defaultProps\x7d " ++ others := by
  have hopening : "render(<" = "render(" ++ "<" := rfl
  have hspread : " \x7b...defaultProps\x7d \x7b...overrides\x7d />" =
      " \x7b...defaultProps\x7d " ++ "\x7b...overrides\x7d />" := rfl
  have h (rest : String) : ∃ others, "render(" ++ renderedElement c ++ rest =
      "render(<" ++ c.name ++ " \x7b...defaultProps\x7d " ++ others :=
    ⟨"\x7b...overrides\x7d />" ++ rest, by
      simp only [renderedElement, hopening, hspread, String.append_assoc]⟩
  unfold renderStatement
  split
  · next name =>
    rw [String.append_assoc, String.append_assoc]
    exact h _
  · exact h _

/-- The lines of a block but the helper do not render. -/
theorem exists_layout (hname : Candidate.isComponentName c.name = true) (s : Settings)
    (typed : Bool) (pass : Pass) : ∃ before after, (Group.ofComponent s pass c).layout s typed =
      before ++ helperLayout typed (s.wrapper.map Prod.snd) c ++ after ∧
    ∀ item ∈ before ++ after, item.renders = false := by
  refine ⟨.line 0 ("describe(" ++ Text.literal c.name ++ ", () => \x7b") ::
      defaultsLayout typed (Group.ofComponent s pass c) ++ [.gap],
    [.gap] ++ (if (Group.ofComponent s pass c).hasStubs then
        resetLayout s.framework ++ [.gap] else []) ++
      (testCases s pass c).flatMap TestCase.layout ++ [.closing 0 "\x7d);"], ?_, fun item h => ?_⟩
  · simp [Group.layout, Group.ofComponent]
  · simp only [List.mem_append, List.mem_cons, List.not_mem_nil, or_false] at h
    rcases h with ((rfl | h) | rfl) | ((rfl | h) | h) | rfl
    · have hdescribe (name : String) : Text.Begins ("describe(" ++ name ++ ", () => \x7b")
          "describe(" := ((Text.Begins.of_isPrefixOf (by decide)).append_right _).append_right _
      exact renders_of_begins (hdescribe _) (by decide)
    · exact renders_of_mem_defaultsLayout h
    · rfl
    · rfl
    · split at h
      · rcases List.mem_append.mp h with h | h
        · exact renders_of_mem_resetLayout h
        · rw [List.mem_singleton.mp h]
          rfl
      · cases h
    · obtain ⟨t, ht, h⟩ := List.mem_flatMap.mp h
      exact renders_of_mem_case hname ht h
    · decide

end supplies

/-- How the block of a component supplies the props that a render needs. -/
structure Supplies (s : Settings) (typed : Bool) (pass : Pass) (c : Component) : Prop where
  /-- The needed props have distinct names. -/
  nodup : ((neededProps c).map (·.name)).Nodup
  /-- The block begins with the object of default props and the helper. The object has one entry for
  each needed prop, in their order, and no other: its key denotes the prop's name, its value is the
  prop's. -/
  object : ∃ entries rest, groupText s typed pass c =
      Layout.lineChars 0 ("describe(" ++ Text.literal c.name ++ ", () => \x7b") ++
        objectText typed c entries ++ ['\n'] ++
        helperText typed (s.wrapper.map Prod.snd) c ++ ['\n'] ++ rest ∧
    entries.map readPair? = (neededProps c).map fun p => some (p.name, Mock.value s.framework p)
  /-- The statement of the helper is the only one that renders by the library's function, and it
  spreads the object before anything else. -/
  spread : ∃ before others after, (Group.ofComponent s pass c).layout s typed =
      before ++ [.line 1 ("const " ++ renderHelper c ++ " = (" ++ overridesParameter typed c ++ ") =>"),
        .line 2 ("render(<" ++ c.name ++ " \x7b...defaultProps\x7d " ++ others)] ++ after ∧
    ∀ item ∈ before ++ after, item.renders = false
  /-- Every test renders once, by the helper. -/
  rendered : ∀ t ∈ testCases s pass c, RendersOnce c t.body

/-- How a module supplies the props of its components. -/
structure SuppliesAll (s : Settings) (target : Target) (pass : Pass) (cs : List Component) :
    Prop where
  /-- The module is its head, and after a blank line each the blocks of its components. -/
  text_eq : ∃ head, (text s target pass cs).toList =
    head ++ cs.flatMap fun c => '\n' :: groupText s target.typed pass c
  /-- Each block supplies the props of its component. -/
  supplied : ∀ c ∈ cs, Supplies s target.typed pass c

/-- The block of a component that comes out of an analysis supplies its props. -/
theorem supplies_of_isAnalyzed {c : Component} (hc : c.IsAnalyzed)
    (hname : Candidate.isComponentName c.name = true) (s : Settings) (typed : Bool) (pass : Pass) :
    Supplies s typed pass c where
  nodup := nodup_neededProps hc
  object := by
    obtain ⟨rest, hopening⟩ := exists_writes_opening s typed (Group.ofComponent s pass c)
    refine ⟨(defaultProps s.framework c).map entryOf, rest ++
      ['\n'].intercalate ((testCases s pass c).map TestCase.block) ++
      Layout.lineChars 0 "\x7d);", ?_, map_readPair?_defaultProps s.framework c⟩
    rw [groupText, hopening.render_eq]
    simp only [List.append_assoc]
    rfl
  spread := by
    obtain ⟨before, after, hlayout, hother⟩ := exists_layout hname s typed pass
    obtain ⟨others, hothers⟩ := exists_renderStatement (s.wrapper.map Prod.snd) c
    rw [helperLayout, hothers] at hlayout
    exact ⟨before, others, after, hlayout, hother⟩
  rendered t ht := (isCase_of_mem ht).rendersOnce

/-- A component with a required prop whose name is quoted, an optional callback, and a prop that no
render has to supply. -/
def labelled : List Component :=
  sourceComponents
    "export const A=(p:\x7b'data-it':number,onGo?:()=>void,b?:string\x7d)=><p>a</p>"

end Suite

end Trellis
