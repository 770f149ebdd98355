import Trellis.Proofs.Suite.Stubs
import Trellis.Proofs.TypeText.Shapes

/-! # Imports of a test module

What a test module imports, against what its groups use.

* `TypeText.shapeOfMember_literal` says how the literals of a type begin; from it
  `Mock.isCallback_of_value`: no prop of an analyzed component has the stub as its value but a
  callback. So a stub among the overrides of a test comes with one among the default props.
* `Suite.Uses` lists what some groups use, and `Suite.importsFor` what has to be imported for that.
  `Suite.importsMatch`: this is what a module of analyzed components imports, and a group resets the
  stubs when it has some. -/

namespace Trellis

namespace Mock

variable {f : Framework} {p : ComponentProp}

/-- A quoted text is no stub. -/
theorem ne_stub_of_quoted {v : String} (h : v.toList.head? = some '\'' ∨ v.toList.head? = some '"') :
    v ≠ f.stub := by
  rintro rfl
  cases f <;> exact absurd h (by decide)

theorem literal_ne_stub (text : String) : Text.literal text ≠ f.stub := by
  refine ne_stub_of_quoted (.inl ?_)
  rw [Text.literal, String.toList_ofList]
  rfl

theorem ne_stub_of_string {text x : String} (h : TypeShape.classify text = .string (some x)) :
    x ≠ f.stub := by
  obtain ⟨m, -, hm⟩ := TypeShape.exists_member h nofun
  have hquoted := (TypeText.shapeOfMember_literal m x).1 hm
  refine ne_stub_of_quoted ?_
  unfold TypeText.isStringLiteral at hquoted
  split at hquoted
  · rename_i first rest hx
    rw [hx]
    simpa using (Bool.and_eq_true_iff.mp hquoted).1
  · cases hquoted

theorem ne_stub_of_number {text x : String} (h : TypeShape.classify text = .number (some x)) :
    x ≠ f.stub := by
  obtain ⟨m, -, hm⟩ := TypeShape.exists_member h nofun
  have hnumber := (TypeText.shapeOfMember_literal m x).2 hm
  rintro rfl
  cases f <;> exact absurd hnumber (by decide)

/-- What is called back has the stub as its fallback, and nothing else has. -/
theorem callback_of_fallback {shape : TypeShape} (h : fallback f p shape = f.stub) :
    p.isCallback = true ∨ shape.isCallback = true ∨ PropName.isHandler p.name = true := by
  have hempty : "[]" ≠ f.stub ∧ "\x7b\x7d" ≠ f.stub ∧ absent ≠ f.stub := by
    cases f <;> decide
  unfold fallback at h
  split at h
  · rename_i hc
    rwa [Bool.or_eq_true, Bool.or_eq_true, or_assoc] at hc
  · split at h
    · exact absurd h hempty.1
    · exact absurd h hempty.2.1
    · split at h
      · exact absurd h (literal_ne_stub _)
      · exact absurd h hempty.2.2

/-- A prop whose value is the stub is a callback, or its type or its name is one's. -/
theorem callback_of_value (h : value f p = f.stub) :
    p.isCallback = true ∨ (TypeShape.classify p.type).isCallback = true ∨
      ((TypeShape.classify p.type).isValue = false ∧ PropName.isHandler p.name = true) := by
  have hclosed : node ≠ f.stub ∧ "true" ≠ f.stub ∧ "42" ≠ f.stub := by
    cases f <;> decide
  have hfallback {shape : TypeShape} (hv : shape.isValue = false)
      (hs : fallback f p shape = f.stub) : p.isCallback = true ∨ shape.isCallback = true ∨
        (shape.isValue = false ∧ PropName.isHandler p.name = true) := by
    rcases callback_of_fallback hs with hc | hc | hc
    · exact .inl hc
    · exact .inr (.inl hc)
    · exact .inr (.inr ⟨hv, hc⟩)
  unfold value at h
  split at h
  · exact absurd h hclosed.1
  · cases hshape : TypeShape.classify p.type with
    | node =>
        rw [hshape] at h
        exact absurd h hclosed.1
    | string literal =>
        rw [hshape] at h
        cases literal with
        | none => exact absurd h (literal_ne_stub _)
        | some text => exact absurd h (ne_stub_of_string hshape)
    | number literal =>
        rw [hshape] at h
        cases literal with
        | none => exact absurd h hclosed.2.2
        | some text => exact absurd h (ne_stub_of_number hshape)
    | boolean =>
        rw [hshape] at h
        exact absurd h hclosed.2.1
    | unknown =>
        rw [hshape] at h
        dsimp only at h
        split at h
        · exact absurd h hclosed.2.1
        · exact hfallback rfl h
    | callback =>
        rw [hshape] at h
        exact hfallback rfl h
    | array =>
        rw [hshape] at h
        exact hfallback rfl h
    | object =>
        rw [hshape] at h
        exact hfallback rfl h

/-- A prop that is forced to be the stub has it as its value. -/
theorem value_of_forced {truthy : Bool} (h : forced f p truthy = f.stub) :
    value f p = f.stub := by
  have hclosed : truth truthy ≠ f.stub ∧ absent ≠ f.stub ∧ "true" ≠ f.stub := by
    cases f <;> cases truthy <;> decide
  unfold forced at h
  split at h
  · exact absurd h hclosed.1
  · split at h
    · exact absurd h hclosed.2.1
    · split at h
      · exact absurd h hclosed.2.2
      · exact h

end Mock

/-- A prop of an analyzed component whose value is the stub is a callback. -/
theorem Component.IsAnalyzed.isCallback_of_value {c : Component} (hc : c.IsAnalyzed)
    {f : Framework} {p : ComponentProp} (hp : p ∈ c.props) (h : Mock.value f p = f.stub) :
    p.isCallback = true := by
  rcases Mock.callback_of_value h with h | h
  · exact h
  · exact hc.isCallback_of hp h

/-- Whether a line begins with a call of a function. -/
def Layout.calls (name : String) : Layout → Bool
  | line _ text => Text.startsWith text (name ++ "(")
  | _ => false

namespace Suite

/-! ### What the groups use -/

/-- Whether a default prop of a component is a stub. -/
def hasDefaultStub (f : Framework) (c : Component) : Bool :=
  (defaultProps f c).any fun d => d.2 = f.stub

/-- Whether a conditional test of a component passes a stub. -/
def hasOverrideStub (f : Framework) (c : Component) : Bool :=
  c.conditional.any fun e => (overrides f c e).any fun o => o.value = f.stub

/-- What the groups of a module use. -/
structure Uses where
  /-- Whether a statement looks on the screen. -/
  screen : Bool
  /-- Whether a statement sets a user up. -/
  user : Bool
  /-- Whether a prop is passed as a stub. -/
  stubs : Bool
  deriving DecidableEq, Repr

/-- What the groups of some components use, by their statements and the values of their props. -/
def Uses.ofComponents (s : Settings) (pass : Pass) (cs : List Component) : Uses :=
  { screen := cs.any fun c => (testCases s pass c).any fun t => t.body.any queriesScreen
    user := cs.any fun c => (testCases s pass c).any fun t => t.body.any setsUpUser
    stubs := cs.any fun c =>
      hasDefaultStub s.framework c || (pass = .enriched && hasOverrideStub s.framework c) }

/-- The imports of a module whose groups use something. -/
def importsFor (s : Settings) (target : Target) (cs : List Component) (u : Uses) : List String :=
  (s.framework.globalsImport
    ((if u.stubs then ["beforeEach"] else []) ++ ["describe", "expect", "it"] ++
      (if u.stubs then [s.framework.mockNamespace] else []))).toList ++
  ["import React from 'react';",
    "import \x7b " ++ (if u.screen then "render, screen" else "render") ++ " \x7d from '" ++
      s.renderModule ++ "';"] ++
  (if u.user then ["import userEvent from '" ++ s.userEventModule ++ "';"] else []) ++
  [s.framework.matchersImport] ++
  (match s.wrapper with
  | some (path, name) => ["import \x7b " ++ name ++ " \x7d from '" ++ path ++ "';"]
  | none => []) ++
  [componentImport cs target.importPath]

section uses
variable {s : Settings} {pass : Pass} {c : Component} {cs : List Component}

/-- A stub among the overrides comes with one among the default props. -/
theorem hasDefaultStub_of_hasOverrideStub {f : Framework} (hc : c.IsAnalyzed)
    (h : hasOverrideStub f c = true) : hasDefaultStub f c = true := by
  obtain ⟨e, _, he⟩ := List.any_eq_true.mp h
  obtain ⟨o, ho, hstub⟩ := List.any_eq_true.mp he
  obtain ⟨hp, hv, _⟩ := mem_overrides ho
  have hvalue : Mock.value f o.prop = f.stub :=
    Mock.value_of_forced (hv.symm.trans (of_decide_eq_true hstub))
  have hcall := hc.isCallback_of_value hp hvalue
  have hd : (o.prop, Mock.value f o.prop) ∈ defaultProps f c :=
    mem_defaultProps.mpr ⟨hp, by rw [hcall, Bool.or_true], rfl⟩
  exact List.any_eq_true.mpr ⟨_, hd, decide_eq_true hvalue⟩

theorem any_eq_of_mem {α : Type} {l : List α} {p q : α → Bool} (h : ∀ x ∈ l, p x = q x) :
    l.any p = l.any q := by
  rw [Bool.eq_iff_iff, List.any_eq_true, List.any_eq_true]
  exact exists_congr fun x => and_congr_right fun hx => by rw [h x hx]

/-- The tests that are meant to look on the screen are those with a statement that does. -/
theorem usesScreen_eq (cs : List Component) :
    usesScreen (cs.map (Group.ofComponent s pass)) = (Uses.ofComponents s pass cs).screen := by
  rw [usesScreen, List.any_map]
  refine any_eq_of_mem fun c _ => any_eq_of_mem fun t ht => ?_
  exact (any_queriesScreen (isCase_of_mem ht)).symm

/-- The tests that are meant to act as a user are those with a statement that sets one up. -/
theorem usesUser_eq (cs : List Component) :
    usesUser (cs.map (Group.ofComponent s pass)) = (Uses.ofComponents s pass cs).user := by
  rw [usesUser, List.any_map]
  refine any_eq_of_mem fun c _ => any_eq_of_mem fun t ht => ?_
  exact (any_setsUpUser (isCase_of_mem ht)).symm

/-- The stubs among the default props are all that matter. -/
theorem usesStubs_eq (hcs : ∀ c ∈ cs, c.IsAnalyzed) :
    usesStubs (cs.map (Group.ofComponent s pass)) = (Uses.ofComponents s pass cs).stubs := by
  rw [usesStubs, List.any_map]
  refine any_eq_of_mem fun c hc => ?_
  have hgroup : (Group.ofComponent s pass c).hasStubs = hasDefaultStub s.framework c := rfl
  rw [Function.comp_apply, hgroup, Bool.eq_iff_iff, Bool.or_eq_true, Bool.and_eq_true]
  constructor
  · exact .inl
  · rintro (h | ⟨_, h⟩)
    · exact h
    · exact hasDefaultStub_of_hasOverrideStub (hcs c hc) h

theorem imports_eq (target : Target) (hcs : ∀ c ∈ cs, c.IsAnalyzed) :
    imports s target cs (cs.map (Group.ofComponent s pass)) =
      importsFor s target cs (Uses.ofComponents s pass cs) := by
  rw [imports, usedGlobals, usesScreen_eq, usesUser_eq, usesStubs_eq hcs]
  rfl

end uses

/-! ### The reset of stubs -/

section reset
variable {s : Settings} {pass : Pass} {c : Component} {typed : Bool}

/-- What ends in a comma does not reset the stubs. -/
theorem append_comma_ne_clearMocks (f : Framework) (entry : String) :
    entry ++ "," ≠ f.clearMocks := by
  intro h
  have hlast : f.clearMocks.toList.getLast? = some ',' := by
    rw [← h, String.toList_append, List.getLast?_append]
    rfl
  cases f <;> exact absurd hlast (by decide)

/-- What begins otherwise does not reset the stubs. -/
theorem ne_clearMocks_of_begins {line head : String} {f : Framework} (h : Text.Begins line head)
    (hp : Text.parts f.clearMocks head = true) : line ≠ f.clearMocks := by
  rintro rfl
  have hself : Text.startsWith f.clearMocks f.clearMocks = true := by cases f <;> decide
  rw [h.startsWith_eq_false hp] at hself
  cases hself

/-- No statement of a test resets the stubs. -/
theorem IsStatement.ne_clearMocks {scenario : Scenario} {line : String}
    (h : IsStatement c scenario line) (f : Framework) : line ≠ f.clearMocks := by
  have hplain : ∀ head ∈ plainHeads, Text.parts f.clearMocks head = true := by cases f <;> decide
  have hscreen : ∀ head ∈ screenHeads, Text.parts f.clearMocks head = true := by cases f <;> decide
  have hsetup : "const user = userEvent.setup();" ≠ f.clearMocks := by cases f <;> decide
  have hdefault : Text.parts f.clearMocks defaultHead = true := by cases f <;> decide
  cases h with
  | plain hmem hb => exact ne_clearMocks_of_begins hb (hplain _ hmem)
  | query _ hmem hb => exact ne_clearMocks_of_begins hb (hscreen _ hmem)
  | setup => exact hsetup
  | called _ _ => exact ne_clearMocks_of_begins (begins_expectCalled _) hdefault

theorem begins_renderStatement (wrapper : Option String) (c : Component) :
    Text.Begins (renderStatement wrapper c) "render(" := by
  have h (rest : String) : Text.Begins ("render(" ++ rest) "render(" :=
    (Text.Begins.of_isPrefixOf (by decide)).append_right rest
  unfold renderStatement
  split
  · simp only [String.append_assoc]
    exact h _
  · rw [String.append_assoc]
    exact h _

theorem clearMocks_notMem_defaultsLayout (f : Framework) (g : Group) :
    .line 2 f.clearMocks ∉ defaultsLayout typed g := by
  unfold defaultsLayout
  dsimp only
  split
  · simp
  · simp only [List.mem_append, List.mem_cons, List.mem_map]
    rintro ((h | ⟨d, _, h⟩) | h)
    · cases h
    · exact append_comma_ne_clearMocks f _ (Layout.line.inj h).2
    · simp at h

theorem clearMocks_notMem_helperLayout (f : Framework) (wrapper : Option String) (c : Component) :
    .line 2 f.clearMocks ∉ helperLayout typed wrapper c := by
  have hp : Text.parts f.clearMocks "render(" = true := by cases f <;> decide
  simp only [helperLayout, List.mem_cons, List.not_mem_nil, or_false]
  rintro (h | h)
  · cases h
  · exact ne_clearMocks_of_begins (begins_renderStatement wrapper c) hp (Layout.line.inj h).2.symm

theorem clearMocks_notMem_cases (f : Framework) :
    .line 2 f.clearMocks ∉ (testCases s pass c).flatMap TestCase.layout := by
  intro h
  obtain ⟨t, ht, h⟩ := List.mem_flatMap.mp h
  simp only [TestCase.layout, List.mem_append, List.mem_cons, List.mem_map] at h
  rcases h with (h | ⟨line, hl, h⟩) | h | h | h
  · cases h
  · exact (isStatement_of_mem (isCase_of_mem ht) hl).ne_clearMocks f (Layout.line.inj h).2
  · cases h
  · cases h
  · cases h

/-- A group resets the stubs exactly when it has some. -/
theorem clearMocks_mem_iff :
    .line 2 s.framework.clearMocks ∈ (Group.ofComponent s pass c).layout s typed ↔
      hasDefaultStub s.framework c = true := by
  have hgroup : (Group.ofComponent s pass c).hasStubs = hasDefaultStub s.framework c := rfl
  have hcases : (Group.ofComponent s pass c).cases = testCases s pass c := rfl
  unfold Group.layout
  rw [hgroup, hcases]
  constructor
  · intro h
    by_contra hno
    rw [if_neg hno] at h
    simp only [List.mem_append, List.mem_cons, clearMocks_notMem_defaultsLayout,
      clearMocks_notMem_helperLayout, clearMocks_notMem_cases] at h
    simp at h
  · intro h
    rw [if_pos h]
    have hline : .line 2 s.framework.clearMocks ∈ resetLayout s.framework :=
      List.mem_cons_of_mem _ List.mem_cons_self
    simp only [List.mem_append, List.mem_cons]
    tauto

end reset

/-! ### What every group uses -/

/-- The functions that every group calls, whatever its component. -/
def fixedNames : List String := ["describe", "expect", "it", "render"]

section fixed
variable {s : Settings} {pass : Pass} {c : Component} {typed : Bool}

theorem calls_of_begins {name text : String} (depth : Nat) (h : Text.Begins text (name ++ "(")) :
    Layout.calls name (.line depth text) = true :=
  h.startsWith

theorem describe_mem_layout :
    .line 0 ("describe(" ++ Text.literal c.name ++ ", () => \x7b") ∈
      (Group.ofComponent s pass c).layout s typed := by
  unfold Group.layout
  simp only [List.cons_append]
  exact List.mem_cons_self

theorem renderStatement_mem_layout :
    .line 2 (renderStatement (s.wrapper.map Prod.snd) c) ∈
      (Group.ofComponent s pass c).layout s typed := by
  have hline : .line 2 (renderStatement (s.wrapper.map Prod.snd) c) ∈
      helperLayout typed (s.wrapper.map Prod.snd) (Group.ofComponent s pass c).component :=
    List.mem_cons_of_mem _ List.mem_cons_self
  unfold Group.layout
  simp only [List.mem_append, List.mem_cons]
  tauto

theorem case_mem_layout {t : TestCase} (ht : t ∈ testCases s pass c) {item : Layout}
    (h : item ∈ t.layout) : item ∈ (Group.ofComponent s pass c).layout s typed := by
  have hcases : item ∈ (Group.ofComponent s pass c).cases.flatMap TestCase.layout :=
    List.mem_flatMap.mpr ⟨t, ht, h⟩
  unfold Group.layout
  simp only [List.mem_append]
  tauto

/-- Every group calls the functions that are always imported. -/
theorem any_calls_fixed {name : String} (h : name ∈ fixedNames) :
    ((Group.ofComponent s pass c).layout s typed).any (Layout.calls name) = true := by
  have hcrash : crashCase c ∈ testCases s pass c := by simp [testCases]
  have hcalls {item : Layout} (hmem : item ∈ (Group.ofComponent s pass c).layout s typed)
      (hitem : item.calls name = true) :
      ((Group.ofComponent s pass c).layout s typed).any (Layout.calls name) = true :=
    List.any_eq_true.mpr ⟨item, hmem, hitem⟩
  simp only [fixedNames, List.mem_cons, List.not_mem_nil, or_false] at h
  rcases h with rfl | rfl | rfl | rfl
  · refine hcalls describe_mem_layout (calls_of_begins 0 ?_)
    exact ((Text.Begins.of_isPrefixOf (by decide)).append_right _).append_right _
  · refine hcalls (case_mem_layout hcrash (List.mem_cons_of_mem _ List.mem_cons_self))
      (calls_of_begins 2 ?_)
    exact ((Text.Begins.of_isPrefixOf (by decide)).append_right _).append_right _
  · have hit : Text.Begins "it('renders without crashing', () => \x7b" "it(" :=
      .of_isPrefixOf (by decide)
    exact hcalls (case_mem_layout hcrash List.mem_cons_self) (calls_of_begins 1 hit)
  · exact hcalls renderStatement_mem_layout (calls_of_begins 2 (begins_renderStatement _ c))

end fixed

/-! ### Imports and uses -/

/-- What the imports of a module say of its groups. -/
structure ImportsMatch (s : Settings) (target : Target) (pass : Pass) (cs : List Component) :
    Prop where
  /-- The imports are those for what the groups use. -/
  imports : imports s target cs (cs.map (Group.ofComponent s pass)) =
    importsFor s target cs (Uses.ofComponents s pass cs)
  /-- Every group calls the functions that are always imported. -/
  fixed : ∀ c ∈ cs, ∀ typed, ∀ name ∈ fixedNames,
    ((Group.ofComponent s pass c).layout s typed).any (Layout.calls name) = true
  /-- A group resets the stubs exactly when a default prop is one. -/
  reset : ∀ c ∈ cs, ∀ typed, .line 2 s.framework.clearMocks ∈
      (Group.ofComponent s pass c).layout s typed ↔
    ∃ d ∈ defaultProps s.framework c, d.2 = s.framework.stub

/-- A module imports what its groups use, and the functions that every group calls. -/
theorem importsMatch (modules : Modules) (src : Source) (s : Settings) (target : Target)
    (pass : Pass) : ImportsMatch s target pass (Analysis.components modules src) := by
  refine ⟨imports_eq target fun c hc => Analysis.isAnalyzed hc, ?_, ?_⟩
  · intro c _ typed name hname
    exact any_calls_fixed hname
  · intro c _ typed
    rw [clearMocks_mem_iff, hasDefaultStub, List.any_eq_true]
    simp only [decide_eq_true_eq]

/-- A source without components: its module imports functions that nothing calls. -/
theorem fixed_unused :
    (Source.ofText ⟨"A.tsx"⟩ "const a = 1;").toOption.map (Analysis.components .none) = some [] ∧
      "import \x7b describe, expect, it \x7d from 'vitest';" ∈
        imports (plain .vitest) ⟨"A.tsx", "./A", true⟩ [] [] ∧
      bodyLayout (plain .vitest) true [] = [] := by
  refine ⟨by decide +kernel, by decide, rfl⟩

end Suite

end Trellis
